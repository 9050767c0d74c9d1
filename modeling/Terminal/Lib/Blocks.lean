import Mathlib.Data.Nat.Cast.Basic
import Mathlib.Algebra.BigOperators.Group.List.Basic

/-!
# Blocks in columns

Cutting a line of blocks at a column leaves the whole blocks on that side; the columns of a block
that is cut become blanks.
-/

namespace Blocks

structure Block (α : Type) where
  value : α
  width : Nat
  width_pos : 0 < width
deriving DecidableEq, Repr

variable {α : Type} (blank : α)

def width (bs : List (Block α)) : Nat := (bs.map Block.width).sum

def blanks (n : Nat) : List (Block α) := List.replicate n ⟨blank, 1, Nat.one_pos⟩

def before : Nat → List (Block α) → List (Block α)
  | c, [] => blanks blank c
  | c, b :: bs => if b.width ≤ c then b :: before (c - b.width) bs else blanks blank c

def after : Nat → List (Block α) → List (Block α)
  | _, [] => []
  | c, b :: bs =>
    if c = 0 then b :: bs
    else if b.width ≤ c then after (c - b.width) bs
    else blanks blank (b.width - c) ++ bs

def replace (start stop : Nat) (value : α) (h : start < stop) (bs : List (Block α)) : List (Block α) :=
  before blank start bs ++ ⟨value, stop - start, Nat.sub_pos_of_lt h⟩ :: after blank stop bs

/-! ## Widths -/

@[simp] theorem width_nil : width ([] : List (Block α)) = 0 := rfl

@[simp] theorem width_cons (b : Block α) (bs : List (Block α)) : width (b :: bs) = b.width + width bs := by
  simp [width]

@[simp] theorem width_append (xs ys : List (Block α)) : width (xs ++ ys) = width xs + width ys := by
  simp [width]

@[simp] theorem width_blanks (n : Nat) : width (blanks blank n) = n := by
  simp [width, blanks]

@[simp] theorem blanks_zero : blanks blank 0 = [] := rfl

theorem blanks_succ (n : Nat) : blanks blank (n + 1) = ⟨blank, 1, Nat.one_pos⟩ :: blanks blank n := rfl

theorem blanks_add (m n : Nat) : blanks blank (m + n) = blanks blank m ++ blanks blank n := List.replicate_add m n _

/-! ## Where a cut falls -/

def Inside (j : Nat) (bs : List (Block α)) : Prop := j = 0 ∨ ∃ b bs', bs = b :: bs' ∧ j < b.width

theorem Inside.of_succ {j : Nat} {bs : List (Block α)} (h : Inside (j + 1) bs) : Inside j bs := by
  rcases h with h | ⟨b, bs', hbs, hlt⟩
  · omega
  · exact .inr ⟨b, bs', hbs, by omega⟩

def InsideLast (k : Nat) (bs : List (Block α)) : Prop := k = 0 ∨ ∃ bs' b, bs = bs' ++ [b] ∧ k < b.width

theorem before_eq (c : Nat) (bs : List (Block α)) : ∃ pre rest j, bs = pre ++ rest ∧ width pre + j = min c (width bs) ∧
      before blank c bs = pre ++ blanks blank (c - width pre) ∧ Inside j rest := by
  induction bs generalizing c with
  | nil => exact ⟨[], [], 0, rfl, by simp, rfl, .inl rfl⟩
  | cons b bs ih =>
    rcases Nat.lt_or_ge c b.width with hlt | hge
    · refine ⟨[], b :: bs, c, rfl, by simp; omega, ?_, .inr ⟨b, bs, rfl, hlt⟩⟩
      simp [before, Nat.not_le.mpr hlt]
    · obtain ⟨pre, rest, j, rfl, hwidth, hbefore, hj⟩ := ih (c - b.width)
      refine ⟨b :: pre, rest, j, rfl, ?_, ?_, hj⟩
      · simp only [width_cons]
        omega
      · simp [before, hge, hbefore, Nat.sub_sub]

theorem after_eq {c : Nat} {bs : List (Block α)} (hc : c ≤ width bs) :
    ∃ front post k, bs = front ++ post ∧ width front = c + k ∧ after blank c bs = blanks blank k ++ post ∧
      InsideLast k front := by
  induction bs generalizing c with
  | nil =>
    obtain rfl : c = 0 := by simpa using hc
    exact ⟨[], [], 0, rfl, rfl, rfl, .inl rfl⟩
  | cons b bs ih =>
    rcases Nat.eq_zero_or_pos c with rfl | hpos
    · exact ⟨[], b :: bs, 0, rfl, rfl, by simp [after], .inl rfl⟩
    rcases Nat.lt_or_ge c b.width with hlt | hge
    · refine ⟨[b], bs, b.width - c, rfl, by simp; omega, ?_, .inr ⟨[], b, rfl, by omega⟩⟩
      simp [after, Nat.ne_of_gt hpos, Nat.not_le.mpr hlt]
    · obtain ⟨front, post, k, rfl, hwidth, hafter, hk⟩ := ih (c := c - b.width) (by simp at hc; omega)
      refine ⟨b :: front, post, k, rfl, ?_, ?_, ?_⟩
      · simp only [width_cons]
        omega
      · simp [after, Nat.ne_of_gt hpos, hge, hafter]
      · rcases hk with rfl | ⟨front', b', rfl, hlt⟩
        · exact .inl rfl
        · exact .inr ⟨b :: front', b', rfl, hlt⟩

theorem after_append (pre post : List (Block α)) (c : Nat) :
    after blank (width pre + c) (pre ++ post) = after blank c post := by
  induction pre with
  | nil => simp
  | cons b pre ih =>
    simp [after, Nat.add_assoc, ih, Nat.ne_of_gt b.width_pos]

theorem replace_eq {start stop : Nat} {bs : List (Block α)} (h : start < stop) (hstop : stop ≤ width bs) :
    ∃ pre mid post j k, bs = pre ++ (mid ++ post) ∧ width pre + j = start ∧ width pre + width mid = stop + k ∧
      (∀ value, replace blank start stop value h bs =
        pre ++ (blanks blank j ++ ⟨value, stop - start, Nat.sub_pos_of_lt h⟩ :: (blanks blank k ++ post))) ∧
      Inside j (mid ++ post) ∧ InsideLast k mid := by
  obtain ⟨pre, rest, j, rfl, hpre, hbefore, hj⟩ := before_eq blank start bs
  rw [Nat.min_eq_left (Nat.le_trans (Nat.le_of_lt h) hstop)] at hpre
  have hrest : stop - width pre ≤ width rest := by
    simp at hstop
    omega
  obtain ⟨mid, post, k, rfl, hmid, hafter, hk⟩ := after_eq blank hrest
  have hafter' : after blank stop (pre ++ (mid ++ post)) = blanks blank k ++ post := by
    rw [← hafter, ← after_append blank pre (mid ++ post), Nat.add_sub_cancel' (by omega)]
  refine ⟨pre, mid, post, j, k, rfl, hpre, by omega, ?_, hj, hk⟩
  simp [replace, hbefore, hafter', show start - width pre = j by omega]

end Blocks
