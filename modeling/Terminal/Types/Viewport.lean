import Mathlib.Algebra.Order.Ring.Int
import Mathlib.Tactic.Common

/-!
# Viewports (`viewport.cpp`)

A rectangle of the buffer by its inclusive bounds, and the walks through it.
-/

namespace Terminal.Types

@[ext] structure Point where
  x : Int
  y : Int
deriving DecidableEq, Repr

/-- The reading order. -/
instance : LE Point := ⟨fun p q => p.y < q.y ∨ p.y = q.y ∧ p.x ≤ q.x⟩

theorem Point.le_def {p q : Point} : p ≤ q ↔ p.y < q.y ∨ p.y = q.y ∧ p.x ≤ q.x := Iff.rfl

instance (p q : Point) : Decidable (p ≤ q) := decidable_of_iff _ Point.le_def.symm

theorem Point.le_refl (p : Point) : p ≤ p := Or.inr ⟨rfl, le_rfl⟩

theorem Point.le_trans {p q r : Point} (hpq : p ≤ q) (hqr : q ≤ r) : p ≤ r := by
  rw [Point.le_def] at *
  omega

theorem Point.le_of_not_le {p q : Point} (h : ¬p ≤ q) : q ≤ p := by
  rw [Point.le_def] at *
  omega

structure Size where
  width : Int
  height : Int
deriving DecidableEq, Repr

def Size.IsInBounds (size : Size) (pos : Point) : Prop :=
  0 ≤ pos.x ∧ pos.x < size.width ∧ 0 ≤ pos.y ∧ pos.y < size.height

instance (size : Size) (pos : Point) : Decidable (size.IsInBounds pos) := inferInstanceAs (Decidable (_ ∧ _ ∧ _ ∧ _))

structure Rect where
  left : Int
  top : Int
  right : Int
  bottom : Int
deriving DecidableEq, Repr

namespace Rect

def origin (rect : Rect) : Point := ⟨rect.left, rect.top⟩

def size (rect : Rect) : Size := ⟨rect.right - rect.left, rect.bottom - rect.top⟩

def IsNonempty (rect : Rect) : Prop := 0 ≤ rect.left ∧ 0 ≤ rect.top ∧ rect.left < rect.right ∧ rect.top < rect.bottom

instance (rect : Rect) : Decidable rect.IsNonempty := inferInstanceAs (Decidable (_ ∧ _ ∧ _ ∧ _))

end Rect

structure Viewport where
  left : Int
  top : Int
  rightInclusive : Int
  bottomInclusive : Int
deriving DecidableEq, Repr

inductive XWalk where
  | leftToRight
  | rightToLeft
deriving DecidableEq, Repr

inductive YWalk where
  | topToBottom
  | bottomToTop
deriving DecidableEq, Repr

structure WalkDir where
  x : XWalk
  y : YWalk
deriving DecidableEq, Repr

namespace Viewport

def fromDimensions (origin : Point) (dimensions : Size) : Viewport :=
  ⟨origin.x, origin.y, origin.x + dimensions.width - 1, origin.y + dimensions.height - 1⟩

variable (vp : Viewport)

def rightExclusive : Int := vp.rightInclusive + 1

def bottomExclusive : Int := vp.bottomInclusive + 1

def width : Int := vp.rightExclusive - vp.left

def height : Int := vp.bottomExclusive - vp.top

def origin : Point := ⟨vp.left, vp.top⟩

def dimensions : Size := ⟨vp.width, vp.height⟩

def isValid : Prop :=
  0 ≤ vp.left ∧ 0 ≤ vp.top ∧ vp.left ≤ vp.rightInclusive ∧ vp.top ≤ vp.bottomInclusive

instance (vp : Viewport) : Decidable vp.isValid := inferInstanceAs (Decidable (_ ∧ _ ∧ _ ∧ _))

theorem isValid_of_isNonempty {rect : Rect} (h : rect.IsNonempty) : (fromDimensions rect.origin rect.size).isValid := by
  obtain ⟨hleft, htop, hx, hy⟩ := h
  refine ⟨hleft, htop, ?_, ?_⟩
  · simp only [fromDimensions, Rect.size]
    omega
  · simp only [fromDimensions, Rect.size]
    omega

def endExclusive : Point := ⟨vp.left, vp.bottomExclusive⟩

variable (pos : Point)

def Contains : Prop :=
  vp.left ≤ pos.x ∧ pos.x < vp.rightExclusive ∧ vp.top ≤ pos.y ∧ pos.y < vp.bottomExclusive

instance (vp : Viewport) (pos : Point) : Decidable (vp.Contains pos) := inferInstanceAs (Decidable (_ ∧ _ ∧ _ ∧ _))

def clampBetween (v lo hi : Int) : Int := if v < lo then lo else if hi < v then hi else v

def clamp : Point :=
  ⟨clampBetween pos.x vp.left vp.rightInclusive, clampBetween pos.y vp.top vp.bottomInclusive⟩

/-- Not positive just if the first position is not behind the second. -/
def compareInBounds (first second : Point) : Int :=
  (first.y - second.y) * vp.width + (first.x - second.x)

/-! ## Walks -/

def walkInBoundsCircular (dir : WalkDir) (allowEndExclusive : Bool) : Point × Bool :=
  match dir.x with
  | .leftToRight =>
    if allowEndExclusive ∧ pos.x = vp.left ∧ pos.y = vp.bottomExclusive then (⟨pos.x, vp.top⟩, false)
    else if pos.x = vp.rightInclusive then
      match dir.y with
      | .topToBottom =>
        if allowEndExclusive ∧ pos.y + 1 = vp.bottomExclusive then (⟨vp.left, pos.y + 1⟩, true)
        else if pos.y + 1 > vp.bottomInclusive then (⟨vp.left, vp.top⟩, false)
        else (⟨vp.left, pos.y + 1⟩, true)
      | .bottomToTop =>
        if pos.y - 1 < vp.top then (⟨vp.left, vp.bottomInclusive⟩, false) else (⟨vp.left, pos.y - 1⟩, true)
    else (⟨pos.x + 1, pos.y⟩, true)
  | .rightToLeft =>
    if pos.x = vp.left then
      match dir.y with
      | .topToBottom =>
        if pos.y + 1 > vp.bottomInclusive then (⟨vp.rightInclusive, vp.top⟩, false)
        else (⟨vp.rightInclusive, pos.y + 1⟩, true)
      | .bottomToTop =>
        if pos.y - 1 < vp.top then (⟨vp.rightInclusive, vp.bottomInclusive⟩, false)
        else (⟨vp.rightInclusive, pos.y - 1⟩, true)
    else (⟨pos.x - 1, pos.y⟩, true)

def walkInBounds (dir : WalkDir) (allowEndExclusive : Bool := false) : Point × Bool :=
  if (vp.walkInBoundsCircular pos dir allowEndExclusive).2 then
    ((vp.walkInBoundsCircular pos dir allowEndExclusive).1, true)
  else (pos, false)

def incrementInBounds (allowEndExclusive : Bool := false) : Point × Bool :=
  vp.walkInBounds pos ⟨.leftToRight, .topToBottom⟩ allowEndExclusive

def decrementInBounds (allowEndExclusive : Bool := false) : Point × Bool :=
  vp.walkInBounds pos ⟨.rightToLeft, .bottomToTop⟩ allowEndExclusive

variable (dir : WalkDir)

def getWalkOrigin : Point where
  x := match dir.x with
    | .leftToRight => vp.left
    | .rightToLeft => vp.rightInclusive
  y := match dir.y with
    | .topToBottom => vp.top
    | .bottomToTop => vp.bottomInclusive

def determineWalkDirection (source target : Viewport) : WalkDir where
  x := if target.left < source.left then .leftToRight else .rightToLeft
  y := if target.top < source.top then .topToBottom else .bottomToTop

/-! ## The order of a walk -/

def walkAt (i j : Nat) : Point where
  x := match dir.x with
    | .leftToRight => vp.left + i
    | .rightToLeft => vp.rightInclusive - i
  y := match dir.y with
    | .topToBottom => vp.top + j
    | .bottomToTop => vp.bottomInclusive - j

variable {vp : Viewport}

theorem walkInBounds_walkAt {i j : Nat} (hi : (i : Int) < vp.width) (hj : (j : Int) < vp.height) :
    vp.walkInBounds (vp.walkAt dir i j) dir =
      if (i + 1 : Int) < vp.width then (vp.walkAt dir (i + 1) j, true)
      else if (j + 1 : Int) < vp.height then (vp.walkAt dir 0 (j + 1), true)
      else (vp.walkAt dir i j, false) := by
  obtain ⟨x, y⟩ := dir
  unfold width rightExclusive at *
  unfold height bottomExclusive at *
  by_cases hx : (i + 1 : Int) < vp.rightInclusive + 1 - vp.left
  · have hright : vp.left + (i : Int) ≠ vp.rightInclusive := by omega
    have hleft : vp.rightInclusive - (i : Int) ≠ vp.left := by omega
    rw [if_pos hx]
    cases x
    all_goals
      simp only [walkInBounds, walkInBoundsCircular, walkAt, Bool.false_eq_true, false_and,
        if_false, hright, hleft, if_true, Prod.mk.injEq, and_true, Point.mk.injEq]
      omega
  · have hright : vp.left + (i : Int) = vp.rightInclusive := by omega
    have hleft : vp.rightInclusive - (i : Int) = vp.left := by omega
    rw [if_neg hx]
    by_cases hy : (j + 1 : Int) < vp.bottomInclusive + 1 - vp.top
    · have hbottom : ¬vp.top + (j : Int) + 1 > vp.bottomInclusive := by omega
      have htop : ¬vp.bottomInclusive - (j : Int) - 1 < vp.top := by omega
      rw [if_pos hy]
      cases x <;> cases y
      all_goals
        simp only [walkInBounds, walkInBoundsCircular, walkAt, Bool.false_eq_true, false_and, if_false, hright, hleft,
          if_true, hbottom, htop, Prod.mk.injEq, and_true, Point.mk.injEq]
        omega
    · have hbottom : vp.top + (j : Int) + 1 > vp.bottomInclusive := by omega
      have htop : vp.bottomInclusive - (j : Int) - 1 < vp.top := by omega
      rw [if_neg hy]
      cases x <;> cases y
      all_goals
        simp only [walkInBounds, walkInBoundsCircular, walkAt, Bool.false_eq_true, false_and, if_false, hright, hleft,
          if_true, hbottom, htop]

theorem walkAt_zero : vp.walkAt dir 0 0 = vp.getWalkOrigin dir := by
  obtain ⟨x, y⟩ := dir
  cases x <;> cases y <;> simp [walkAt, getWalkOrigin]

theorem contains_iff_walkAt {pos : Point} :
    vp.Contains pos ↔ ∃ i j : Nat, (i : Int) < vp.width ∧ (j : Int) < vp.height ∧ vp.walkAt dir i j = pos := by
  obtain ⟨px, py⟩ := pos
  obtain ⟨x, y⟩ := dir
  unfold Contains width height rightExclusive bottomExclusive walkAt
  constructor
  · rintro ⟨hleft, hright, htop, hbottom⟩
    refine ⟨(match x with | .leftToRight => px - vp.left | .rightToLeft => vp.rightInclusive - px).toNat,
      (match y with | .topToBottom => py - vp.top | .bottomToTop => vp.bottomInclusive - py).toNat, ?_⟩
    cases x <;> cases y
    all_goals
      simp only [Point.mk.injEq] at *
      omega
  · cases x <;> cases y
    all_goals
      simp only [Point.mk.injEq] at *
      omega

theorem walkAt_inj {i j i' j' : Nat} (h : vp.walkAt dir i j = vp.walkAt dir i' j') : i = i' ∧ j = j' := by
  obtain ⟨x, y⟩ := dir
  cases x <;> cases y
  all_goals
    simp only [walkAt, Point.mk.injEq] at h
    omega

/-! ## Steps in reading order -/

theorem compareInBounds_nonpos {p q : Point} (hp : vp.Contains p) (hq : vp.Contains q) :
    vp.compareInBounds p q ≤ 0 ↔ p ≤ q := by
  unfold Contains at hp hq
  unfold compareInBounds width
  rw [Point.le_def]
  obtain hlt | heq | hgt := lt_trichotomy p.y q.y
  · have := mul_le_mul_of_nonneg_right (show p.y - q.y ≤ -1 by omega) (show 0 ≤ vp.rightExclusive - vp.left by omega)
    omega
  · have : (p.y - q.y) * (vp.rightExclusive - vp.left) = 0 := by rw [heq, sub_self, zero_mul]
    omega
  · have := mul_le_mul_of_nonneg_right (show 1 ≤ p.y - q.y by omega) (show 0 ≤ vp.rightExclusive - vp.left by omega)
    omega

variable {p : Point}

theorem compareInBounds_endExclusive (hp : vp.Contains p) : vp.compareInBounds p vp.endExclusive < 0 := by
  unfold Contains at hp
  have hrows := mul_le_mul_of_nonneg_right (show p.y - vp.bottomExclusive ≤ -1 by omega)
    (show 0 ≤ vp.rightExclusive - vp.left by omega)
  unfold compareInBounds width endExclusive
  simp only
  omega

theorem ne_endExclusive (hp : vp.Contains p) : p ≠ vp.endExclusive := by
  rintro rfl
  unfold Contains endExclusive at hp
  dsimp only at hp
  omega

theorem contains_clamp (h : vp.isValid) (p : Point) : vp.Contains (vp.clamp p) := by
  unfold isValid at h
  unfold Contains clamp clampBetween rightExclusive bottomExclusive
  dsimp only
  split_ifs <;> omega

theorem incrementInBounds_fst (hp : vp.Contains p) (past : Bool) (hlast : past → p.x ≠ vp.rightInclusive) :
    (vp.incrementInBounds p past).1 =
      if p.x < vp.rightInclusive then ⟨p.x + 1, p.y⟩
      else if p.y < vp.bottomInclusive then ⟨vp.left, p.y + 1⟩ else p := by
  unfold Contains rightExclusive bottomExclusive at hp
  unfold incrementInBounds walkInBounds walkInBoundsCircular bottomExclusive
  have hend : ¬(past ∧ p.x = vp.left ∧ p.y = vp.bottomInclusive + 1) := by omega
  simp only [if_neg hend]
  by_cases hx : p.x = vp.rightInclusive
  · have hallow : past = false := by simpa [hx] using hlast
    simp only [if_pos hx, hallow]
    rw [if_neg (show ¬p.x < vp.rightInclusive by omega)]
    by_cases hy : p.y < vp.bottomInclusive
    · rw [if_pos hy, if_neg (show ¬p.y + 1 > vp.bottomInclusive by omega)]
      rfl
    · rw [if_neg hy, if_pos (show p.y + 1 > vp.bottomInclusive by omega)]
      rfl
  · simp only [if_neg hx, if_true]
    rw [if_pos (by omega)]

theorem decrementInBounds_fst (hp : vp.Contains p) (past : Bool) : (vp.decrementInBounds p past).1 =
      if vp.left < p.x then ⟨p.x - 1, p.y⟩
      else if vp.top < p.y then ⟨vp.rightInclusive, p.y - 1⟩ else p := by
  unfold Contains at hp
  unfold decrementInBounds walkInBounds walkInBoundsCircular
  dsimp only
  split_ifs <;> first | omega | rfl | simp_all

end Viewport

end Terminal.Types
