import Mathlib.Algebra.Ring.Nat
import Mathlib.Data.List.Chain
import Mathlib.Algebra.BigOperators.Group.List.Basic

/-!
# Run-length encoded lists

A list of runs stands for the list with every value repeated. Canonical lists have no empty run
and no two neighbours that should be one.
-/

structure Run (α : Type) where
  value : α
  length : Nat
deriving DecidableEq, Repr

namespace RunList

variable {α : Type}

def decode (rs : List (Run α)) : List α := rs.flatMap fun r => List.replicate r.length r.value

def total (rs : List (Run α)) : Nat := (rs.map Run.length).sum

@[simp] theorem decode_nil : decode ([] : List (Run α)) = [] := rfl

@[simp] theorem decode_cons (r : Run α) (rs : List (Run α)) :
    decode (r :: rs) = List.replicate r.length r.value ++ decode rs := rfl

@[simp] theorem decode_append (xs ys : List (Run α)) : decode (xs ++ ys) = decode xs ++ decode ys := List.flatMap_append

@[simp] theorem total_nil : total ([] : List (Run α)) = 0 := rfl

@[simp] theorem total_cons (r : Run α) (rs : List (Run α)) : total (r :: rs) = r.length + total rs := by
  simp [total]

@[simp] theorem total_append (xs ys : List (Run α)) : total (xs ++ ys) = total xs + total ys := by
  simp [total]

theorem length_decode (rs : List (Run α)) : (decode rs).length = total rs := by
  induction rs with
  | nil => rfl
  | cons r rs ih => simp [ih]

variable {rs xs ys : List (Run α)}

theorem length_le_total {r : Run α} (hr : r ∈ rs) : r.length ≤ total rs := by
  obtain ⟨xs, ys, rfl⟩ := List.append_of_mem hr
  simp
  omega

/-! ## Canonical lists -/

/-- The last run of one and the first of the other differ. -/
def Apart (xs ys : List (Run α)) : Prop :=
  ∀ x ∈ xs.getLast?, ∀ y ∈ ys.head?, x.value ≠ y.value

structure Canonical (rs : List (Run α)) : Prop where
  pos : ∀ r ∈ rs, 0 < r.length
  distinct : rs.IsChain fun r r' => r.value ≠ r'.value

theorem canonical_nil : Canonical ([] : List (Run α)) := ⟨by simp, by simp⟩

theorem canonical_append : Canonical (xs ++ ys) ↔ Canonical xs ∧ Canonical ys ∧ Apart xs ys := by
  constructor
  · rintro ⟨hpos, hdist⟩
    obtain ⟨hx, hy, hxy⟩ := List.isChain_append.mp hdist
    refine ⟨⟨?_, hx⟩, ⟨?_, hy⟩, hxy⟩ <;> intro r hr <;> apply hpos <;> simp [hr]
  · rintro ⟨hx, hy, hxy⟩
    refine ⟨?_, List.isChain_append.mpr ⟨hx.distinct, hy.distinct, hxy⟩⟩
    intro r hr
    rcases List.mem_append.mp hr with h | h
    · exact hx.pos r h
    · exact hy.pos r h

theorem canonical_cons {r : Run α} : Canonical (r :: rs) ↔ 0 < r.length ∧ Canonical rs ∧ Apart [r] rs := by
  have hsingle : Canonical [r] ↔ 0 < r.length :=
    ⟨fun h => h.pos r List.mem_cons_self, fun h => ⟨by simpa using h, by simp⟩⟩
  rw [← List.singleton_append, canonical_append, hsingle]

theorem Apart.congr_head {xs ys ys' : List (Run α)} (h : Apart xs ys)
    (hhead : ys'.head?.map Run.value = ys.head?.map Run.value) : Apart xs ys' := by
  intro x hx y' hy'
  rw [hy', Option.map_some, eq_comm, Option.map_eq_some_iff] at hhead
  obtain ⟨y, hy, hyy'⟩ := hhead
  rw [← hyy']
  exact h x hx y hy

theorem Apart.congr_last {xs xs' ys : List (Run α)} (h : Apart xs ys)
    (hlast : xs'.getLast?.map Run.value = xs.getLast?.map Run.value) : Apart xs' ys := by
  intro x' hx' y hy
  rw [hx', Option.map_some, eq_comm, Option.map_eq_some_iff] at hlast
  obtain ⟨x, hx, hxx'⟩ := hlast
  rw [← hxx']
  exact h x hx y hy

/-! ## Cutting -/

def take : Nat → List (Run α) → List (Run α)
  | _, [] => []
  | n, r :: rs =>
    if n < r.length then if n = 0 then [] else [{ r with length := n }]
    else r :: take (n - r.length) rs

def drop : Nat → List (Run α) → List (Run α)
  | _, [] => []
  | n, r :: rs =>
    if n < r.length then { r with length := r.length - n } :: rs else drop (n - r.length) rs

theorem decode_take (n : Nat) (rs : List (Run α)) : decode (take n rs) = (decode rs).take n := by
  induction rs generalizing n with
  | nil => simp [take]
  | cons r rs ih =>
    unfold take
    split_ifs with h h0
    · simp [h0]
    · rw [decode_cons, decode_cons, List.take_append_of_le_length (by simp; omega)]
      simp [Nat.min_eq_left (Nat.le_of_lt h)]
    · rw [decode_cons, decode_cons, ih, List.take_append]
      simp [Nat.min_eq_right (Nat.not_lt.mp h)]

theorem decode_drop (n : Nat) (rs : List (Run α)) : decode (drop n rs) = (decode rs).drop n := by
  induction rs generalizing n with
  | nil => simp [drop]
  | cons r rs ih =>
    unfold drop
    split_ifs with h
    · rw [decode_cons, decode_cons, List.drop_append_of_le_length (by simp; omega)]
      simp
    · rw [decode_cons, ih, List.drop_append]
      simp [Nat.sub_eq_zero_of_le (Nat.not_lt.mp h)]

theorem total_take (n : Nat) (rs : List (Run α)) : total (take n rs) = min n (total rs) := by
  rw [← length_decode, decode_take, List.length_take, length_decode]

theorem total_drop (n : Nat) (rs : List (Run α)) : total (drop n rs) = total rs - n := by
  rw [← length_decode, decode_drop, List.length_drop, length_decode]

theorem take_head? {n : Nat} (hne : take n rs ≠ []) : (take n rs).head?.map Run.value = rs.head?.map Run.value := by
  cases rs with
  | nil => rfl
  | cons r rs =>
    unfold take at hne ⊢
    split_ifs at hne ⊢ with h h0
    · simp at hne
    · rfl
    · rfl

theorem canonical_take (n : Nat) (h : Canonical rs) : Canonical (take n rs) := by
  induction rs generalizing n with
  | nil => exact canonical_nil
  | cons r rs ih =>
    obtain ⟨hpos, hrs, hapart⟩ := canonical_cons.mp h
    unfold take
    split_ifs with hn h0
    · exact canonical_nil
    · rw [canonical_cons]
      exact ⟨by simp only; omega, canonical_nil, by simp [Apart]⟩
    · rw [canonical_cons]
      refine ⟨hpos, ih _ hrs, ?_⟩
      by_cases hne : take (n - r.length) rs = []
      · simp [hne, Apart]
      · exact hapart.congr_head (take_head? hne)

theorem canonical_drop (n : Nat) (h : Canonical rs) : Canonical (drop n rs) := by
  induction rs generalizing n with
  | nil => exact canonical_nil
  | cons r rs ih =>
    obtain ⟨hpos, hrs, hapart⟩ := canonical_cons.mp h
    unfold drop
    split_ifs with hn
    · rw [canonical_cons]
      exact ⟨by simp only; omega, hrs, hapart.congr_last rfl⟩
    · exact ih _ hrs

/-! ## Joining -/

variable [DecidableEq α]

/-- With one run for the two at the border if they have one value. -/
def join (xs ys : List (Run α)) : List (Run α) :=
  match xs.getLast?, ys with
  | some x, y :: ys' =>
    if x.value = y.value then xs.dropLast ++ { y with length := x.length + y.length } :: ys' else xs ++ ys
  | _, _ => xs ++ ys

theorem join_of_apart (h : Apart xs ys) : join xs ys = xs ++ ys := by
  unfold join
  split
  · rename_i x y ys' hx
    exact if_neg (h x hx y rfl)
  · rfl

theorem join_of_eq {x y : Run α} (h : x.value = y.value) (xs ys : List (Run α)) :
    join (xs ++ [x]) (y :: ys) = xs ++ { y with length := x.length + y.length } :: ys := by
  simp [join, h]

theorem join_cases (xs ys : List (Run α)) :
    Apart xs ys ∨ ∃ xs' x y ys', xs = xs' ++ [x] ∧ ys = y :: ys' ∧ x.value = y.value := by
  by_cases hx : xs = []
  · exact Or.inl (by simp [hx, Apart])
  · obtain ⟨xs', x, rfl⟩ := (List.eq_nil_or_concat' xs).resolve_left hx
    cases ys with
    | nil => exact Or.inl (by simp [Apart])
    | cons y ys =>
      by_cases h : x.value = y.value
      · exact Or.inr ⟨xs', x, y, ys, rfl, rfl, h⟩
      · exact Or.inl (by simpa [Apart] using h)

theorem decode_join (xs ys : List (Run α)) : decode (join xs ys) = decode xs ++ decode ys := by
  rcases join_cases xs ys with h | ⟨xs, x, y, ys, rfl, rfl, h⟩
  · rw [join_of_apart h, decode_append]
  · rw [join_of_eq h]
    simp only [decode_append, decode_cons, decode_nil, List.append_nil, List.append_assoc, h]
    rw [List.replicate_add, List.append_assoc]

theorem total_join (xs ys : List (Run α)) : total (join xs ys) = total xs + total ys := by
  rw [← length_decode, decode_join, List.length_append, length_decode, length_decode]

theorem canonical_join (hxs : Canonical xs) (hys : Canonical ys) : Canonical (join xs ys) := by
  rcases join_cases xs ys with h | ⟨xs, x, y, ys, rfl, rfl, h⟩
  · rw [join_of_apart h, canonical_append]
    exact ⟨hxs, hys, h⟩
  · obtain ⟨hxs, -, hx⟩ := canonical_append.mp hxs
    obtain ⟨hpos, hys, hy⟩ := canonical_cons.mp hys
    rw [join_of_eq h, canonical_append, canonical_cons]
    refine ⟨hxs, ⟨by simp only; omega, hys, hy.congr_last rfl⟩, hx.congr_head ?_⟩
    simp [h]

/-! ## Replacing a range -/

/-- Puts `ms` in place of the values from `start` up to `stop`. -/
def splice (start stop : Nat) (ms rs : List (Run α)) : List (Run α) :=
  join (join (take start rs) ms) (drop stop rs)

theorem decode_splice (start stop : Nat) (ms rs : List (Run α)) :
    decode (splice start stop ms rs) = (decode rs).take start ++ (decode ms ++ (decode rs).drop stop) := by
  rw [splice, decode_join, decode_join, decode_take, decode_drop, List.append_assoc]

theorem canonical_splice (start stop : Nat) {ms rs : List (Run α)} (hms : Canonical ms) (hrs : Canonical rs) :
    Canonical (splice start stop ms rs) :=
  canonical_join (canonical_join (canonical_take start hrs) hms) (canonical_drop stop hrs)

theorem total_splice {start stop : Nat} (ms rs : List (Run α)) (hle : start ≤ stop) (hstop : stop ≤ total rs) :
    total (splice start stop ms rs) = total rs - (stop - start) + total ms := by
  rw [← length_decode, decode_splice]
  simp only [List.length_append, List.length_take, List.length_drop, length_decode]
  omega

end RunList
