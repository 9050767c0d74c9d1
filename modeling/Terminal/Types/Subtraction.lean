import Terminal.Types.Viewport

/-!
# Taking one rectangle out of another (`viewport.cpp`, `rect.h`)

`Viewport::Subtract` and the `operator-` of `til::rect` were written apart, for inclusive and for
exclusive ends.
-/

namespace Terminal.Types

open List

namespace Viewport

def empty : Viewport := ⟨0, 0, -1, -1⟩

def intersect (lhs rhs : Viewport) : Viewport :=
  let intersection : Viewport := ⟨max lhs.left rhs.left, max lhs.top rhs.top,
    min lhs.rightInclusive rhs.rightInclusive, min lhs.bottomInclusive rhs.bottomInclusive⟩
  if intersection.isValid then intersection else empty

def parts (original intersection : Viewport) : List Viewport :=
  [⟨original.left, original.top, original.rightInclusive, intersection.top - 1⟩,
    ⟨original.left, intersection.bottomExclusive, original.rightInclusive, original.bottomInclusive⟩,
    ⟨original.left, intersection.top, intersection.left - 1, intersection.bottomInclusive⟩,
    ⟨intersection.rightExclusive, intersection.top, original.rightInclusive, intersection.bottomInclusive⟩]

def subtract (original removeMe : Viewport) : List Viewport :=
  let intersection := original.intersect removeMe
  if ¬intersection.isValid then [original]
  else if original ≠ intersection then (original.parts intersection).filter (·.isValid)
  else []

def toExclusive (vp : Viewport) : Rect := ⟨vp.left, vp.top, vp.rightExclusive, vp.bottomExclusive⟩

end Viewport

namespace Rect

def Contains (rect : Rect) (pt : Point) : Prop :=
  rect.left ≤ pt.x ∧ pt.x < rect.right ∧ rect.top ≤ pt.y ∧ pt.y < rect.bottom

def intersect (rect other : Rect) : Rect :=
  let l := max rect.left other.left
  let r := min rect.right other.right
  let t := max rect.top other.top
  let b := min rect.bottom other.bottom
  if l ≥ r ∨ t ≥ b then ⟨0, 0, 0, 0⟩ else ⟨l, t, r, b⟩

def parts (rect intersect : Rect) : List Rect :=
  [⟨rect.left, rect.top, rect.right, intersect.top⟩, ⟨rect.left, intersect.bottom, rect.right, rect.bottom⟩,
    ⟨rect.left, intersect.top, intersect.left, intersect.bottom⟩,
    ⟨intersect.right, intersect.top, rect.right, intersect.bottom⟩]

def subtract (rect other : Rect) : List Rect :=
  let intersect := rect.intersect other
  if ¬intersect.IsNonempty then [rect]
  else if rect ≠ intersect then (rect.parts intersect).filter (·.IsNonempty)
  else []

end Rect

namespace Viewport

variable {A B : Viewport}

def Overlap (A B : Viewport) : Prop := ∃ p, A.Contains p ∧ B.Contains p

/-- At most four viewports tile the first without the second. -/
structure Partitions (A B : Viewport) : Prop where
  length_le : (A.subtract B).length ≤ 4
  disjoint : (A.subtract B).Pairwise fun v w => ¬v.Overlap w
  cells : ∀ p, (∃ v ∈ A.subtract B, v.Contains p) ↔ A.Contains p ∧ ¬B.Contains p
  rects : ∀ p, (∃ r ∈ A.toExclusive.subtract B.toExclusive, r.Contains p) ↔ ∃ v ∈ A.subtract B, v.Contains p

theorem contains_toExclusive {p : Point} : A.toExclusive.Contains p ↔ A.Contains p := Iff.rfl

theorem isNonempty_toExclusive : A.toExclusive.IsNonempty ↔ A.isValid := by
  simp only [Rect.IsNonempty, isValid, toExclusive, rightExclusive, bottomExclusive]
  omega

theorem parts_toExclusive (I : Viewport) : A.toExclusive.parts I.toExclusive = (A.parts I).map toExclusive := by
  simp [Rect.parts, parts, toExclusive, rightExclusive, bottomExclusive]

theorem isValid_intersect : (A.intersect B).isValid ↔ 0 ≤ max A.left B.left ∧ 0 ≤ max A.top B.top ∧
    max A.left B.left ≤ min A.rightInclusive B.rightInclusive ∧ max A.top B.top ≤
      min A.bottomInclusive B.bottomInclusive := by
  unfold intersect
  dsimp only
  split_ifs with h
  · exact iff_of_true h h
  · exact iff_of_false (by decide) h

theorem intersect_of_isValid (h : (A.intersect B).isValid) : A.intersect B = ⟨max A.left B.left, max A.top B.top,
    min A.rightInclusive B.rightInclusive, min A.bottomInclusive B.bottomInclusive⟩ := if_pos (isValid_intersect.1 h)

theorem toExclusive_inj : A.toExclusive = B.toExclusive ↔ A = B := by
  obtain ⟨l, t, r, b⟩ := A
  obtain ⟨l', t', r', b'⟩ := B
  simp [toExclusive, rightExclusive, bottomExclusive]

theorem intersect_toExclusive (h : (A.intersect B).isValid) :
    A.toExclusive.intersect B.toExclusive = (A.intersect B).toExclusive := by
  rw [intersect_of_isValid h]
  have hb := isValid_intersect.1 h
  unfold Rect.intersect toExclusive rightExclusive bottomExclusive
  dsimp only
  rw [if_neg (by omega)]
  simp [min_add_add_right]

theorem not_isNonempty_intersect (h : ¬(A.intersect B).isValid) :
    ¬(A.toExclusive.intersect B.toExclusive).IsNonempty := by
  rw [isValid_intersect] at h
  unfold Rect.intersect toExclusive rightExclusive bottomExclusive
  dsimp only
  split_ifs
  · decide
  · unfold Rect.IsNonempty
    dsimp only
    omega

theorem subtract_toExclusive : A.toExclusive.subtract B.toExclusive = (A.subtract B).map toExclusive := by
  unfold Rect.subtract subtract
  by_cases h : (A.intersect B).isValid
  · rw [intersect_toExclusive h, if_neg (not_not.2 (isNonempty_toExclusive.2 h)), parts_toExclusive]
    simp only [ne_eq, toExclusive_inj, filter_map, Function.comp_def, isNonempty_toExclusive]
    split_ifs <;> rfl
  · rw [if_pos (not_isNonempty_intersect h), if_pos h]
    rfl

theorem overlap_iff : A.Overlap B ↔ max A.left B.left ≤ min A.rightInclusive B.rightInclusive ∧
    max A.top B.top ≤ min A.bottomInclusive B.bottomInclusive := by
  unfold Overlap Contains rightExclusive bottomExclusive
  constructor
  · omega
  · intro h
    exact ⟨⟨max A.left B.left, max A.top B.top⟩, by dsimp only; omega⟩

section
variable (h : (A.intersect B).isValid)
include h

theorem contains_intersect {p : Point} : (A.intersect B).Contains p ↔ A.Contains p ∧ B.Contains p := by
  rw [intersect_of_isValid h]
  unfold Contains rightExclusive bottomExclusive
  dsimp only
  omega

theorem exists_parts_iff {p : Point} :
    (∃ v ∈ A.parts (A.intersect B), v.Contains p) ↔ A.Contains p ∧ ¬(A.intersect B).Contains p := by
  have hb := isValid_intersect.1 h
  rw [intersect_of_isValid h]
  simp only [parts, mem_cons, not_mem_nil, or_false, exists_eq_or_imp, exists_eq_left, Contains, rightExclusive,
    bottomExclusive]
  omega

theorem pairwise_parts : (A.parts (A.intersect B)).Pairwise fun v w => ¬v.Overlap w := by
  obtain ⟨_, _, hx, hy⟩ := h
  simp only [parts, overlap_iff, rightExclusive, bottomExclusive, pairwise_cons, mem_cons, not_mem_nil,
    forall_eq_or_imp, or_false, forall_eq, List.Pairwise.nil, and_true, false_imp_iff, implies_true]
  omega

end

theorem subtract_of_isValid (h : (A.intersect B).isValid) :
    A.subtract B = if A = A.intersect B then [] else (A.parts (A.intersect B)).filter (·.isValid) := by
  unfold subtract
  simp only [if_neg (not_not.2 h), ite_not]

theorem subtract_of_not_isValid (h : ¬(A.intersect B).isValid) : A.subtract B = [A] := if_pos h

theorem nonneg_of_mem_subtract (h : (A.intersect B).isValid) {v : Viewport} (hv : v ∈ A.subtract B) {p : Point}
    (hp : v.Contains p) : 0 ≤ p.x ∧ 0 ≤ p.y := by
  rw [subtract_of_isValid h] at hv
  split_ifs at hv
  · simp at hv
  · obtain ⟨hleft, htop, -⟩ := of_decide_eq_true (mem_filter.1 hv).2
    exact ⟨hleft.trans hp.1, htop.trans hp.2.2.1⟩

theorem exists_mem_subtract_iff (h : (A.intersect B).isValid) (hA : 0 ≤ A.left ∧ 0 ≤ A.top) {p : Point} :
    (∃ v ∈ A.subtract B, v.Contains p) ↔ A.Contains p ∧ ¬B.Contains p := by
  have hcells : A.Contains p ∧ ¬B.Contains p ↔ A.Contains p ∧ ¬(A.intersect B).Contains p := by
    rw [contains_intersect h]
    tauto
  rw [hcells, subtract_of_isValid h]
  split_ifs with heq
  · simp [← heq]
  · rw [← exists_parts_iff h]
    simp only [mem_filter, decide_eq_true_eq]
    constructor
    · rintro ⟨v, ⟨hv, -⟩, hp⟩
      exact ⟨v, hv, hp⟩
    · rintro ⟨v, hv, hp⟩
      refine ⟨v, ⟨hv, ?_⟩, hp⟩
      unfold isValid at *
      simp only [parts, mem_cons, not_mem_nil, or_false] at hv
      obtain rfl | rfl | rfl | rfl := hv
      all_goals
        simp only [Contains, rightExclusive, bottomExclusive] at *
        omega

/-- It tiles if they share no cell or the first has no negative start. -/
theorem partitions_iff : A.Partitions B ↔ ¬A.Overlap B ∨ 0 ≤ A.left ∧ 0 ≤ A.top := by
  have hrects : ∀ p, (∃ r ∈ A.toExclusive.subtract B.toExclusive, r.Contains p) ↔ ∃ v ∈ A.subtract B, v.Contains p := by
    intro p
    simp [subtract_toExclusive, contains_toExclusive]
  by_cases h : (A.intersect B).isValid
  · constructor
    · intro hpart
      by_contra hneg
      -- the corner of the viewport is lost: it lies at negative coordinates, outside of the other one
      have hcorner : A.Contains ⟨A.left, A.top⟩ ∧ ¬B.Contains ⟨A.left, A.top⟩ := by
        have hb := isValid_intersect.1 h
        unfold Contains rightExclusive bottomExclusive
        dsimp only
        omega
      obtain ⟨v, hv, hp⟩ := (hpart.cells _).2 hcorner
      exact hneg (Or.inr (nonneg_of_mem_subtract h hv hp))
    · intro hcond
      have hA : 0 ≤ A.left ∧ 0 ≤ A.top := by
        have hb := isValid_intersect.1 h
        rw [overlap_iff] at hcond
        omega
      refine ⟨?_, ?_, fun p => exists_mem_subtract_iff h hA, hrects⟩
      · rw [subtract_of_isValid h]
        split_ifs
        · simp
        · exact (length_filter_le _ _).trans (by simp [parts])
      · rw [subtract_of_isValid h]
        split_ifs
        · simp
        · exact (pairwise_parts h).filter _
  · have hsingle := subtract_of_not_isValid h
    constructor
    · intro hpart
      by_contra hneg
      rw [not_or, not_not] at hneg
      obtain ⟨⟨p, hp, hB⟩, -⟩ := hneg
      have hcells := (hpart.cells p).1 (by simpa [hsingle] using hp)
      exact hcells.2 hB
    · intro hcond
      have hno : ¬A.Overlap B := by
        rw [isValid_intersect] at h
        rw [overlap_iff] at *
        omega
      refine ⟨by simp [hsingle], by simp [hsingle], fun p => ?_, hrects⟩
      simp only [hsingle, mem_singleton, exists_eq_left, iff_self_and]
      exact fun hp hB => hno ⟨p, hp, hB⟩

/-- The cell left of the origin is lost. -/
theorem not_partitions_left_of_origin : ¬(⟨-1, 0, 0, 0⟩ : Viewport).Partitions ⟨0, 0, 0, 0⟩ := by
  intro hpart
  have hcell := (hpart.cells ⟨-1, 0⟩).2 (by decide)
  rw [show (⟨-1, 0, 0, 0⟩ : Viewport).subtract ⟨0, 0, 0, 0⟩ = [] by decide] at hcell
  simp at hcell

end Viewport

end Terminal.Types
