import Mathlib.Algebra.Order.Group.Unbundled.Int
import Mathlib.Data.List.Nodup
import Mathlib.Data.List.Range
import Mathlib.Tactic.Ring

/-!
# Laps

The points that a step visits on the way to an anchor.
-/

namespace Terminal.Lib

variable {P : Type} {next : P → P} {anchor : P}

/-- The points from `c` on, up to the one whose next is the anchor. -/
inductive Lap (next : P → P) (anchor : P) : P → List P → Prop
  | last {c : P} : next c = anchor → Lap next anchor c [c]
  | step {c : P} {l : List P} : next c ≠ anchor → Lap next anchor (next c) l → Lap next anchor c (c :: l)

theorem lap_iterate {k n : Nat} (hback : next^[k + n + 1] anchor = anchor)
    (hfirst : ∀ j, k < j → j ≤ k + n → next^[j] anchor ≠ anchor) :
    Lap next anchor (next^[k] anchor) ((List.range' k (n + 1)).map fun j => next^[j] anchor) := by
  have hnext : next (next^[k] anchor) = next^[k + 1] anchor := (Function.iterate_succ_apply' next k anchor).symm
  induction n generalizing k with
  | zero => exact .last (hnext.trans hback)
  | succ n ih =>
    refine .step (hnext ▸ hfirst _ (by omega) (by omega)) ?_
    rw [hnext]
    refine ih (by rw [← hback]; congr 2; omega) (fun j hlo hhi => hfirst j (by omega) (by omega)) ?_
    exact (Function.iterate_succ_apply' next _ anchor).symm

theorem Lap.exists_next {c : P} {l l₀ : List P} (h : Lap next anchor c l) (h₀ : Lap next anchor anchor l₀) :
    ∃ l, Lap next anchor (next c) l := by
  obtain h | ⟨-, h⟩ := h
  · exact ⟨l₀, h ▸ h₀⟩
  · exact ⟨_, h⟩

section
variable {S : P → Prop} {idx : P → Int} {N d : Int} (hnext : ∀ p, S p → S (next p) ∧ idx (next p) = (idx p + d) % N)
  (hrange : ∀ p, S p → 0 ≤ idx p ∧ idx p < N) (ha : S anchor)
include hnext hrange ha

theorem idx_iterate (k : Nat) : S (next^[k] anchor) ∧ idx (next^[k] anchor) = (idx anchor + k * d) % N := by
  induction k with
  | zero => simpa using ⟨ha, (Int.emod_eq_of_lt (hrange _ ha).1 (hrange _ ha).2).symm⟩
  | succ k ih =>
    rw [Function.iterate_succ_apply']
    refine ⟨(hnext _ ih.1).1, ?_⟩
    rw [(hnext _ ih.1).2, ih.2, Int.emod_add_emod]
    push_cast
    ring_nf

/-- A step around a circle, forth or back, visits each point once. -/
theorem exists_lap (hd : d = 1 ∨ d = -1) (hinj : ∀ p q, S p → S q → idx p = idx q → p = q) :
    ∃ l, Lap next anchor anchor l ∧ l.Nodup ∧ ∀ p, p ∈ l ↔ S p := by
  have hvisit := idx_iterate hnext hrange ha
  have hanchor := hrange _ ha
  obtain ⟨n, hn⟩ : ∃ n : Nat, N = n + 1 := ⟨(N - 1).toNat, by omega⟩
  have hone {i j : Nat} (hi : i ≤ n) (hj : j ≤ n) (heq : next^[i] anchor = next^[j] anchor) : i = j := by
    have hmod : (idx anchor + i * d) % N = (idx anchor + j * d) % N := by rw [← (hvisit i).2, ← (hvisit j).2, heq]
    have hdvd := Int.dvd_of_emod_eq_zero (Int.emod_eq_emod_iff_emod_sub_eq_zero.1 hmod)
    have hzero := Int.eq_zero_of_abs_lt_dvd hdvd (abs_lt.2 (by obtain rfl | rfl := hd <;> constructor <;> omega))
    obtain rfl | rfl := hd <;> omega
  refine ⟨_, lap_iterate (k := 0) (n := n) ?_ fun j hlo hhi heq => ?_, ?_, fun p => ?_⟩
  · refine hinj _ _ (hvisit _).1 ha ?_
    rw [(hvisit _).2, show ((0 + n + 1 : Nat) : Int) = N by push_cast; omega, Int.add_mul_emod_self_left,
      Int.emod_eq_of_lt hanchor.1 hanchor.2]
  · exact absurd (hone (i := j) (j := 0) (by omega) (by omega) heq) (by omega)
  · refine List.Nodup.map_on (fun i hi j hj heq => hone ?_ ?_ heq) List.nodup_range'
    · rw [List.mem_range'_1] at hi
      omega
    · rw [List.mem_range'_1] at hj
      omega
  · simp only [List.mem_map, List.mem_range'_1]
    constructor
    · rintro ⟨k, -, rfl⟩
      exact (hvisit k).1
    · intro hp
      have hp' := hrange p hp
      have hlt := Int.emod_lt_of_pos ((idx p - idx anchor) * d) (show 0 < N by omega)
      have hnonneg := Int.emod_nonneg ((idx p - idx anchor) * d) (show N ≠ 0 by omega)
      refine ⟨((idx p - idx anchor) * d % N).toNat, by omega, hinj _ _ (hvisit _).1 hp ?_⟩
      rw [(hvisit _).2, Int.toNat_of_nonneg hnonneg]
      have hsquare : (idx p - idx anchor) * d * d = idx p - idx anchor := by obtain rfl | rfl := hd <;> ring
      rw [Int.add_emod, Int.mul_emod, Int.emod_emod, ← Int.mul_emod, ← Int.add_emod, hsquare, add_sub_cancel,
        Int.emod_eq_of_lt hp'.1 hp'.2]
end

end Terminal.Lib
