import Mathlib.Order.Lattice
import Mathlib.Order.Iterate
import Mathlib.Order.Monotone.Basic
import Mathlib.Data.Nat.Find

/-!
# Growing to a bound

A step is repeated until the state reaches a bound. The states around the bound only move forward
when it grows.
-/

namespace Bracket

variable {σ K : Type} [LinearOrder K] (step : σ → σ) (size : σ → K) (bound : K)

/-- The last state below the bound and the first that is not. -/
def growTo : Nat → σ → σ → Option (σ × σ)
  | 0, last, s => if size s < bound then none else some (last, s)
  | fuel + 1, last, s =>
    if size s < bound then
      if size (step s) = bound then some (step s, step s) else growTo fuel s (step s)
    else some (last, s)

def lowerIndex (s : σ) (k : Nat) : Nat := if size (step^[k] s) = bound then k else k - 1

variable {step size bound}

theorem growTo_of_le {s : σ} (h : bound ≤ size s) (fuel : Nat) (last : σ) :
    growTo step size bound fuel last s = some (last, s) := by
  cases fuel <;> rw [growTo, if_neg (not_lt.2 h)]

theorem growTo_succ {k fuel : Nat} (hfuel : k < fuel) {last s : σ} (hbelow : ∀ i ≤ k, size (step^[i] s) < bound)
    (hreach : bound ≤ size (step^[k + 1] s)) :
    growTo step size bound fuel last s = some (step^[lowerIndex step size bound s (k + 1)] s, step^[k + 1] s) := by
  induction k generalizing fuel last s with
  | zero =>
    obtain ⟨fuel, rfl⟩ := Nat.exists_eq_add_of_lt hfuel
    have hs : size s < bound := hbelow 0 le_rfl
    rw [growTo, lowerIndex]
    split_ifs with heq heq'
    · rfl
    · exact absurd heq heq'
    · exact absurd ‹_› heq
    · exact growTo_of_le hreach _ _
  | succ k ih =>
    obtain ⟨fuel, rfl⟩ := Nat.exists_eq_add_of_lt hfuel
    have hs : size s < bound := hbelow 0 (Nat.zero_le _)
    have hnext : size (step s) ≠ bound := ne_of_lt (hbelow 1 (Nat.le_add_left 1 k))
    have hrun := @ih (k + 1 + fuel) (Nat.lt_add_right _ (Nat.lt_succ_self k)) s (step s)
      (fun i hi => hbelow (i + 1) (Nat.succ_le_succ hi)) hreach
    have hindex : lowerIndex step size bound s (k + 1 + 1) = lowerIndex step size bound (step s) (k + 1) + 1 := by
      rw [lowerIndex, lowerIndex, Function.iterate_succ_apply]
      by_cases h : size (step^[k + 1] (step s)) = bound
      · rw [if_pos h, if_pos h]
      · rw [if_neg h, if_neg h]
        rfl
    rw [growTo, if_pos hs, if_neg hnext, hrun, hindex]
    rfl

theorem growTo_eq {k fuel : Nat} (hfuel : k ≤ fuel) {s : σ} (hbelow : ∀ i < k, size (step^[i] s) < bound)
    (hreach : bound ≤ size (step^[k] s)) :
    growTo step size bound fuel s s = some (step^[lowerIndex step size bound s k] s, step^[k] s) := by
  cases k with
  | zero =>
    have hs : bound ≤ size s := hreach
    rw [growTo_of_le hs, lowerIndex, ite_self]
    rfl
  | succ k => exact growTo_succ hfuel (fun i hi => hbelow i (Nat.lt_succ_of_le hi)) hreach

theorem growTo_around {s : σ} (hstart : size s ≤ bound) (hreach : ∃ k, bound ≤ size (step^[k] s)) :
    ∃ i k, size (step^[i] s) ≤ bound ∧ bound ≤ size (step^[k] s) ∧ ∀ fuel ≥ k,
      growTo step size bound fuel s s = some (step^[i] s, step^[k] s) := by
  have hbelow : ∀ i < Nat.find hreach, size (step^[i] s) < bound := fun i hi => not_le.1 (Nat.find_min hreach hi)
  refine ⟨lowerIndex step size bound s (Nat.find hreach), Nat.find hreach, ?_, Nat.find_spec hreach,
    fun fuel hfuel => growTo_eq hfuel hbelow (Nat.find_spec hreach)⟩
  rw [lowerIndex]
  split_ifs with hmeets
  · exact hmeets.le
  · rcases Nat.eq_zero_or_pos (Nat.find hreach) with hzero | hpos
    · rw [hzero]
      exact hstart
    · exact (hbelow _ (Nat.sub_one_lt_of_lt hpos)).le

theorem growTo_mono {s : σ} {small large : K} (hle : small ≤ large) (hreach : ∃ k, large ≤ size (step^[k] s)) :
    ∃ i₁ k₁ i₂ k₂, i₁ ≤ i₂ ∧ k₁ ≤ k₂ ∧ ∀ fuel ≥ k₂, growTo step size small fuel s s = some (step^[i₁] s, step^[k₁] s) ∧
      growTo step size large fuel s s = some (step^[i₂] s, step^[k₂] s) := by
  have hsmall : ∃ k, small ≤ size (step^[k] s) := hreach.imp fun _ => hle.trans
  have hk : Nat.find hsmall ≤ Nat.find hreach := Nat.find_mono fun _ => hle.trans
  have hbelow₁ : ∀ i < Nat.find hsmall, size (step^[i] s) < small := fun i hi => not_le.1 (Nat.find_min hsmall hi)
  have hbelow₂ : ∀ i < Nat.find hreach, size (step^[i] s) < large := fun i hi => not_le.1 (Nat.find_min hreach hi)
  refine ⟨lowerIndex step size small s (Nat.find hsmall), Nat.find hsmall,
    lowerIndex step size large s (Nat.find hreach), Nat.find hreach, ?_, hk, fun fuel hfuel =>
      ⟨growTo_eq (hk.trans hfuel) hbelow₁ (Nat.find_spec hsmall), growTo_eq hfuel hbelow₂ (Nat.find_spec hreach)⟩⟩
  rw [lowerIndex, lowerIndex]
  split_ifs with hmeets₁ hmeets₂ hmeets₂
  · exact hk
  · rcases hk.lt_or_eq with hlt | heq
    · exact Nat.le_sub_one_of_lt hlt
    · have hspec := Nat.find_spec hreach
      rw [← heq, hmeets₁] at hspec hmeets₂
      exact absurd (hle.antisymm hspec) hmeets₂
  · exact (Nat.sub_le _ _).trans hk
  · exact Nat.sub_le_sub_right hk 1

end Bracket
