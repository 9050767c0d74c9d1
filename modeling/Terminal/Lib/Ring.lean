import Mathlib.Data.Nat.ModEq
import Mathlib.Logic.Function.Basic

/-!
# Values in a ring of slots

The `v`-th value is written into slot `v % cap`. The slots then hold the window from `lo` up to
`hi`, of no more values than slots.
-/

namespace Ring

variable {α : Type} {cap lo hi : Nat} {xs : List α} {slots : Nat → Option α}

theorem eq_of_mod_eq {v w : Nat} (hv : lo ≤ v) (hv' : v < lo + cap) (hw : lo ≤ w) (hw' : w < lo + cap)
    (h : v % cap = w % cap) : v = w := by
  have hmod : v - lo ≡ w - lo [MOD cap] := by
    apply Nat.ModEq.add_right_cancel' lo
    rw [Nat.sub_add_cancel hv, Nat.sub_add_cancel hw]
    exact h
  have := hmod.eq_of_lt_of_lt (by omega) (by omega)
  omega

/-- The slots hold the values from `lo` up to `hi` and nothing else. -/
structure Window (cap lo hi : Nat) (xs : List α) (slots : Nat → Option α) : Prop where
  le : lo ≤ hi
  fits : hi ≤ lo + cap
  length : xs.length = hi
  live : ∀ v, lo ≤ v → v < hi → slots (v % cap) = xs[v]?
  free : ∀ i, (∀ v, lo ≤ v → v < hi → v % cap ≠ i) → slots i = none

theorem window_empty (cap : Nat) : Window cap 0 0 ([] : List α) (fun _ => none) :=
  ⟨Nat.le_refl 0, Nat.zero_le _, rfl, fun v _ hv => by omega, fun _ _ => rfl⟩

namespace Window

theorem next_free (h : Window cap lo hi xs slots) (hroom : hi < lo + cap) : slots (hi % cap) = none := by
  apply h.free
  intro v hv hv' heq
  have := eq_of_mod_eq hv (by omega) h.le hroom heq
  omega

theorem write (h : Window cap lo hi xs slots) (hroom : hi < lo + cap) (x : α) :
    Window cap lo (hi + 1) (xs ++ [x]) (Function.update slots (hi % cap) (some x)) := by
  have hlength := h.length
  have hle := h.le
  refine ⟨by omega, by omega, by simp [hlength], ?_, ?_⟩
  · intro v hv hv'
    rcases Nat.lt_or_eq_of_le (Nat.le_of_lt_succ hv') with hlt | rfl
    · have hne : v % cap ≠ hi % cap := fun heq => by
        have := eq_of_mod_eq hv (by omega) hle hroom heq
        omega
      rw [Function.update_of_ne hne, h.live v hv hlt, List.getElem?_append_left (by omega)]
    · rw [Function.update_self, ← hlength, List.getElem?_concat_length]
  · intro i hi'
    rw [Function.update_of_ne (fun heq => hi' hi hle (Nat.lt_succ_self hi) heq.symm)]
    exact h.free i fun v hv hv' => hi' v hv (by omega)

theorem clear (h : Window cap lo hi xs slots) (hlt : lo < hi) :
    Window cap (lo + 1) hi xs (Function.update slots (lo % cap) none) := by
  have hfits := h.fits
  refine ⟨hlt, by omega, h.length, ?_, ?_⟩
  · intro v hv hv'
    have hne : v % cap ≠ lo % cap := fun heq => by
      have := eq_of_mod_eq (Nat.le_of_succ_le hv) (by omega) (Nat.le_refl lo) (by omega) heq
      omega
    rw [Function.update_of_ne hne, h.live v (by omega) hv']
  · intro i hi'
    by_cases heq : i = lo % cap
    · rw [heq, Function.update_self]
    · rw [Function.update_of_ne heq]
      apply h.free
      intro v hv hv'
      rcases Nat.lt_or_eq_of_le hv with hlt | rfl
      · exact hi' v hlt hv'
      · exact fun h => heq h.symm

theorem isSome_iff (h : Window cap lo hi xs slots) (i : Nat) :
    (slots i).isSome ↔ ∃ v, lo ≤ v ∧ v < hi ∧ v % cap = i := by
  constructor
  · intro hsome
    by_contra hnone
    push Not at hnone
    rw [h.free i hnone] at hsome
    exact absurd hsome (by simp)
  · rintro ⟨v, hv, hv', rfl⟩
    rw [h.live v hv hv']
    simpa [h.length] using hv'

end Window

/-! ## Positions and revolutions -/

theorem div_mod_cases (hcap : 0 < cap) (hle : lo ≤ hi) (hfits : hi ≤ lo + cap) :
    hi / cap = lo / cap ∧ lo % cap ≤ hi % cap ∨ hi / cap = lo / cap + 1 ∧ hi % cap ≤ lo % cap := by
  have hlo := Nat.div_add_mod lo cap
  have hhi := Nat.div_add_mod hi cap
  have h1 : lo / cap ≤ hi / cap := Nat.div_le_div_right hle
  have h2 : hi / cap ≤ lo / cap + 1 := by
    rw [← Nat.add_div_right lo hcap]
    exact Nat.div_le_div_right hfits
  rcases Nat.lt_or_eq_of_le h1 with hlt | heq
  · have hnext : hi / cap = lo / cap + 1 := by omega
    rw [hnext, Nat.mul_add] at hhi
    omega
  · rw [← heq] at hhi
    omega

theorem eq_iff_mod_eq (hcap : 0 < cap) (hle : lo ≤ hi) (hfits : hi ≤ lo + cap) :
    hi = lo ↔ hi % cap = lo % cap ∧ hi / cap % 2 = lo / cap % 2 := by
  have hlo := Nat.div_add_mod lo cap
  have hhi := Nat.div_add_mod hi cap
  constructor
  · rintro rfl
    exact ⟨rfl, rfl⟩
  · rcases div_mod_cases hcap hle hfits with ⟨hq, -⟩ | ⟨hq, -⟩
    · rw [hq] at hhi
      omega
    · omega

theorem eq_add_iff_mod_eq (hcap : 0 < cap) (hle : lo ≤ hi) (hfits : hi ≤ lo + cap) :
    hi = lo + cap ↔ hi % cap = lo % cap ∧ hi / cap % 2 ≠ lo / cap % 2 := by
  have hlo := Nat.div_add_mod lo cap
  have hhi := Nat.div_add_mod hi cap
  constructor
  · rintro rfl
    rw [Nat.add_mod_right, Nat.add_div_right lo hcap]
    omega
  · rcases div_mod_cases hcap hle hfits with ⟨hq, -⟩ | ⟨hq, -⟩
    · omega
    · rw [hq, Nat.mul_succ] at hhi
      omega

theorem stop_le (hcap : 0 < cap) (hlt : lo < hi) (hfits : hi ≤ lo + cap) :
    lo % cap < (if lo % cap < hi % cap then hi % cap else cap) ∧
      lo + (if lo % cap < hi % cap then hi % cap else cap) ≤ hi + lo % cap := by
  have hlo := Nat.div_add_mod lo cap
  have hhi := Nat.div_add_mod hi cap
  have hmod := Nat.mod_lt lo hcap
  rcases div_mod_cases hcap (Nat.le_of_lt hlt) hfits with ⟨hq, hr⟩ | ⟨hq, hr⟩
  · rw [hq] at hhi
    rw [if_pos (by omega)]
    omega
  · rw [hq, Nat.mul_succ] at hhi
    rw [if_neg (by omega)]
    omega

theorem add_of_lt {k : Nat} (h : lo % cap + k < cap) : (lo + k) % cap = lo % cap + k ∧ (lo + k) / cap = lo / cap := by
  have hlo := Nat.div_add_mod lo cap
  have hadd : lo + k = lo % cap + k + cap * (lo / cap) := by omega
  constructor
  · rw [hadd, Nat.add_mul_mod_self_left, Nat.mod_eq_of_lt h]
  · rw [hadd, Nat.add_mul_div_left _ _ (by omega), Nat.div_eq_of_lt h, Nat.zero_add]

theorem add_of_eq {k : Nat} (hcap : 0 < cap) (h : lo % cap + k = cap) :
    (lo + k) % cap = 0 ∧ (lo + k) / cap = lo / cap + 1 := by
  have hlo := Nat.div_add_mod lo cap
  have hadd : lo + k = cap * (lo / cap + 1) := by
    rw [Nat.mul_succ]
    omega
  constructor
  · rw [hadd, Nat.mul_mod_right]
  · rw [hadd, Nat.mul_div_cancel_left _ hcap]

theorem exists_mod_eq_iff (hcap : 0 < cap) (hle : lo ≤ hi) (hfits : hi ≤ lo + cap) (i : Nat) :
    (∃ v, lo ≤ v ∧ v < hi ∧ v % cap = i) ↔
      if hi / cap = lo / cap then lo % cap ≤ i ∧ i < hi % cap
      else i < hi % cap ∨ lo % cap ≤ i ∧ i < cap := by
  have hlo := Nat.div_add_mod lo cap
  have hhi := Nat.div_add_mod hi cap
  have hmod := Nat.mod_lt lo hcap
  have hnext : cap * (lo / cap + 1) = cap * (lo / cap) + cap := Nat.mul_succ _ _
  constructor
  · rintro ⟨v, hv, hv', rfl⟩
    have hdiv := Nat.div_add_mod v cap
    have hvmod := Nat.mod_lt v hcap
    rcases div_mod_cases hcap hv (by omega) with ⟨hq, hr⟩ | ⟨hq, hr⟩ <;>
      rcases div_mod_cases hcap hle hfits with ⟨hq', hr'⟩ | ⟨hq', hr'⟩ <;>
      rw [hq] at hdiv <;> rw [hq'] at hhi
    · rw [if_pos hq']
      omega
    · rw [if_neg (by omega)]
      omega
    · have := Nat.mod_lt hi hcap
      omega
    · rw [if_neg (by omega)]
      omega
  · intro h
    rcases div_mod_cases hcap hle hfits with ⟨hq, hr⟩ | ⟨hq, hr⟩ <;> rw [hq] at hhi
    · rw [if_pos hq] at h
      have := Nat.mod_lt hi hcap
      refine ⟨cap * (lo / cap) + i, by omega, by omega, ?_⟩
      rw [Nat.mul_add_mod, Nat.mod_eq_of_lt (by omega)]
    · rw [if_neg (by omega)] at h
      rcases h with h | ⟨h, h'⟩
      · refine ⟨cap * (lo / cap + 1) + i, by omega, by omega, ?_⟩
        rw [Nat.mul_add_mod, Nat.mod_eq_of_lt (by omega)]
      · refine ⟨cap * (lo / cap) + i, by omega, by omega, ?_⟩
        rw [Nat.mul_add_mod, Nat.mod_eq_of_lt h']

end Ring
