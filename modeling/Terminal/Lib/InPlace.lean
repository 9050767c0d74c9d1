import Mathlib.Logic.Function.Basic
import Mathlib.Data.List.Basic

/-!
# Copying in place

Moves in one memory, one after the other. If none reads a cell that an earlier one has written,
the result is that of a copy from a snapshot.
-/

namespace InPlace

variable {P α σ : Type}

/-! ## Loops -/

/-- A loop that tests behind its body; `none` needs more turns than `fuel`. -/
def doWhile (body : σ → σ × Bool) : Nat → σ → Option σ
  | 0, _ => none
  | fuel + 1, s => if (body s).2 then doWhile body fuel (body s).1 else some (body s).1

/-- A loop ends within `turns` turns if its invariant leads no further. -/
theorem doWhile_rule {body : σ → σ × Bool} {turns : Nat} {I : Nat → σ → Prop} {Q : σ → Prop}
    (hnext : ∀ k < turns, ∀ s, I k s → (body s).2 = true → k + 1 < turns ∧ I (k + 1) (body s).1)
    (hdone : ∀ k < turns, ∀ s, I k s → (body s).2 = false → Q (body s).1) {k : Nat} (hk : k < turns) {s : σ}
    (hs : I k s) {fuel : Nat} (hfuel : turns ≤ k + fuel) : ∃ s', doWhile body fuel s = some s' ∧ Q s' := by
  induction fuel generalizing k s with
  | zero => omega
  | succ fuel ih =>
    rw [doWhile]
    split
    · next hmore =>
      obtain ⟨hk', hs'⟩ := hnext k hk s hs hmore
      exact ih hk' hs' (by omega)
    · next hend => exact ⟨_, rfl, hdone k hk s hs (by simpa using hend)⟩

/-- A loop with a body that may fail. -/
def tryWhile (body : σ → Option (σ × Bool)) : Nat → σ → Option σ
  | 0, _ => none
  | fuel + 1, s => do
    let (s, more) ← body s
    if more then tryWhile body fuel s else some s

theorem tryWhile_rule {body : σ → Option (σ × Bool)} {turns : Nat} {I : Nat → σ → Prop} {Q : σ → Prop}
    (hturn : ∀ k < turns, ∀ s, I k s → ∃ s' more, body s = some (s', more) ∧
      if more = true then k + 1 < turns ∧ I (k + 1) s' else Q s') {k : Nat} (hk : k < turns) {s : σ} (hs : I k s)
    {fuel : Nat} (hfuel : turns ≤ k + fuel) : ∃ s', tryWhile body fuel s = some s' ∧ Q s' := by
  induction fuel generalizing k s with
  | zero => omega
  | succ fuel ih =>
    obtain ⟨s', more, hbody, hnext⟩ := hturn k hk s hs
    rw [tryWhile, hbody]
    cases more with
    | true => exact ih hnext.1 hnext.2 (by omega)
    | false => exact ⟨s', rfl, hnext⟩

theorem doWhile_eq {body : σ → σ × Bool} {turns : Nat} (state : Nat → σ)
    (hbody : ∀ k < turns, body (state k) = (state (k + 1), decide (k + 1 < turns))) {k : Nat} (hk : k < turns)
    {fuel : Nat} (hfuel : turns ≤ k + fuel) : doWhile body fuel (state k) = some (state turns) := by
  have hrule : ∃ s', doWhile body fuel (state k) = some s' ∧ s' = state turns := by
    refine doWhile_rule (I := fun k s => s = state k) ?_ ?_ hk rfl hfuel
    · rintro k hk s rfl hmore
      rw [hbody k hk] at hmore ⊢
      exact ⟨by simpa using hmore, rfl⟩
    · rintro k hk s rfl hend
      rw [hbody k hk] at hend ⊢
      have hlast : turns ≤ k + 1 := by simpa using hend
      rw [show k + 1 = turns by omega]
  obtain ⟨s', hs', rfl⟩ := hrule
  exact hs'

/-! ## Moves -/

variable [DecidableEq P]

def copyEach (moves : List (P × P)) (memory : P → α) : P → α :=
  moves.foldl (fun memory move => Function.update memory move.2 (memory move.1)) memory

/-- No move reads or writes a cell that an earlier one has written. -/
def Safe (moves : List (P × P)) : Prop := moves.Pairwise fun earlier later => earlier.2 ≠ later.1 ∧ earlier.2 ≠ later.2

theorem copyEach_frame (moves : List (P × P)) (memory : P → α) {p : P} (h : ∀ move ∈ moves, move.2 ≠ p) :
    copyEach moves memory p = memory p := by
  induction moves generalizing memory with
  | nil => rfl
  | cons move moves ih =>
    have hp : p ≠ move.2 := (h move (List.mem_cons_self ..)).symm
    exact (ih _ fun later hlater => h later (List.mem_cons_of_mem _ hlater)).trans (Function.update_of_ne hp _ _)

theorem copyEach_moved {moves : List (P × P)} (hsafe : Safe moves) (memory : P → α) {move : P × P}
    (h : move ∈ moves) : copyEach moves memory move.2 = memory move.1 := by
  induction moves generalizing memory with
  | nil => exact absurd h (List.not_mem_nil)
  | cons first moves ih =>
    obtain ⟨hfirst, hsafe⟩ := List.pairwise_cons.mp hsafe
    rcases List.mem_cons.mp h with rfl | h
    · refine (copyEach_frame _ _ fun later hlater => (hfirst later hlater).2.symm).trans ?_
      exact Function.update_self ..
    · refine (ih hsafe _ h).trans ?_
      exact Function.update_of_ne (hfirst move h).1.symm _ _

end InPlace
