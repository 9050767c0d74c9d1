import Mathlib.Logic.Function.Iterate
import Mathlib.Tactic.Common

/-!
# Runs of a partial step function

An operation without a result ends the run.
-/

namespace Steps

variable {σ α : Type*} (step : σ → α → Option σ)

def run (s : σ) (ops : List α) : Option σ := ops.foldlM step s

/-- `P` holds of every operation of the run and the state before it. -/
def Along (P : σ → α → Prop) : σ → List α → Prop
  | _, [] => True
  | s, op :: ops => P s op ∧ ∀ s', step s op = some s' → Along P s' ops

variable {step}

instance Along.decidable {P : σ → α → Prop} [∀ s op, Decidable (P s op)] : ∀ s ops, Decidable (Along step P s ops)
  | _, [] => .isTrue trivial
  | s, op :: ops =>
    match h : step s op with
    | none => decidable_of_iff (P s op) ⟨fun hP => ⟨hP, by simp [h]⟩, And.left⟩
    | some s' =>
      have := Along.decidable (P := P) s' ops
      decidable_of_iff (P s op ∧ Along step P s' ops)
        ⟨fun hP => ⟨hP.1, by simpa [h] using hP.2⟩, fun hP => ⟨hP.1, hP.2 s' h⟩⟩

@[simp] theorem run_nil (s : σ) : run step s [] = some s := rfl

theorem run_cons (s : σ) (op : α) (ops : List α) :
    run step s (op :: ops) = (step s op).bind fun s' => run step s' ops :=
  rfl

variable {P : σ → α → Prop} {I : σ → Prop} {s s' : σ} {ops : List α}

theorem run_keeps (hstep : ∀ s op s', I s → P s op → step s op = some s' → I s') (hs : I s) (hops : Along step P s ops)
    (hrun : run step s ops = some s') : I s' := by
  induction ops generalizing s with
  | nil =>
    obtain rfl : s = s' := by simpa using hrun
    exact hs
  | cons op ops ih =>
    rw [run_cons, Option.bind_eq_some_iff] at hrun
    obtain ⟨s₁, hfirst, hrest⟩ := hrun
    exact ih (hstep s op s₁ hs hops.1 hfirst) (hops.2 s₁ hfirst) hrest

theorem run_measure {μ : σ → Nat} (hstep : ∀ s op s', I s → P s op → step s op = some s' → I s' ∧
    μ s' ≤ μ s - 1) (hs : I s)
    (hops : Along step P s ops) (hrun : run step s ops = some s') : μ s' ≤ μ s - ops.length := by
  induction ops generalizing s with
  | nil =>
    obtain rfl : s = s' := by simpa using hrun
    exact Nat.le_refl _
  | cons op ops ih =>
    rw [run_cons, Option.bind_eq_some_iff] at hrun
    obtain ⟨s₁, hfirst, hrest⟩ := hrun
    obtain ⟨hs₁, hless⟩ := hstep s op s₁ hs hops.1 hfirst
    have := ih hs₁ (hops.2 s₁ hfirst) hrest
    rw [List.length_cons]
    omega

theorem isSome_run_iff : (run step s ops).isSome ↔ Along step (fun s op => (step s op).isSome) s ops := by
  induction ops generalizing s with
  | nil => simp [Along]
  | cons op ops ih =>
    rw [run_cons, Along]
    cases h : step s op with
    | none => simp
    | some s₁ => simp [ih]

theorem Along.mono {Q : σ → α → Prop} (h : Along step P s ops) (hPQ : ∀ s, ∀ op ∈ ops, P s op → Q s op) :
    Along step Q s ops := by
  induction ops generalizing s with
  | nil => trivial
  | cons op ops ih =>
    refine ⟨hPQ s op List.mem_cons_self h.1, fun s' hs' => ih (h.2 s' hs') fun s op hop => ?_⟩
    exact hPQ s op (List.mem_cons_of_mem _ hop)

theorem along_of_forall (h : ∀ op ∈ ops, ∀ s, P s op) : Along step P s ops := by
  induction ops generalizing s with
  | nil => trivial
  | cons op ops ih =>
    exact ⟨h op List.mem_cons_self s, fun s' _ => ih fun op hop => h op (List.mem_cons_of_mem _ hop)⟩

theorem along_congr {Q : σ → α → Prop} (hPQ : ∀ s, ∀ op ∈ ops, P s op ↔ Q s op) :
    Along step P s ops ↔ Along step Q s ops :=
  ⟨fun h => h.mono fun s op hop => (hPQ s op hop).1, fun h => h.mono fun s op hop => (hPQ s op hop).2⟩

theorem along_congr_of_keeps {Q : σ → α → Prop} (hkeep : ∀ s op s', I s → Q s op → step s op = some s' → I s')
    (hPQ : ∀ s op, I s → (P s op ↔ Q s op)) (hs : I s) : Along step P s ops ↔ Along step Q s ops := by
  induction ops generalizing s with
  | nil => rfl
  | cons op ops ih =>
    rw [Along, hPQ s op hs]
    exact and_congr_right fun hQ => forall₂_congr fun s' hs' => ih (hkeep s op s' hs hQ hs')

theorem forall_prefix_iff : (∀ ops', ops' <+: ops → ∃ s', run step s ops' = some s' ∧ I s') ↔
    I s ∧ Along step (fun s op => ∃ s', step s op = some s' ∧ I s') s ops := by
  induction ops generalizing s with
  | nil => simp [Along]
  | cons op ops ih =>
    simp only [List.prefix_cons_iff]
    constructor
    · intro h
      obtain ⟨s₀, hnil, hs₀⟩ := h [] (.inl rfl)
      obtain rfl : s = s₀ := by simpa using hnil
      obtain ⟨s₁, hone, hs₁⟩ := h [op] (.inr ⟨[], rfl, List.nil_prefix⟩)
      have hstep : step s op = some s₁ := by simpa [run_cons] using hone
      refine ⟨hs₀, ⟨s₁, hstep, hs₁⟩, fun s' hs' => (ih.1 fun ops' hops' => ?_).2⟩
      obtain ⟨s₂, hrun, hs₂⟩ := h (op :: ops') (.inr ⟨ops', rfl, hops'⟩)
      rw [run_cons, hs'] at hrun
      exact ⟨s₂, hrun, hs₂⟩
    · rintro ⟨hs, ⟨s₁, hstep, hs₁⟩, hrest⟩ ops' (rfl | ⟨ops', rfl, hops'⟩)
      · exact ⟨s, rfl, hs⟩
      · rw [run_cons, hstep]
        exact ih.2 ⟨hs₁, hrest s₁ hstep⟩ ops' hops'

@[simp] theorem isSome_bind_some {β γ : Type*} (o : Option β) (f : β → γ) :
    (o.bind fun b => some (f b)).isSome = o.isSome := by
  cases o <;> rfl

theorem reaches_zero {f : σ → σ} {μ : σ → Nat} (hless : ∀ s, I s → μ s ≠ 0 → ∃ n, I (f^[n] s) ∧
    μ (f^[n] s) < μ s) (hs : I s) :
    ∃ n, I (f^[n] s) ∧ μ (f^[n] s) = 0 := by
  induction hm : μ s using Nat.strongRecOn generalizing s with
  | _ m ih =>
    by_cases hzero : μ s = 0
    · exact ⟨0, hs, hzero⟩
    · obtain ⟨n, hn, hlt⟩ := hless s hs hzero
      obtain ⟨n', hn'⟩ := ih (μ (f^[n] s)) (hm ▸ hlt) hn rfl
      exact ⟨n' + n, by rwa [Function.iterate_add_apply]⟩

end Steps
