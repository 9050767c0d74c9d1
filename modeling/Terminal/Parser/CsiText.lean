import Terminal.Parser.Csi

/-!
# Control sequences as they are printed

Numbers are printed in decimal with semicolons. The parser reads them back and dispatches once, in
one string.
-/

namespace Terminal.Parser

open StateMachine List

/-! ## Numbers -/

def formatNat (n : Nat) : List Wchar := (Nat.toDigits 10 n).map fun c => BitVec.ofNat 16 c.toNat

def formatParams (ns : List Nat) : List Wchar := [(0x3B : Wchar)].intercalate (ns.map formatNat)

/-- `ESC [`, a private marker, parameters, intermediates, a final. -/
def csiText (marker : List Wchar) (ns : List Nat) (inter : List Wchar) (final : Wchar) : List Wchar :=
  [ESC, 0x5B] ++ (marker ++ (formatParams ns ++ inter) ++ [final])

theorem toNat_digitChar {n : Nat} (h : n < 10) : (BitVec.ofNat 16 n.digitChar.toNat).toNat = 0x30 + n := by
  rw [Nat.toNat_digitChar_of_lt_ten h, BitVec.toNat_ofNat]
  omega

theorem formatNat_ne_nil (n : Nat) : formatNat n ≠ [] := by
  unfold formatNat
  rw [Nat.toDigits_eq_if (by decide)]
  split <;> simp

theorem numeric_of_mem_formatNat (n : Nat) : ∀ d ∈ formatNat n, isNumericParamValue d = true := by
  induction n using Nat.strongRecOn with
  | ind n ih =>
    intro d hd
    unfold formatNat at hd
    rw [Nat.toDigits_eq_if (by decide)] at hd
    split at hd
    · next h =>
      have := toNat_digitChar h
      simp only [map_cons, map_nil, mem_singleton] at hd
      simp [isNumericParamValue, hd, this]
      omega
    · rw [map_append, mem_append] at hd
      rcases hd with hd | hd
      · exact ih (n / 10) (by omega) d hd
      · have := toNat_digitChar (Nat.mod_lt n (show 0 < 10 by decide))
        simp only [map_cons, map_nil, mem_singleton] at hd
        simp [isNumericParamValue, hd, this]
        omega

theorem decimal_formatNat (n : Nat) : decimal (formatNat n) = n := by
  induction n using Nat.strongRecOn with
  | ind n ih =>
    unfold formatNat decimal
    rw [Nat.toDigits_eq_if (by decide)]
    split
    · next h =>
      simp only [map_cons, map_nil, foldl_cons, foldl_nil, toNat_digitChar h]
      omega
    · have hrec := ih (n / 10) (by omega)
      unfold formatNat decimal at hrec
      rw [map_append, foldl_append]
      simp only [map_cons, map_nil, foldl_cons, foldl_nil, toNat_digitChar (Nat.mod_lt n (show 0 < 10 by decide))]
      omega

theorem formatParams_cons_cons (n n' : Nat) (ns : List Nat) :
    formatParams (n :: n' :: ns) = formatNat n ++ 0x3B :: formatParams (n' :: ns) := by
  simp [formatParams]

theorem formatParams_singleton (n : Nat) : formatParams [n] = formatNat n := by
  simp [formatParams]

theorem isParam_of_mem_formatParams (ns : List Nat) : ∀ c ∈ formatParams ns, isParam c = true := by
  have hfield (n : Nat) : ∀ c ∈ formatNat n, isParam c = true := by
    intro c hc
    simp [isParam, numeric_of_mem_formatNat n c hc]
  induction ns with
  | nil => simp [formatParams]
  | cons n ns ih =>
    cases ns with
    | nil =>
      rw [formatParams_singleton]
      exact hfield n
    | cons n' ns =>
      intro c hc
      rcases mem_append.mp hc with h | h
      · exact hfield n c h
      · rcases mem_cons.mp h with rfl | h
        · decide
        · exact ih c h

theorem parameterOf_formatNat (n : Nat) : parameterOf (formatNat n) = { value := (min n 65535 : Nat) } := by
  unfold parameterOf
  rw [decimal_formatNat, if_neg fun h => formatNat_ne_nil n (isEmpty_iff.1 h)]

theorem parametersOf_formatParams {ns : List Nat} (h : ns ≠ []) :
    parametersOf (formatParams ns) = (ns.take 32).map fun n => { value := (min n 65535 : Nat) } := by
  have hsplit : (formatParams ns).splitOn 0x3B = ns.map formatNat := by
    apply splitOn_intercalate
    · intro field hfield
      obtain ⟨n, -, rfl⟩ := mem_map.mp hfield
      intro hmem
      have := numeric_of_mem_formatNat n _ hmem
      exact absurd this (by decide)
    · simpa using h
  have hne : formatParams ns ≠ [] := by
    intro hnil
    rw [hnil] at hsplit
    obtain ⟨n, ns, rfl⟩ := exists_cons_of_ne_nil h
    simp only [splitOn_nil, map_cons, cons.injEq] at hsplit
    exact formatNat_ne_nil n hsplit.1.symm
  rw [parametersOf, if_neg (by simpa using hne), hsplit, ← map_take, map_map]
  exact map_congr_left fun n _ => parameterOf_formatNat n

/-! ## One sequence in one string -/

structure Inert (E : Engine) (c : Call) : Prop where
  modes : ∀ calls, (E.dispatch (calls ++ [c])).modes = []
  macroText : ∀ calls, (E.dispatch (calls ++ [c])).macroText = none
  flushes : ∀ calls, E.flushes c (E.dispatch (calls ++ [c])) = false

structure StateMachine.AtRest (m : StateMachine) : Prop where
  state : m.state = .ground
  ansi : m.parserMode.ansi = true
  callback : m.onCsiCompleteCallback = none

section

variable {E : Engine} {m : StateMachine}

theorem notify_inert {c : Call} (h : Inert E c) (m : StateMachine) :
    notify E c m = { m with calls := m.calls ++ [c] } := by
  simp [notify, call, h.flushes, h.modes, h.macroText]

theorem not_ground_of_inCsi (h : inCsi m) : m.state ≠ .ground := by
  rcases h with h | h | h | h <;> simp [h]

theorem processLoop_scan (body rest : List Wchar) (start current : Nat)
    (hrange : ∀ c ∈ body, 0x20 ≤ c.toNat ∧ c.toNat < 0x40) (hm : inCsi m) (hflag : m.processingIndividually = true) :
    ∃ k, processLoop E (body ++ rest) start current m = processLoop E rest start (current + body.length) k ∧
      k.core = (body.foldl scan m).core ∧ k.calls = m.calls ∧ k.processingIndividually = true ∧
      k.currentString = m.currentString := by
  induction body generalizing m current with
  | nil => exact ⟨m, rfl, rfl, rfl, hflag, rfl⟩
  | cons c body ih =>
    rw [forall_mem_cons] at hrange
    -- the machine that `ProcessCharacter` sees
    let n := { m with
      runOffset := start, runSize := some (current - start + 1), processingLastCharacter := (body ++ rest).isEmpty }
    have hn : inCsi n := hm
    have hchar : processCharacter E c n = scan n c := processCharacter_scan hn hrange.1
    have hscan : inCsi (scan n c) := scan_inCsi hn
    have hsame := scan_scanned n c
    have hturn : turn E c (body ++ rest).isEmpty start current m = (start, scan n c) := by
      rw [turn_individually hflag]
      unfold processIndividually
      rw [show processCharacter E c { m with
        runOffset := start, runSize := some (current - start + 1),
        processingLastCharacter := (body ++ rest).isEmpty } = scan n c from hchar, if_neg (not_ground_of_inCsi hscan)]
    obtain ⟨k, hloop, hcore, hcalls, hindividually, hstring⟩ := ih (current + 1) hrange.2 hscan (hsame.flag.trans hflag)
    refine ⟨k, ?_, ?_, ?_, hindividually, ?_⟩
    · rw [cons_append, processLoop, hturn, length_cons]
      simp only
      rw [hloop]
      congr 1
      omega
    · rw [hcore]
      exact foldl_scan_core _ (scan_core rfl)
    · rw [hcalls, hsame.calls]
    · rw [hstring, hsame.string]

structure StateMachine.SameSetting (m k : StateMachine) : Prop where
  parserMode : k.parserMode = m.parserMode
  callback : k.onCsiCompleteCallback = m.onCsiCompleteCallback
  input : k.isEngineForInput = m.isEngineForInput
  string : k.currentString = m.currentString

def printsBefore (m : StateMachine) : List Call := if m.processingIndividually then [] else [.printString []]

theorem processCharacter_esc (hclear : Inert E .clear) (hm : m.state = .ground) :
    processCharacter E ESC m = { cleared { m with state := .escape } with calls := m.calls ++ [.clear] } := by
  have hstep : processCharacter E ESC m = enterEscape E m := by
    simp [processCharacter, processNonC1, isC1ControlCharacter, isFromAnywhereChar, isEscape, ESC, hm, actionInterrupt]
  rw [hstep, enterEscape, actionClear, notify_inert hclear]
  rfl

theorem processCharacter_csi (hclear : Inert E .clear) (hm : m.state = .escape) (hansi : m.parserMode.ansi = true) :
    processCharacter E 0x5B m = { cleared { m with state := .csiEntry } with calls := m.calls ++ [.clear] } := by
  have hstep : processCharacter E 0x5B m = enterCsiEntry E m := by
    simp [processCharacter, processNonC1, event, eventEscape, isC1ControlCharacter, isFromAnywhereChar,
      isEscape, isC0Code, isDelete, isIntermediate, isCsiIndicator, hm, hansi]
  rw [hstep, enterCsiEntry, actionClear, notify_inert hclear]
  rfl

theorem processIndividually_esc (hclear : Inert E .clear) (hm : m.state = .ground) (last : Bool) (start current : Nat) :
    processIndividually E ESC last start current m = (start, { cleared { m with
      state := .escape, runOffset := start, runSize := some (current - start + 1),
      processingLastCharacter := last } with calls := m.calls ++ [.clear] }) := by
  unfold processIndividually
  rw [processCharacter_esc hclear (by exact hm)]
  rfl

theorem processLoop_begun (hprint : Inert E (.printString [])) (hclear : Inert E .clear) (hm : m.AtRest)
    (rest : List Wchar) :
    ∃ k, processLoop E (ESC :: 0x5B :: rest) 0 0 m = processLoop E rest 0 2 k ∧ Begun k ∧ SameSetting m k ∧
      k.calls = m.calls ++ (printsBefore m ++ [.clear, .clear]) ∧ k.processingIndividually = true := by
  obtain ⟨k, hk, hstate, hsame, hcalls, hflag⟩ : ∃ k, turn E ESC (0x5B :: rest).isEmpty 0 0 m = (0, k) ∧
      k.state = .escape ∧ SameSetting m k ∧ k.calls = m.calls ++ (printsBefore m ++ [.clear]) ∧
      k.processingIndividually = true := by
    by_cases hflag : m.processingIndividually = true
    · rw [turn_individually hflag, processIndividually_esc hclear (by exact hm.state)]
      refine ⟨_, rfl, rfl, ⟨rfl, rfl, rfl, rfl⟩, ?_, hflag⟩
      rw [printsBefore, if_pos hflag]
      rfl
    · rw [turn_actionable hflag (by decide), actionPrintString]
      simp only [Nat.sub_self, take_zero, notify_inert hprint]
      rw [processIndividually_esc hclear (by exact hm.state)]
      refine ⟨_, rfl, rfl, ⟨rfl, rfl, rfl, rfl⟩, ?_, rfl⟩
      rw [printsBefore, if_neg hflag, ← append_assoc]
  have hansi : k.parserMode.ansi = true := by rw [hsame.parserMode, hm.ansi]
  have hturn : ∃ k', turn E 0x5B rest.isEmpty 0 1 k = (0, k') ∧ Begun k' ∧ SameSetting k k' ∧
      k'.calls = k.calls ++ [.clear] ∧ k'.processingIndividually = true := by
    rw [turn_individually hflag]
    unfold processIndividually
    rw [processCharacter_csi hclear (by exact hstate) (by exact hansi)]
    exact ⟨_, rfl, ⟨rfl, rfl, rfl, rfl⟩, ⟨rfl, rfl, rfl, rfl⟩, rfl, hflag⟩
  obtain ⟨k', hk', hbegun, hsame', hcalls', hflag'⟩ := hturn
  refine ⟨k', ?_, hbegun, ?_, ?_, hflag'⟩
  · simp only [processLoop, hk, hk']
  · exact ⟨hsame'.parserMode.trans hsame.parserMode, hsame'.callback.trans hsame.callback,
      hsame'.input.trans hsame.input, hsame'.string.trans hsame.string⟩
  · rw [hcalls', hcalls, append_assoc, append_assoc]
    rfl

theorem processLoop_final {f : Wchar} (hm : inCsi m) (hignore : m.state ≠ .csiIgnore) (hf : isFinal f = true)
    (hdispatch : Inert E (.csiDispatch (m.identifier.finalize f) m.parameters))
    (hcallback : m.onCsiCompleteCallback = none) (hflag : m.processingIndividually = true) (start current : Nat) :
    ∃ k, processLoop E [f] start current m = (current + 1, k) ∧ k.state = .ground ∧ SameSetting m k ∧
      k.calls = m.calls ++ [.csiDispatch (m.identifier.finalize f) m.parameters] ∧
      k.processingIndividually = false := by
  simp only [processLoop, turn_individually hflag]
  unfold processIndividually
  rw [processCharacter_final (by exact hm) hf, if_neg hignore, actionCsiDispatch, notify_inert (by exact hdispatch),
    executeCsiCompleteCallback]
  simp only [hcallback]
  exact ⟨_, rfl, rfl, ⟨rfl, hcallback.symm, rfl, rfl⟩, rfl, rfl⟩

theorem processString_csi (hprint : Inert E (.printString [])) (hclear : Inert E .clear) (hm : m.AtRest)
    {body marker params inter : List Wchar} (hbody : CsiBody body marker params inter) {f : Wchar}
    (hf : isFinal f = true)
    (hdispatch : Inert E (.csiDispatch ((identifierOf (marker ++ inter)).finalize f) (parametersOf params))) :
    let k := processString E ([ESC, 0x5B] ++ (body ++ [f])) m
    k.AtRest ∧ k.isEngineForInput = m.isEngineForInput ∧ k.processingIndividually = false ∧
      k.calls = m.calls ++ (printsBefore m ++
        [.clear, .clear, .csiDispatch ((identifierOf (marker ++ inter)).finalize f) (parametersOf params)]) := by
  intro k
  let m₀ := { m with currentString := [ESC, 0x5B] ++ (body ++ [f]), runOffset := 0, runSize := some 0 }
  have hm₀ : m₀.AtRest := { hm with }
  have hrange := hbody.range
  obtain ⟨k₁, hloop₁, hbegun, hsame₁, hcalls₁, hflag₁⟩ := processLoop_begun hprint hclear hm₀ (body ++ [f])
  obtain ⟨k₂, hloop₂, hcore, hcalls₂, hflag₂, hstring₂⟩ :=
    processLoop_scan (E := E) body [f] 0 2 hrange (Or.inl hbegun.state) hflag₁
  have hfield {α : Type} (g : StateMachine → α) (hg : ∀ n, g n.core = g n) : g k₂ = g (body.foldl scan k₁) := by
    rw [← hg, hcore, hg]
  obtain ⟨hid, hparams⟩ := foldl_scan_csiBody hbody hbegun.state hbegun.identifier hbegun.parameters hbegun.limit
  have hid₂ : k₂.identifier = identifierOf (marker ++ inter) := (hfield (·.identifier) fun _ => rfl).trans hid
  have hparams₂ : k₂.parameters = parametersOf params := (hfield (·.parameters) fun _ => rfl).trans hparams
  have hin : inCsi k₂ := inCsi_of_core hcore.symm (foldl_scan_inCsi body (Or.inl hbegun.state))
  have hignore : k₂.state ≠ .csiIgnore := by
    rw [hfield (·.state) fun _ => rfl]
    exact (foldl_scan_entry body hrange hbegun.state).mpr ⟨marker, params, inter, hbody⟩
  have hsame₂ := foldl_scan_scanned body k₁
  have hcallback : k₂.onCsiCompleteCallback = none :=
    (hfield (·.onCsiCompleteCallback) fun _ => rfl).trans (hsame₂.callback.trans (hsame₁.callback.trans hm.callback))
  rw [← hid₂, ← hparams₂] at hdispatch ⊢
  obtain ⟨k₃, hloop₃, hground, hsame₃, hcalls₃, hflag₃⟩ :=
    processLoop_final hin hignore hf hdispatch hcallback hflag₂ 0 (2 + body.length)
  have hk : k = finishString E (2 + body.length + 1) k₃ := by
    have hloop : processLoop E ([ESC, 0x5B] ++ (body ++ [f])) 0 0 m₀ = (2 + body.length + 1, k₃) := by
      rw [← hloop₃, ← hloop₂, ← hloop₁]
      rfl
    simp only [k, processString]
    rw [show processLoop E ([ESC, 0x5B] ++ (body ++ [f])) 0 0 { m with
      currentString := [ESC, 0x5B] ++ (body ++ [f]), runOffset := 0, runSize := some 0 } = _ from hloop]
  -- nothing is left over
  have hstring : k₃.currentString.length = 2 + body.length + 1 := by
    rw [hsame₃.string, hstring₂, hsame₁.string]
    simp only [m₀, length_append, length_cons, length_nil]
    omega
  have hfinish : k = { k₃ with runSize := some 0 } := by
    have hrun : finishRun (2 + body.length + 1) k₃ = { k₃ with runSize := some 0 } := if_neg (by omega)
    rw [hk, finishString, hrun]
    simp [currentRun, hflag₃]
  have hmode₂ : k₂.parserMode = m.parserMode :=
    (hfield (·.parserMode) fun _ => rfl).trans (hsame₂.parserMode.trans hsame₁.parserMode)
  have hinput₂ : k₂.isEngineForInput = m.isEngineForInput :=
    (hfield (·.isEngineForInput) fun _ => rfl).trans (hsame₂.input.trans hsame₁.input)
  rw [hfinish]
  refine ⟨⟨hground, ?_, ?_⟩, ?_, hflag₃, ?_⟩
  · simp only [hsame₃.parserMode, hmode₂, hm.ansi]
  · exact hsame₃.callback.trans hcallback
  · exact hsame₃.input.trans hinput₂
  · simp only [hcalls₃, hcalls₂, hcalls₁, append_assoc]
    rfl

end

end Terminal.Parser
