import Terminal.Adapter.Macros

/-!
# Macro invocations are bounded

A buffer counts all the text that its macros have fed to the parser since the root invocation.
After a reset the rest of it is NUL characters, which invoke nothing.
-/

namespace Terminal.Adapter

open Terminal.Parser StateMachine List

/-! ## The calls of a character -/

def dispatches : Call → Bool
  | .escDispatch _ | .csiDispatch _ _ | .dcsDispatch _ _ => true
  | _ => false

def Silently (m m' : StateMachine) : Prop :=
  ∃ new, m'.calls = m.calls ++ new ∧ ∀ c ∈ new, dispatches c = false

def AtMostOne (m m' : StateMachine) : Prop :=
  ∃ new, m'.calls = m.calls ++ new ∧ ((∀ c ∈ new, dispatches c = false) ∨
    ∃ before c after, new = before ++ c :: after ∧ (∀ d ∈ before, dispatches d = false) ∧
      (∀ d ∈ after, dispatches d = false) ∧ ∀ id, c = .escDispatch id → m'.state = .ground)

section

variable {E : Engine} {m m' m'' : StateMachine} {wch : Wchar}

theorem Silently.refl (m : StateMachine) : Silently m m := ⟨[], by simp, by simp⟩

theorem Silently.trans (h : Silently m m') (h' : Silently m' m'') : Silently m m'' := by
  obtain ⟨new, hcalls, hnew⟩ := h
  obtain ⟨more, hcalls', hmore⟩ := h'
  exact ⟨new ++ more, by rw [hcalls', hcalls, append_assoc], forall_mem_append.mpr ⟨hnew, hmore⟩⟩

theorem Silently.atMostOne (h : Silently m m') : AtMostOne m m' := by
  obtain ⟨new, hcalls, hnew⟩ := h
  exact ⟨new, hcalls, .inl hnew⟩

theorem Silently.then (h : Silently m m') (h' : AtMostOne m' m'') : AtMostOne m m'' := by
  obtain ⟨new, hcalls, hnew⟩ := h
  obtain ⟨more, hcalls', hmore⟩ := h'
  refine ⟨new ++ more, by rw [hcalls', hcalls, append_assoc], ?_⟩
  rcases hmore with hmore | ⟨before, c, after, rfl, hbefore, hafter, hc⟩
  · exact .inl (forall_mem_append.mpr ⟨hnew, hmore⟩)
  · exact .inr ⟨new ++ before, c, after, (append_assoc ..).symm, forall_mem_append.mpr ⟨hnew, hbefore⟩, hafter, hc⟩

theorem Silently.of_calls (h : m'.calls = m.calls) : Silently m m' := ⟨[], by rw [h, append_nil], by simp⟩

theorem call_silently {c : Call} (hc : dispatches c = false) (m : StateMachine) : Silently m (call E c m).2 :=
  ⟨[c], rfl, by simpa using hc⟩

theorem silently_rule : CallRule E (dispatches · = false) (Silently m) where
  call hc h := h.trans (call_silently hc _)
  uncached h := h.trans (.of_calls rfl)
  passes _ := rfl
  inner h houter := h.trans (.of_calls (congrArg Prod.fst houter))
  puts _ := rfl

theorem notify_atMostOne {c : Call} (m : StateMachine) (f : StateMachine → StateMachine)
    (hf : ∀ m, (f m).calls = m.calls) (hstate : ∀ id, c = .escDispatch id → (f (notify E c m)).state = .ground) :
    AtMostOne m (f (notify E c m)) := by
  have hnotify : ∃ after, (notify E c m).calls = m.calls ++ c :: after ∧ ∀ d ∈ after, dispatches d = false := by
    unfold notify
    dsimp only
    split
    · obtain ⟨after, hcalls, hafter⟩ := silently_rule.flushToTerminal (E := E) (.refl (call E c m).2)
      exact ⟨after, by rw [hcalls, call, append_assoc]; rfl, hafter⟩
    · exact ⟨[], rfl, by simp⟩
  obtain ⟨after, hcalls, hafter⟩ := hnotify
  exact ⟨c :: after, by rw [hf, hcalls], .inr ⟨[], c, after, rfl, by simp, hafter, hstate⟩⟩

theorem actionDcsDispatch_atMostOne (m : StateMachine) : AtMostOne m (actionDcsDispatch E wch m) := by
  obtain ⟨after, hcalls, hafter⟩ := silently_rule.installHandler (E := E)
    (.refl (call E (.dcsDispatch (m.identifier.finalize wch) m.parameters) m).2)
    (call E (.dcsDispatch (m.identifier.finalize wch) m.parameters) m).1.handler
  refine ⟨.dcsDispatch (m.identifier.finalize wch) m.parameters :: after, ?_,
    .inr ⟨[], _, after, rfl, by simp, hafter, by simp⟩⟩
  have hlog : (actionDcsDispatch E wch m).calls = (installHandler E
      (call E (.dcsDispatch (m.identifier.finalize wch) m.parameters) m).1.handler
      (call E (.dcsDispatch (m.identifier.finalize wch) m.parameters) m).2).calls := by
    unfold actionDcsDispatch
    dsimp only
    split <;> rfl
  rw [hlog, hcalls, call, append_assoc]
  rfl

theorem AtMostOne.of_calls (h : m'.calls = m.calls) : AtMostOne m m' := (Silently.of_calls h).atMostOne

theorem notify_then {c : Call} (hc : dispatches c = false) (m : StateMachine) (f : StateMachine → StateMachine)
    (hf : ∀ m, (f m).calls = m.calls) : AtMostOne m (f (notify E c m)) :=
  ((silently_rule.notify hc (.refl m)).trans (.of_calls (hf _))).atMostOne

theorem notify_only {c : Call} (hc : dispatches c = false) (m : StateMachine) : AtMostOne m (notify E c m) :=
  notify_then hc m id fun _ => rfl

theorem enterCleared_atMostOne (m : StateMachine) (state : VTStates) :
    AtMostOne m (actionClear E { m with state := state }) :=
  (silently_rule.actionClear (m := { m with state := state }) (.of_calls rfl) rfl).atMostOne

theorem csiDone_atMostOne (hinject : ∀ text m, E.inject text m = m) (m : StateMachine) :
    AtMostOne m (executeCsiCompleteCallback E (enterGround (StateMachine.actionCsiDispatch E wch m))) := by
  have hcallback : ∀ m, (executeCsiCompleteCallback E (enterGround m)).calls = m.calls := by
    intro m
    unfold executeCsiCompleteCallback
    split
    · rfl
    · rw [hinject]
      rfl
  exact notify_atMostOne m (fun m => executeCsiCompleteCallback E (enterGround m)) hcallback (by simp)

theorem Act.run_atMostOne (hinject : ∀ text m, E.inject text m = m) (m : StateMachine) (act : Act) :
    AtMostOne m (act.run E wch m) := by
  cases act with
  | change u => cases u <;> exact .of_calls rfl
  | move u q => cases u <;> cases q <;> exact .of_calls rfl
  | execute => exact notify_only rfl m
  | print => exact notify_only rfl m
  | finish e => exact notify_atMostOne m enterGround (fun _ => rfl) fun _ _ => rfl
  | csiDispatch => exact csiDone_atMostOne hinject m
  | vt52Dispatch =>
    have hput : Silently m (Update.vt52Param.apply wch m) := .of_calls rfl
    exact hput.then (notify_then rfl _ enterGround fun _ => rfl)
  | clear q _ => exact enterCleared_atMostOne m q
  | dcsDispatch => exact actionDcsDispatch_atMostOne m
  | put =>
    have hput : Silently m (callStringHandler E wch m).2 := silently_rule.callStringHandler (.refl m)
    unfold Act.run
    dsimp only
    split_ifs
    · exact hput.atMostOne
    · exact hput.then (.of_calls rfl)

theorem event_atMostOne (hinject : ∀ text m, E.inject text m = m) (m : StateMachine) : AtMostOne m (event E wch m) := by
  have hescape : Silently m (enterEscape E m) := silently_rule.actionClear (.of_calls rfl) rfl
  exact event_of_run E (fun _ => Act.run_atMostOne hinject m _) fun _ => hescape.then (Act.run_atMostOne hinject _ _)

theorem processNonC1_atMostOne (hinject : ∀ text m, E.inject text m = m) (m : StateMachine) :
    AtMostOne m (processNonC1 E wch m) := by
  have hinterrupt := silently_rule.actionInterrupt (E := E) (.refl m)
  unfold processNonC1
  split_ifs
  · exact hinterrupt.then (notify_then rfl _ enterGround fun _ => rfl)
  · exact hinterrupt.then (enterCleared_atMostOne _ _)
  · exact event_atMostOne hinject m

theorem processNonC1_esc_silently (m : StateMachine) : Silently m (processNonC1 E ESC m) := by
  have hany : isFromAnywhereChar ESC = false := by decide
  have hesc : isEscape ESC = true := by decide
  unfold processNonC1
  rw [hany, hesc, Bool.false_and, if_neg Bool.false_ne_true]
  split_ifs with hosc
  · exact silently_rule.actionClear ((silently_rule.actionInterrupt (.refl m)).trans (.of_calls rfl)) rfl
  · have hstate : m.state = .oscString := by simpa using hosc
    have hevent : event E ESC m = enterOscTermination m := by
      unfold event eventOscString
      rw [hstate]
      rfl
    rw [hevent]
    exact .of_calls rfl

theorem processCharacter_atMostOne (hinject : ∀ text m, E.inject text m = m) (m : StateMachine) :
    AtMostOne m (processCharacter E wch m) := by
  unfold processCharacter
  split_ifs
  · exact (processNonC1_esc_silently m).then (processNonC1_atMostOne hinject _)
  · exact .of_calls rfl
  · exact processNonC1_atMostOne hinject m

end

/-! ## What calls do to a buffer in use -/

namespace Macros

structure Live (i : Nat) (b : MacroBuffer) (s : Macros) : Prop where
  buffer : s.buffers[i]? = some b
  current : s.macroBuffer = some i
  idle : s.definesMacro = false

/-- After a reset: the buffer is left with NUL characters. -/
structure Dead (i : Nat) (b : MacroBuffer) (s : Macros) : Prop where
  buffer : s.buffers[i]? = some b
  current : s.macroBuffer = none
  idle : s.definesMacro = false
  nul : ∀ id, ∀ c ∈ b.macros id, c = 0

variable {i : Nat} {b : MacroBuffer} {s : Macros}

theorem getElem?_modifyBuffer (hb : s.buffers[i]? = some b) (f : MacroBuffer → MacroBuffer) :
    (s.modifyBuffer i f).buffers[i]? = some (f b) := by
  simp [modifyBuffer, hb]

theorem Live.makeBuffer (hl : Live i b s) : s.makeBuffer = s := by
  rw [Macros.makeBuffer, hl.current]
  exact if_pos rfl

theorem Live.defineMacro (hl : Live i b s) (hdepth : 0 < b.invokedDepth) (ps : VTParameters) :
    Live i b (s.defineMacro ps).2 := by
  have hrefused : initParser ps b = (false, b) := by
    unfold initParser MacroBuffer.initParser
    rw [dif_neg (by omega)]
  unfold Macros.defineMacro
  rw [hl.makeBuffer]
  dsimp only
  rw [hl.current]
  dsimp only
  refine ⟨?_, hl.current, ?_⟩
  · rw [getElem?_modifyBuffer hl.buffer, hrefused]
  · rw [hl.buffer, Option.map_some, hrefused]
    rfl

theorem Live.hardReset (hl : Live i b s) (hdepth : 0 < b.invokedDepth) : Dead i b.clearMacrosIfInUse s.hardReset := by
  unfold Macros.hardReset
  rw [hl.current]
  refine ⟨getElem?_modifyBuffer hl.buffer _, rfl, hl.idle, ?_⟩
  intro id c hc
  unfold MacroBuffer.clearMacrosIfInUse at hc
  rw [if_pos hdepth] at hc
  obtain ⟨-, -, rfl⟩ := mem_map.mp hc
  rfl

theorem Live.heed (hl : Live i b s) (hdepth : 0 < b.invokedDepth) (c : Call) :
    Live i b (s.heed c) ∨ (∃ id, c = .escDispatch id) ∧ Dead i b.clearMacrosIfInUse (s.heed c) := by
  have hcleared : Live i b { s with definesMacro := false } := ⟨hl.buffer, hl.current, rfl⟩
  cases c with
  | escDispatch id =>
    by_cases hid : id = ris
    · refine .inr ⟨⟨id, rfl⟩, ?_⟩
      rw [heed_escDispatch, if_pos hid]
      exact hl.hardReset hdepth
    · left
      rw [heed_escDispatch, if_neg hid]
      exact hl
  | dcsDispatch id ps =>
    left
    by_cases hid : id = decdmac
    · rw [heed_dcsDispatch, if_pos hid]
      exact hl.defineMacro hdepth ps
    · rw [heed_dcsDispatch, if_neg hid]
      exact hcleared
  | stringHandler wch =>
    left
    rw [heed_stringHandler, hl.idle]
    exact hl
  | clear => exact .inl hcleared
  | csiDispatch id ps => exact .inl hcleared
  | _ => exact .inl hl

theorem Dead.heed (hd : Dead i b s) {c : Call} (hc : dispatches c = false) : Dead i b (s.heed c) := by
  cases c with
  | escDispatch id => exact absurd hc Bool.noConfusion
  | dcsDispatch id ps => exact absurd hc Bool.noConfusion
  | csiDispatch id ps => exact absurd hc Bool.noConfusion
  | stringHandler wch =>
    rw [heed_stringHandler, hd.idle]
    exact hd
  | clear => exact { hd with idle := rfl }
  | _ => exact hd

theorem Dead.foldl_heed (hd : Dead i b s) {calls : List Call} (hcalls : ∀ c ∈ calls, dispatches c = false) :
    Dead i b (calls.foldl Macros.heed s) := by
  induction calls generalizing s with
  | nil => exact hd
  | cons c calls ih =>
    exact ih (hd.heed (hcalls c mem_cons_self)) fun d hd => hcalls d (mem_cons_of_mem _ hd)

theorem Live.foldl_heed (hl : Live i b s) (hdepth : 0 < b.invokedDepth) {calls : List Call}
    (hcalls : ∀ c ∈ calls, dispatches c = false) : Live i b (calls.foldl Macros.heed s) := by
  induction calls generalizing s with
  | nil => exact hl
  | cons c calls ih =>
    rcases hl.heed hdepth c with hl' | ⟨⟨id, rfl⟩, -⟩
    · exact ih hl' fun d hd => hcalls d (mem_cons_of_mem _ hd)
    · exact absurd (hcalls _ mem_cons_self) (by simp [dispatches])

end Macros

namespace MacroHost

open Macros (Live Dead View invokedMacro heed getElem?_modifyBuffer)

variable {i : Nat} {b : MacroBuffer} {h : MacroHost}

/-! ## Strings -/

abbrev Invoke := Nat → Nat → MacroHost → Option MacroHost

structure Kept (terminal : Bool) (D : List Call → Reply) (F : Set Invoke) (view : View) (Inv : MacroHost → Prop) :
    Prop where
  machine : ∀ h m, Inv h → m.state = h.machine.state ∨ m.state = .ground → Inv { h with machine := m }
  character : ∀ h current, Inv h →
    ∃ h', (∀ invoke ∈ F, processCharacter terminal D invoke ((h.text view).getD current 0) h = some h') ∧ Inv h'

section

variable {terminal : Bool} {D : List Call → Reply} {F : Set Invoke} {view : View} {Inv : MacroHost → Prop}

theorem processIndividually_kept (hk : Kept terminal D F view Inv) (hinv : Inv h) {m : StateMachine}
    (hm : m.state = h.machine.state) (last : Bool) (start current : Nat) :
    ∃ x, (∀ invoke ∈ F, processIndividually terminal D invoke ((h.text view).getD current 0) last start current
        { h with machine := m } = some x) ∧ Inv x.2 := by
  have hinv' := hk.machine h { m with
    runOffset := start, runSize := some (current - start + 1), processingLastCharacter := last } hinv (.inl hm)
  obtain ⟨h', hh', hinv''⟩ := hk.character _ current hinv'
  refine ⟨_, fun invoke hf => Option.map_eq_some_iff.mpr ⟨h', hh' invoke hf, rfl⟩, ?_⟩
  split
  · exact hk.machine h' { h'.machine with processingIndividually := false } hinv'' (.inl rfl)
  · exact hinv''

theorem turn_kept (hk : Kept terminal D F view Inv) (hinv : Inv h) (last : Bool) (start current : Nat) :
    ∃ x, (∀ invoke ∈ F, turn terminal D invoke view last start current h = some x) ∧ Inv x.2 := by
  have hsingle := fun (m : StateMachine) (start : Nat) (hm : m.state = h.machine.state) =>
    processIndividually_kept hk hinv hm last start current
  unfold turn
  dsimp only
  generalize h.text view = string at hsingle ⊢
  by_cases hflag : h.machine.processingIndividually = true
  · simp only [if_pos hflag]
    exact hsingle _ start rfl
  by_cases hact : isActionableFromGround (string.getD current 0) = true
  · simp only [if_neg hflag, if_pos hact]
    exact hsingle _ current (notify_untouched _).state
  · simp only [if_neg hflag, if_neg hact]
    exact ⟨_, fun _ _ => rfl, hk.machine h { h.machine with
      currentString := string, runOffset := start, runSize := some (current - start + 1) } hinv (.inl rfl)⟩

theorem processLoop_kept (hk : Kept terminal D F view Inv) (n : Nat) (start current : Nat) (hinv : Inv h) :
    ∃ x, (∀ invoke ∈ F, processLoop terminal D invoke view n start current h = some x) ∧ Inv x.2 := by
  induction n generalizing start current h with
  | zero => exact ⟨(start, h), fun _ _ => rfl, hinv⟩
  | succ n ih =>
    obtain ⟨x, hturn, hinv'⟩ := turn_kept hk hinv (n = 0) start current
    obtain ⟨y, hloop, hinv''⟩ := ih x.1 (current + 1) hinv'
    exact ⟨y, fun invoke hf => Option.bind_eq_some_iff.mpr ⟨x, hturn invoke hf, hloop invoke hf⟩, hinv''⟩

theorem finishString_state (E : Engine) (start : Nat) (m : StateMachine) :
    (finishString E start m).state = m.state ∨ (finishString E start m).state = .ground := by
  obtain ⟨-, offset, size, hrun⟩ := finishRun_eq start m
  have hstate : (finishRun start m).state = m.state := by rw [hrun]
  unfold finishString
  dsimp only
  split_ifs
  · exact .inl ((notify_untouched _).state.trans hstate)
  · unfold flushInput
    split
    · exact .inl hstate
    · exact .inr rfl
  · exact .inl hstate
  · exact .inl hstate
  · exact .inl hstate

theorem processString_kept (hk : Kept terminal D F view Inv) (hinv : Inv h) :
    ∃ h', (∀ invoke ∈ F, processString terminal D invoke view h = some h') ∧ Inv h' := by
  obtain ⟨x, hloop, hinv'⟩ := processLoop_kept hk (h.text view).length 0 0
    (hk.machine h { h.machine with currentString := h.text view, runOffset := 0, runSize := some 0 } hinv (.inl rfl))
  refine ⟨_, fun invoke hf => Option.bind_eq_some_iff.mpr ⟨x, hloop invoke hf, rfl⟩, ?_⟩
  exact hk.machine x.2 _ hinv'
    (finishString_state (x.2.toMacros.engine terminal D) x.1 { x.2.machine with currentString := x.2.text view })

end

/-! ## Runs -/

/-- In use at this depth, with this much text fed. -/
def Running (i depth len : Nat) (lens : Fin 64 → Nat) (h : MacroHost) : Prop :=
  ∃ b, (Live i b h.toMacros ∨ Dead i b h.toMacros ∧ h.machine.state = .ground) ∧ b.invokedDepth = depth ∧
    b.invokedSequenceLength = len ∧ ∀ id, (b.macros id).length = lens id

def totalLength (invocations : List (Nat × List Wchar)) : Nat := (invocations.map fun x => x.2.length).sum

theorem totalLength_append (a b : List (Nat × List Wchar)) : totalLength (a ++ b) = totalLength a + totalLength b := by
  simp [totalLength]

def Bounded (i depth len : Nat) (lens : Fin 64 → Nat) (h h' : MacroHost) : Prop :=
  ∃ more, h'.invocations = h.invocations ++ more ∧ (∀ x ∈ more, x.1 ≤ 16) ∧ len + totalLength more < maxSpace ∧
    Running i depth (len + totalLength more) lens h'

variable {depth len : Nat} {lens : Fin 64 → Nat} {h' h'' : MacroHost}

theorem Running.bounded (hr : Running i depth len lens h') (hlen : len < maxSpace)
    (hinv : h'.invocations = h.invocations) : Bounded i depth len lens h h' :=
  ⟨[], by rw [hinv, append_nil], by simp, hlen, hr⟩

theorem Bounded.after {more : List (Nat × List Wchar)} (hmore : h'.invocations = h.invocations ++ more)
    (hdepths : ∀ x ∈ more, x.1 ≤ 16) (hb : Bounded i depth (len + totalLength more) lens h' h'') :
    Bounded i depth len lens h h'' := by
  obtain ⟨more', hmore', hdepths', hlt, hr⟩ := hb
  rw [Nat.add_assoc, ← totalLength_append] at hlt hr
  exact ⟨more ++ more', by rw [hmore', hmore, append_assoc], forall_mem_append.mpr ⟨hdepths, hdepths'⟩, hlt, hr⟩

theorem Running.withMachine (hr : Running i depth len lens h) {m : StateMachine}
    (hm : m.state = h.machine.state ∨ m.state = .ground) : Running i depth len lens { h with machine := m } := by
  obtain ⟨b, hb, hdepth, hlen⟩ := hr
  refine ⟨b, ?_, hdepth, hlen⟩
  rcases hb with hl | ⟨hd, hstate⟩
  · exact .inl hl
  · refine .inr ⟨hd, ?_⟩
    rcases hm with hm | hm
    · exact hm.trans hstate
    · exact hm

theorem Bounded.withMachine (hb : Bounded i depth len lens h h') {m : StateMachine}
    (hm : m.state = h'.machine.state ∨ m.state = .ground) : Bounded i depth len lens h { h' with machine := m } := by
  obtain ⟨more, hmore, hdepth, hlt, hr⟩ := hb
  exact ⟨more, hmore, hdepth, hlt, hr.withMachine hm⟩

section

variable {terminal : Bool} {D : List Call → Reply} {F : Set Invoke} {wch : Wchar}

def Invokes (F : Set Invoke) (i depth : Nat) : Prop :=
  ∀ macroId len lens b (h : MacroHost), Live i b h.toMacros → b.invokedDepth = depth → b.invokedSequenceLength = len →
    (∀ id, (b.macros id).length = lens id) → len < maxSpace →
      ∃ h', (∀ invoke ∈ F, invoke i macroId h = some h') ∧ Bounded i depth len lens h h'

theorem executeCallback_bounded (hinvoke : Invokes F i depth) (hr : Running i depth len lens h) (hlen : len < maxSpace)
    (calls : List Call) :
    ∃ h', (∀ invoke ∈ F, executeCallback invoke calls h = some h') ∧ Bounded i depth len lens h h' := by
  have hnothing := hr.bounded hlen (show h.invocations = h.invocations from rfl)
  obtain ⟨b, hb, hdepth, hcount⟩ := hr
  unfold executeCallback
  rcases calls.findSome? invokedMacro with _ | macroId
  · exact ⟨h, fun _ _ => rfl, hnothing⟩
  rcases hb with hl | ⟨hd, hstate⟩
  · obtain ⟨h', hh', hbounded⟩ := hinvoke macroId len lens b h hl hdepth hcount.1 hcount.2 hlen
    rw [hl.current]
    exact ⟨_, fun invoke hf => Option.map_eq_some_iff.mpr ⟨h', hh' invoke hf, rfl⟩, hbounded.withMachine (.inl rfl)⟩
  · rw [hd.current]
    exact ⟨h, fun _ _ => rfl, hnothing⟩

theorem callsSince_eq {m m' : StateMachine} {new : List Call} (hcalls : m'.calls = m.calls ++ new) :
    callsSince m m' = new := by
  rw [callsSince, hcalls, drop_left]

theorem processCharacter_nul (E : Engine) {m : StateMachine} (hm : m.state = .ground) :
    StateMachine.processCharacter E 0 m = actionExecute E 0 m := by
  have hc1 : isC1ControlCharacter 0 = false := by decide
  have hany : isFromAnywhereChar 0 = false := by decide
  have hesc : isEscape 0 = false := by decide
  have hevent : event E 0 m = actionExecute E 0 m := by
    unfold event eventGround
    rw [hm]
    rfl
  rw [StateMachine.processCharacter, hc1, if_neg Bool.false_ne_true, processNonC1, hany, hesc, Bool.false_and,
    Bool.false_and, if_neg Bool.false_ne_true, if_neg Bool.false_ne_true, hevent]

theorem Running.processCharacter (hr : Running i depth len lens h) (hdepth : 0 < depth)
    (hnul : h.macroBuffer = none → wch = 0) :
    Running i depth len lens
      { h with
        toMacros := (callsSince h.machine (StateMachine.processCharacter (h.toMacros.engine terminal D) wch
          h.machine)).foldl heed h.toMacros
        machine := StateMachine.processCharacter (h.toMacros.engine terminal D) wch h.machine } := by
  obtain ⟨b, hb, rfl, hcount⟩ := hr
  rcases hb with hl | ⟨hd, hstate⟩
  · obtain ⟨new, hcalls, hnew⟩ := @processCharacter_atMostOne (h.toMacros.engine terminal D) wch
      (fun _ _ => rfl) h.machine
    rw [callsSince_eq hcalls]
    rcases hnew with hsilent | ⟨before, c, after, rfl, hbefore, hafter, hground⟩
    · have hl' := hl.foldl_heed hdepth hsilent
      exact ⟨b, .inl hl', rfl, hcount⟩
    · rw [foldl_append]
      rcases (hl.foldl_heed hdepth hbefore).heed hdepth c with hl' | ⟨⟨id, hid⟩, hd⟩
      · have hl'' := hl'.foldl_heed hdepth hafter
        exact ⟨b, .inl hl'', rfl, hcount⟩
      · have hd' := hd.foldl_heed hafter
        refine ⟨b.clearMacrosIfInUse, .inr ⟨hd', hground id hid⟩, ?_, ?_⟩
        · rw [MacroBuffer.clearMacrosIfInUse, if_pos hdepth]
        · rw [MacroBuffer.clearMacrosIfInUse, if_pos hdepth]
          exact ⟨hcount.1, fun id => (length_map _).trans (hcount.2 id)⟩
  · rw [hnul hd.current, processCharacter_nul _ hstate]
    obtain ⟨new, hcalls, hnew⟩ := silently_rule.notify (E := h.toMacros.engine terminal D)
      (c := .execute 0) rfl (.refl h.machine)
    rw [callsSince_eq (show (actionExecute (h.toMacros.engine terminal D) 0 h.machine).calls = _ from hcalls)]
    have hd' := hd.foldl_heed hnew
    exact ⟨b, .inr ⟨hd', (notify_untouched _).state.trans hstate⟩, rfl, hcount⟩

theorem processCharacter_bounded (hinvoke : Invokes F i depth) (hr : Running i depth len lens h) (hdepth : 0 < depth)
    (hlen : len < maxSpace) (hnul : h.macroBuffer = none → wch = 0) :
    ∃ h', (∀ invoke ∈ F, processCharacter terminal D invoke wch h = some h') ∧ Bounded i depth len lens h h' := by
  have hcalled := @Running.processCharacter i h depth len lens terminal D wch hr hdepth hnul
  exact executeCallback_bounded hinvoke hcalled hlen
    (callsSince h.machine (StateMachine.processCharacter (h.toMacros.engine terminal D) wch h.machine))

theorem Running.nul (hr : Running i depth len lens h) (macroId : Fin 64) (current : Nat)
    (hnone : h.macroBuffer = none) :
    (h.text (.macroText i macroId)).getD current 0 = 0 := by
  obtain ⟨b, hb, -, -⟩ := hr
  rcases hb with hl | ⟨hd, -⟩
  · rw [hl.current] at hnone
    exact absurd hnone (Option.some_ne_none i)
  · have htext : h.text (.macroText i macroId) = b.macros macroId := by
      rw [Macros.text, hd.buffer]
      rfl
    rw [htext, getD_eq_getElem?_getD]
    rcases hc : (b.macros macroId)[current]? with _ | c
    · rfl
    · exact hd.nul macroId c (mem_of_getElem? hc)

theorem kept_bounded (hinvoke : Invokes F i depth) (hdepth : 0 < depth) (macroId : Fin 64) (h : MacroHost) :
    Kept terminal D F (.macroText i macroId) (Bounded i depth len lens h) where
  machine _ _ hb hm := hb.withMachine hm
  character h₁ current hb := by
    obtain ⟨more, hmore, hdepths, hlt, hr⟩ := hb
    obtain ⟨h', hh', hbounded⟩ := @processCharacter_bounded i h₁ depth _ lens terminal D F
      ((h₁.text (.macroText i macroId)).getD current 0) hinvoke hr hdepth hlt (hr.nul macroId current)
    exact ⟨h', hh', hbounded.after hmore hdepths⟩

theorem processString_bounded (hinvoke : Invokes F i depth) (hdepth : 0 < depth) (macroId : Fin 64)
    (hr : Running i depth len lens h) (hlen : len < maxSpace) :
    ∃ h', (∀ invoke ∈ F, processString terminal D invoke (.macroText i macroId) h = some h') ∧
      Bounded i depth len lens h h' :=
  processString_kept (kept_bounded hinvoke hdepth macroId h) (hr.bounded hlen rfl)

/-! ## Invocations -/

theorem Running.leave (hr : Running i (depth + 1) len lens h) (hdepth : 0 < depth) :
    Running i depth len lens { h with toMacros := h.modifyBuffer i MacroBuffer.leave } := by
  obtain ⟨b, hb, hbdepth, hblen⟩ := hr
  have hleave : b.leave.invokedDepth = depth ∧ b.leave.invokedSequenceLength = len ∧
      ∀ id, (b.leave.macros id).length = lens id := by
    unfold MacroBuffer.leave
    rw [hbdepth, if_neg (by omega)]
    exact ⟨rfl, hblen⟩
  refine ⟨b.leave, ?_, hleave⟩
  rcases hb with hl | ⟨hd, hstate⟩
  · exact .inl ⟨getElem?_modifyBuffer hl.buffer _, hl.current, hl.idle⟩
  · exact .inr ⟨{ hd with buffer := getElem?_modifyBuffer hd.buffer _ }, hstate⟩

theorem Running.enter (hl : Live i b h.toMacros) (macroId : Fin 64) (invocations : List (Nat × List Wchar)) :
    Running i (b.invokedDepth + 1) (b.invokedSequenceLength + (b.macros macroId).length)
      (fun id => (b.macros id).length)
      { h with toMacros := h.modifyBuffer i fun b => b.enter macroId, invocations := invocations } :=
  ⟨b.enter macroId, .inl ⟨getElem?_modifyBuffer hl.buffer _, hl.current, hl.idle⟩, rfl, rfl, fun _ => rfl⟩

theorem run_bounded (hl : Live i b h.toMacros) (hinvoke : Invokes F i (b.invokedDepth + 1)) {macroId : Fin 64}
    (hcan : b.canInvoke macroId = true) :
    ∃ h' more, (∀ invoke ∈ F, processString terminal D invoke (.macroText i macroId) { h with
          toMacros := h.modifyBuffer i fun b => b.enter macroId
          invocations := h.invocations ++ [(b.invokedDepth + 1, b.macros macroId)] } = some h') ∧
      h'.invocations = h.invocations ++ more ∧ (∀ x ∈ more, x.1 ≤ 16) ∧
      b.invokedSequenceLength + totalLength more < maxSpace ∧
      Running i (b.invokedDepth + 1) (b.invokedSequenceLength + totalLength more)
        (fun id => (b.macros id).length) h' := by
  simp only [MacroBuffer.canInvoke, Bool.and_eq_true, decide_eq_true_eq] at hcan
  obtain ⟨hdepth, hlength⟩ := hcan
  have hr := Running.enter hl macroId (h.invocations ++ [(b.invokedDepth + 1, b.macros macroId)])
  obtain ⟨h', hh', more, hmore, hdepths, hlt, hr'⟩ :=
    @processString_bounded i _ _ _ _ terminal D F hinvoke (Nat.succ_pos _) macroId hr (by omega)
  have htotal : totalLength ((b.invokedDepth + 1, b.macros macroId) :: more) =
      (b.macros macroId).length + totalLength more := by simp [totalLength]
  refine ⟨h', (b.invokedDepth + 1, b.macros macroId) :: more, hh', ?_, ?_, ?_, ?_⟩
  · rw [hmore, append_assoc]
    rfl
  · intro x hx
    rcases mem_cons.mp hx with rfl | hx
    · exact hdepth
    · exact hdepths x hx
  · rw [htotal, ← Nat.add_assoc]
    exact hlt
  · rw [htotal, ← Nat.add_assoc]
    exact hr'

/-- `InvokeMacro` with fuel for what can be nested at this depth. -/
def fueled (terminal : Bool) (D : List Call → Reply) (depth : Nat) : Set Invoke :=
  { invoke | ∃ fuel, 17 ≤ fuel + depth ∧ invoke = invokeMacro terminal D fuel }

theorem invokeMacro_of_canInvoke (hb : h.buffers[i]? = some b) {macroId : Nat} (hid : macroId < 64)
    (hcan : b.canInvoke ⟨macroId, hid⟩ = true) (fuel : Nat)
    (hh' : processString terminal D (invokeMacro terminal D fuel) (.macroText i ⟨macroId, hid⟩) { h with
        toMacros := h.modifyBuffer i fun b => b.enter ⟨macroId, hid⟩
        invocations := h.invocations ++ [(b.invokedDepth + 1, b.macros ⟨macroId, hid⟩)] } = some h') :
    invokeMacro terminal D (fuel + 1) i macroId h =
      some { h' with toMacros := h'.modifyBuffer i MacroBuffer.leave } := by
  rw [invokeMacro, hb]
  dsimp only
  rw [dif_pos hid, if_pos hcan, hh']
  rfl

theorem invokeMacro_refused (hb : h.buffers[i]? = some b) {macroId : Nat}
    (hcan : ∀ hid : macroId < 64, b.canInvoke ⟨macroId, hid⟩ ≠ true) (fuel : Nat) :
    invokeMacro terminal D (fuel + 1) i macroId h = some h := by
  rw [invokeMacro, hb]
  dsimp only
  split_ifs with hid hcan'
  · exact absurd hcan' (hcan hid)
  · rfl
  · rfl

theorem invokeMacro_invokes {depth : Nat} (hdepth : 0 < depth) (hle : depth ≤ 16) :
    Invokes (fueled terminal D depth) i depth := by
  induction hn : 16 - depth using Nat.strongRecOn generalizing depth with
  | _ n ih =>
    subst hn
    rintro macroId len lens b h hl rfl rfl hlens hlen
    obtain rfl : (fun id => (b.macros id).length) = lens := funext hlens
    by_cases hcan : ∃ hid : macroId < 64, b.canInvoke ⟨macroId, hid⟩ = true
    · obtain ⟨hid, hcan⟩ := hcan
      have hdeep : b.invokedDepth < 16 := by
        simp only [MacroBuffer.canInvoke, Bool.and_eq_true, decide_eq_true_eq] at hcan
        exact hcan.1
      obtain ⟨h', more, hh', hmore, hdepths, hlt, hr⟩ :=
        @run_bounded i b h terminal D _ hl (ih _ (by omega) (Nat.succ_pos _) hdeep rfl) ⟨macroId, hid⟩ hcan
      refine ⟨{ h' with toMacros := h'.modifyBuffer i MacroBuffer.leave }, ?_, more, hmore, hdepths,
        hlt, hr.leave hdepth⟩
      rintro invoke ⟨fuel, hfuel, rfl⟩
      obtain ⟨fuel, rfl⟩ := Nat.exists_eq_add_one.mpr (show 0 < fuel by omega)
      exact invokeMacro_of_canInvoke hl.buffer hid hcan fuel (hh' _ ⟨fuel, by omega, rfl⟩)
    · refine ⟨h, ?_, Running.bounded ⟨b, .inl hl, rfl, rfl, hlens⟩ hlen rfl⟩
      rintro invoke ⟨fuel, hfuel, rfl⟩
      obtain ⟨fuel, rfl⟩ := Nat.exists_eq_add_one.mpr (show 0 < fuel by omega)
      exact invokeMacro_refused hl.buffer (fun hid hcan' => hcan ⟨hid, hcan'⟩) fuel

theorem invokeMacro_root (hl : Live i b h.toMacros) (hdepth : b.invokedDepth = 0)
    (hlength : b.invokedSequenceLength = 0) (macroId : Nat) :
    ∃ h' fed b', (∀ fuel, invokeMacro terminal D (fuel + 17) i macroId h = some h') ∧
      h'.invocations = h.invocations ++ fed ∧ totalLength fed < maxSpace ∧ (∀ x ∈ fed, x.1 ≤ 16) ∧
      (Live i b' h'.toMacros ∨ Dead i b' h'.toMacros) ∧ b'.invokedDepth = 0 ∧ b'.invokedSequenceLength = 0 := by
  by_cases hcan : ∃ hid : macroId < 64, b.canInvoke ⟨macroId, hid⟩ = true
  · obtain ⟨hid, hcan⟩ := hcan
    obtain ⟨h', fed, hh', hfed, hdepths, hlt, b', hb', hbdepth, hblen, -⟩ := @run_bounded i b h terminal D _ hl
      (invokeMacro_invokes (Nat.succ_pos _) (by omega)) ⟨macroId, hid⟩ hcan
    refine ⟨{ h' with toMacros := h'.modifyBuffer i MacroBuffer.leave }, fed, b'.leave, fun fuel => ?_, hfed, by omega,
      hdepths, ?_, ?_, ?_⟩
    · exact invokeMacro_of_canInvoke hl.buffer hid hcan _ (hh' _ ⟨fuel + 16, by omega, rfl⟩)
    · rcases hb' with hl' | ⟨hd, -⟩
      · exact .inl ⟨getElem?_modifyBuffer hl'.buffer _, hl'.current, hl'.idle⟩
      · exact .inr { hd with buffer := getElem?_modifyBuffer hd.buffer _ }
    · rw [MacroBuffer.leave, hbdepth, hdepth]
    · rw [MacroBuffer.leave, hbdepth, hdepth]
      rfl
  · refine ⟨h, [], b, ?_, (append_nil _).symm, by decide, by simp, .inl hl, hdepth, hlength⟩
    exact fun fuel => invokeMacro_refused hl.buffer (fun hid hcan' => hcan ⟨hid, hcan'⟩) _

end

/-- One DECINVM feeds fewer characters than there is space for, nested at most 16 deep, and ends. -/
theorem invokeMacro_bounded (terminal : Bool) (D : List Call → Reply) (h : MacroHost) (i : Nat) (b : MacroBuffer)
    (macroId : Nat) (hbuffer : h.buffers[i]? = some b) (hcurrent : h.macroBuffer = some i)
    (hidle : h.definesMacro = false) (hdepth : b.invokedDepth = 0) (hlength : b.invokedSequenceLength = 0) :
    ∃ h' fed b', (∀ fuel ≥ 17, invokeMacro terminal D fuel i macroId h = some h') ∧
      h'.invocations = h.invocations ++ fed ∧ totalLength fed < maxSpace ∧ (∀ x ∈ fed, x.1 ≤ 16) ∧
      h'.buffers[i]? = some b' ∧ b'.invokedDepth = 0 ∧ b'.invokedSequenceLength = 0 := by
  obtain ⟨h', fed, b', hh', hfed, hlt, hdepths, hkept, hcounters⟩ :=
    @invokeMacro_root i b h terminal D ⟨hbuffer, hcurrent, hidle⟩ hdepth hlength macroId
  refine ⟨h', fed, b', ?_, hfed, hlt, hdepths, ?_, hcounters⟩
  · intro fuel hfuel
    obtain ⟨more, rfl⟩ := Nat.exists_eq_add_of_le' hfuel
    exact hh' more
  · rcases hkept with hl | hd
    · exact hl.buffer
    · exact hd.buffer

def selfInvoking : MacroHost where
  buffers := [{ macros := fun _ => [ESC, 0x5b, 0x30, 0x2a, 0x7a, ESC, 0x5b, 0x30, 0x2a, 0x7a]
                activeMacroId := Fin.last 63 }]
  macroBuffer := some 0
  machine := StateMachine.new (outputEngine false acceptAll fun _ m => m) false

theorem invokeMacro_bounded_selfInvoking :
    ∃ h' fed b', (∀ fuel ≥ 17, invokeMacro false acceptAll fuel 0 0 selfInvoking = some h') ∧
      h'.invocations = [] ++ fed ∧ totalLength fed < maxSpace ∧ (∀ x ∈ fed, x.1 ≤ 16) ∧
      h'.buffers[0]? = some b' ∧ b'.invokedDepth = 0 ∧ b'.invokedSequenceLength = 0 :=
  invokeMacro_bounded false acceptAll selfInvoking 0 _ 0 rfl rfl rfl rfl rfl

end MacroHost

end Terminal.Adapter
