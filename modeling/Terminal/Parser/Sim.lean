import Terminal.Parser.Acts

/-!
# What a character does depends on the parser's core

The core leaves out the log and what only `ProcessString` and `FlushToTerminal` use. Two machines
with one core that an engine cannot tell apart stay so.
-/

namespace Terminal.Parser

open StateMachine

def StateMachine.core (m : StateMachine) : StateMachine :=
  { m with
    calls := []
    currentString := []
    runOffset := 0
    runSize := none
    cachedSequence := none
    processingIndividually := false
    processingLastCharacter := false }

/-- The engine answers the same after related logs. -/
structure Tracks (E : Engine) (R : List Call → List Call → Prop) : Prop where
  append : ∀ {a b} (c : Call), R a b → R (a ++ [c]) (b ++ [c])
  reply : ∀ {a b} (c : Call), R a b → E.dispatch (a ++ [c]) = E.dispatch (b ++ [c])
  flushes : ∀ c r, E.flushes c r = false
  handler : ∀ h k, (E.dispatch h).handler = some k → k = .engine
  macroText : ∀ h, (E.dispatch h).macroText = none

/-- An output machine on `s`; no part of the engine waits to come back. -/
structure Framed (s : List Wchar) (individually : Bool) (m : StateMachine) : Prop where
  handler : ∀ k, m.dcsStringHandler = some k → k = .engine
  callback : m.onCsiCompleteCallback = none
  string : m.currentString = s
  flag : m.processingIndividually = individually
  output : m.isEngineForInput = false

structure Sim (R : List Call → List Call → Prop) (s : List Wchar) (b : Bool) (m m' : StateMachine) :
    Prop where
  core : m.core = m'.core
  calls : R m.calls m'.calls
  framed : Framed s b m

section

variable {E : Engine} {R : List Call → List Call → Prop} {s : List Wchar} {b : Bool}
  {m m' : StateMachine}

namespace Sim

theorem state (h : Sim R s b m m') : m.state = m'.state := congrArg (·.state) h.core

theorem isEngineForInput (h : Sim R s b m m') : m.isEngineForInput = m'.isEngineForInput :=
  congrArg (·.isEngineForInput) h.core

theorem parserMode (h : Sim R s b m m') : m.parserMode = m'.parserMode := congrArg (·.parserMode) h.core

theorem identifier (h : Sim R s b m m') : m.identifier = m'.identifier := congrArg (·.identifier) h.core

theorem parameters (h : Sim R s b m m') : m.parameters = m'.parameters := congrArg (·.parameters) h.core

theorem oscParameter (h : Sim R s b m m') : m.oscParameter = m'.oscParameter := congrArg (·.oscParameter) h.core

theorem oscString (h : Sim R s b m m') : m.oscString = m'.oscString := congrArg (·.oscString) h.core

theorem dcsStringHandler (h : Sim R s b m m') : m.dcsStringHandler = m'.dcsStringHandler :=
  congrArg (·.dcsStringHandler) h.core

theorem update (h : Sim R s b m m') (f : StateMachine → StateMachine)
    (hcore : ∀ n : StateMachine, (f n).core = (f n.core).core) (hcalls : ∀ n : StateMachine, (f n).calls = n.calls)
    (hun : Framed s b m → Framed s b (f m)) : Sim R s b (f m) (f m') where
  core := by rw [hcore m, hcore m', h.core]
  calls := by rw [hcalls, hcalls]; exact h.calls
  framed := hun h.framed

end Sim

/-! ## Calls -/

theorem call_reply (ht : Tracks E R) (h : Sim R s b m m') (c : Call) :
    (call E c m).1 = (call E c m').1 := ht.reply c h.calls

theorem call_sim (ht : Tracks E R) (h : Sim R s b m m') (c : Call) : Sim R s b (call E c m).2 (call E c m').2 := by
  have hr := ht.reply c h.calls
  have hcore := h.core
  refine ⟨?_, ht.append c h.calls, ⟨h.framed.handler, ?_, h.framed.string, h.framed.flag, h.framed.output⟩⟩
  · simp only [StateMachine.core] at hcore
    simp only [call, StateMachine.core]
    simp_all
  · simp [call, ht.macroText, h.framed.callback]

theorem notify_sim (ht : Tracks E R) (h : Sim R s b m m') (c : Call) : Sim R s b (notify E c m) (notify E c m') := by
  simp only [notify, ht.flushes]
  exact call_sim ht h c

/-! ## Actions and state changes -/

theorem Update.apply_sim (h : Sim R s b m m') (wch : Wchar) (u : Update) :
    Sim R s b (u.apply wch m) (u.apply wch m') := by
  apply h.update (fun n => u.apply wch n)
  · cases u <;> exact fun _ => rfl
  · cases u <;> exact fun _ => rfl
  · cases u <;> exact fun f => { f with }

theorem enter_sim (h : Sim R s b m m') (q : VTStates) : Sim R s b (m.enter q) (m'.enter q) := by
  apply h.update (StateMachine.enter q)
  · cases q <;> exact fun _ => rfl
  · cases q <;> exact fun _ => rfl
  · cases q <;> exact fun f => { f with }

theorem actionClear_sim (ht : Tracks E R) (h : Sim R s b m m') (q : VTStates) :
    Sim R s b (actionClear E { m with state := q }) (actionClear E { m' with state := q }) :=
  notify_sim ht (h.update (fun n => { n with
    state := q, identifier := n.identifier.clear, parameters := [], parameterLimitReached := false
    oscString := [], oscParameter := 0, dcsStringHandler := none })
    (fun _ => rfl) (fun _ => rfl) (fun u => { u with handler := by simp })) _

theorem executeCsiCompleteCallback_sim (h : Sim R s b m m') :
    Sim R s b (executeCsiCompleteCallback E m) (executeCsiCompleteCallback E m') := by
  have hc : m'.onCsiCompleteCallback = none := by
    rw [← h.framed.callback]
    exact congrArg (·.onCsiCompleteCallback) h.core.symm
  unfold executeCsiCompleteCallback
  rw [h.framed.callback, hc]
  exact h

/-! ## The DCS handler -/

theorem installHandler_engine (h : Option StringHandler) (hh : ∀ k, h = some k → k = .engine)
    (n : StateMachine) : installHandler E h n = { n with dcsStringHandler := h } := by
  cases h with
  | none => rfl
  | some k =>
    have hk : k = .engine := hh k rfl
    subst hk
    rfl

theorem actionDcsDispatch_sim (ht : Tracks E R) (h : Sim R s b m m') (wch : Wchar) :
    Sim R s b (actionDcsDispatch E wch m) (actionDcsDispatch E wch m') := by
  simp only [actionDcsDispatch, h.identifier, h.parameters]
  set c := Call.dcsDispatch (m'.identifier.finalize wch) m'.parameters
  rw [call_reply ht h c]
  have hengine : ∀ j, (call E c m').1.handler = some j → j = .engine := fun j hj => ht.handler _ j hj
  generalize (call E c m').1.handler = k at hengine ⊢
  simp only [installHandler_engine k hengine]
  have hs := (call_sim ht h c).update (fun n => { n with dcsStringHandler := k }) (fun _ => rfl)
    (fun _ => rfl) (fun u => { u with handler := hengine })
  split_ifs
  · exact enter_sim hs .dcsPassThrough
  · exact enter_sim hs .dcsIgnore

theorem callStringHandler_sim (ht : Tracks E R) (h : Sim R s b m m') (wch : Wchar) :
    (callStringHandler E wch m).1 = (callStringHandler E wch m').1 ∧
      Sim R s b (callStringHandler E wch m).2 (callStringHandler E wch m').2 := by
  unfold callStringHandler
  rw [← h.dcsStringHandler]
  cases hh : m.dcsStringHandler with
  | none => exact ⟨rfl, h⟩
  | some k =>
    have : k = .engine := h.framed.handler k hh
    subst this
    exact ⟨congrArg (·.success) (call_reply ht h _), call_sim ht h _⟩

theorem actionInterrupt_sim (ht : Tracks E R) (h : Sim R s b m m') :
    Sim R s b (actionInterrupt E m) (actionInterrupt E m') := by
  unfold actionInterrupt
  rw [h.state]
  split_ifs
  · exact (callStringHandler_sim ht h ESC).2.update (fun n => { n with dcsStringHandler := none })
      (fun _ => rfl) (fun _ => rfl) (fun u => { u with handler := by simp })
  · exact h

/-! ## Events -/

theorem Act.run_sim (ht : Tracks E R) (h : Sim R s b m m') (wch : Wchar) (act : Act) :
    Sim R s b (act.run E wch m) (act.run E wch m') := by
  cases act with
  | change u => exact u.apply_sim h wch
  | move u q => exact enter_sim (u.apply_sim h wch) q
  | execute => exact notify_sim ht h _
  | print => exact notify_sim ht h _
  | finish e =>
    have hcall : e.call wch m = e.call wch m' := by
      cases e <;> simp only [Ending.call, h.identifier, h.parameters, h.oscParameter, h.oscString]
    simp only [Act.run, hcall]
    exact enter_sim (notify_sim ht h _) .ground
  | csiDispatch =>
    simp only [Act.run, actionCsiDispatch, h.identifier, h.parameters]
    exact executeCsiCompleteCallback_sim (enter_sim (notify_sim ht h _) .ground)
  | vt52Dispatch =>
    have hput := Update.vt52Param.apply_sim h wch
    simp only [Act.run, actionVt52EscDispatch, hput.identifier, hput.parameters]
    exact enter_sim (notify_sim ht hput _) .ground
  | clear q _ => exact actionClear_sim ht h q
  | dcsDispatch => exact actionDcsDispatch_sim ht h wch
  | put =>
    obtain ⟨hmore, hput⟩ := callStringHandler_sim ht h wch
    simp only [Act.run, hmore]
    split
    · exact hput
    · exact enter_sim hput .dcsIgnore

theorem event_sim (ht : Tracks E R) (h : Sim R s b m m') (wch : Wchar) :
    Sim R s b (event E wch m) (event E wch m') := by
  by_cases hanew : beginsAnew wch m
  · have hanew' : beginsAnew wch m' := ⟨h.state ▸ hanew.1, hanew.2⟩
    have hescape : Sim R s b (enterEscape E m) (enterEscape E m') := actionClear_sim ht h .escape
    have hact : escapeAct wch (enterEscape E m) = escapeAct wch (enterEscape E m') := by
      have hcore := congrArg (escapeAct wch) hescape.core
      exact hcore
    rw [event_beginsAnew E hanew, event_beginsAnew E hanew', eventEscape_eq_run, eventEscape_eq_run, hact]
    exact Act.run_sim ht hescape wch _
  · have hanew' : ¬beginsAnew wch m' := fun h' => hanew ⟨h.state ▸ h'.1, h'.2⟩
    have hact : act wch m = act wch m' := by
      have hcore := congrArg (act wch) h.core
      exact hcore
    rw [event_eq_run E hanew, event_eq_run E hanew', hact]
    exact Act.run_sim ht h wch _

/-! ## Characters -/

theorem processNonC1_sim (ht : Tracks E R) (h : Sim R s b m m') (wch : Wchar) :
    Sim R s b (processNonC1 E wch m) (processNonC1 E wch m') := by
  unfold processNonC1
  rw [h.state, h.isEngineForInput]
  split_ifs
  · exact enter_sim (notify_sim ht (actionInterrupt_sim ht h) _) .ground
  · exact actionClear_sim ht (actionInterrupt_sim ht h) .escape
  · exact event_sim ht h wch

theorem processCharacter_sim (ht : Tracks E R) (h : Sim R s b m m') (wch : Wchar) :
    Sim R s b (processCharacter E wch m) (processCharacter E wch m') := by
  unfold processCharacter
  rw [h.parserMode]
  split_ifs
  · exact processNonC1_sim ht (processNonC1_sim ht h ESC) _
  · exact h
  · exact processNonC1_sim ht h wch

end

end Terminal.Parser
