import Terminal.Parser.StateMachine

/-!
# What an event does, as data

Which act depends on the character, the state and a few fields, never on the engine.
-/

namespace Terminal.Parser

open StateMachine

def resting : VTStates → Bool
  | .ground | .dcsPassThrough | .dcsIgnore | .sosPmApcString => true
  | _ => false

inductive Update
  | keep | collect | param | oscParam | oscPut | vt52Param

def Update.apply (wch : Wchar) (m : StateMachine) : Update → StateMachine
  | keep => m
  | collect => actionCollect wch m
  | param => actionParam wch m
  | oscParam => actionOscParam wch m
  | oscPut => actionOscPut wch m
  | vt52Param => { m with parameters := m.parameters ++ [{ value := wch.toNat }] }

def StateMachine.enter (q : VTStates) (m : StateMachine) : StateMachine :=
  match resting q with
  | true => { m with state := q, cachedSequence := none }
  | false => { m with state := q }

inductive Ending
  | executeFromEscape | escDispatch | vt52EscDispatch | oscDispatch | ss3Dispatch

def Ending.call (wch : Wchar) (m : StateMachine) : Ending → Call
  | executeFromEscape => .executeFromEscape wch
  | escDispatch => .escDispatch (m.identifier.finalize wch)
  | vt52EscDispatch => .vt52EscDispatch (m.identifier.finalize wch) m.parameters
  | oscDispatch => .oscDispatch wch m.oscParameter m.oscString
  | ss3Dispatch => .ss3Dispatch wch m.parameters

inductive Act
  | change (u : Update)
  | move (u : Update) (q : VTStates)
  | execute
  | print
  | finish (e : Ending)
  | csiDispatch
  | vt52Dispatch
  | clear (q : VTStates) (hq : resting q = false)
  | dcsDispatch
  | put

def Act.run (E : Engine) (wch : Wchar) (m : StateMachine) : Act → StateMachine
  | change u => u.apply wch m
  | move u q => (u.apply wch m).enter q
  | execute => actionExecute E wch m
  | print => actionPrint E wch m
  | finish e => enterGround (notify E (e.call wch m) m)
  | csiDispatch => executeCsiCompleteCallback E (enterGround (actionCsiDispatch E wch m))
  | vt52Dispatch => enterGround (actionVt52EscDispatch E 0x59 (Update.vt52Param.apply wch m))
  | clear q _ => actionClear E { m with state := q }
  | dcsDispatch => actionDcsDispatch E wch m
  | put =>
    let (more, m) := callStringHandler E wch m
    if more then m else enterDcsIgnore m

def escapeAct (wch : Wchar) (m : StateMachine) : Act :=
  if isC0Code wch then if m.isEngineForInput then .finish .executeFromEscape else .execute
  else if isDelete wch then .change .keep
  else if isIntermediate wch then
    if m.isEngineForInput then .finish .escDispatch else .move .collect .escapeIntermediate
  else if m.parserMode.ansi then
    if isCsiIndicator wch then .clear .csiEntry rfl
    else if isOscIndicator wch then .move .keep .oscParam
    else if isSs3Indicator wch && m.isEngineForInput then .clear .ss3Entry rfl
    else if isDcsIndicator wch then .clear .dcsEntry rfl
    else if isSosIndicator wch || isPmIndicator wch || isApcIndicator wch then .move .keep .sosPmApcString
    else .finish .escDispatch
  else if isVt52CursorAddress wch then .move .keep .vt52Param
  else .finish .vt52EscDispatch

def act (wch : Wchar) (m : StateMachine) : Act :=
  let isParam := isNumericParamValue wch || isParameterDelimiter wch
  match m.state with
  | .ground => if isC0Code wch || isDelete wch then .execute else .print
  | .escape => escapeAct wch m
  | .escapeIntermediate =>
    if isC0Code wch then .execute
    else if isIntermediate wch then .change .collect
    else if isDelete wch then .change .keep
    else if m.parserMode.ansi then .finish .escDispatch
    else if isVt52CursorAddress wch then .move .keep .vt52Param
    else .finish .vt52EscDispatch
  | .csiEntry =>
    if isC0Code wch then .execute
    else if isDelete wch then .change .keep
    else if isIntermediate wch then .move .collect .csiIntermediate
    else if isCsiInvalid wch then .move .keep .csiIgnore
    else if isParam then .move .param .csiParam
    else if isCsiPrivateMarker wch then .move .collect .csiParam
    else .csiDispatch
  | .csiIntermediate =>
    if isC0Code wch then .execute
    else if isIntermediate wch then .change .collect
    else if isDelete wch then .change .keep
    else if isIntermediateInvalid wch then .move .keep .csiIgnore
    else .csiDispatch
  | .csiIgnore =>
    if isC0Code wch then .execute
    else if isDelete wch then .change .keep
    else if isIntermediate wch then .change .keep
    else if isIntermediateInvalid wch then .change .keep
    else .move .keep .ground
  | .csiParam =>
    if isC0Code wch then .execute
    else if isDelete wch then .change .keep
    else if isParam then .change .param
    else if isIntermediate wch then .move .collect .csiIntermediate
    else if isParameterInvalid wch then .move .keep .csiIgnore
    else .csiDispatch
  | .oscParam =>
    if isOscTerminator wch then .move .keep .ground
    else if isNumericParamValue wch then .change .oscParam
    else if isOscDelimiter wch then .move .keep .oscString
    else .change .keep
  | .oscString =>
    if isOscTerminator wch then .finish .oscDispatch
    else if isEscape wch then .move .keep .oscTermination
    else if isOscInvalid wch then .change .keep
    else .change .oscPut
  | .oscTermination => .finish .oscDispatch
  | .ss3Entry =>
    if isC0Code wch then .execute
    else if isDelete wch then .change .keep
    else if isCsiInvalid wch then .move .keep .csiIgnore
    else if isParam then .move .param .ss3Param
    else .finish .ss3Dispatch
  | .ss3Param =>
    if isC0Code wch then .execute
    else if isDelete wch then .change .keep
    else if isParam then .change .param
    else if isParameterInvalid wch then .move .keep .csiIgnore
    else .finish .ss3Dispatch
  | .vt52Param =>
    if isC0Code wch then .execute
    else if isDelete wch then .change .keep
    else if m.parameters.length = 1 then .vt52Dispatch
    else .change .vt52Param
  | .dcsEntry =>
    if isC0Code wch then .change .keep
    else if isDelete wch then .change .keep
    else if isCsiInvalid wch then .move .keep .dcsIgnore
    else if isParam then .move .param .dcsParam
    else if isIntermediate wch then .move .collect .dcsIntermediate
    else .dcsDispatch
  | .dcsIgnore | .sosPmApcString => .change .keep
  | .dcsIntermediate =>
    if isC0Code wch then .change .keep
    else if isDelete wch then .change .keep
    else if isIntermediate wch then .change .collect
    else if isIntermediateInvalid wch then .move .keep .dcsIgnore
    else .dcsDispatch
  | .dcsParam =>
    if isParam then .change .param
    else if isIntermediate wch then .move .collect .dcsIntermediate
    else if isParameterInvalid wch then .move .keep .dcsIgnore
    else .dcsDispatch
  | .dcsPassThrough => if isC0Code wch || isDcsPassThroughValid wch then .put else .change .keep

/-- After an ESC in an OSC string, what does not end it begins anew. -/
def beginsAnew (wch : Wchar) (m : StateMachine) : Prop :=
  m.state = .oscTermination ∧ isStringTerminatorIndicator wch = false

section

variable (E : Engine) {wch : Wchar} {m : StateMachine}

theorem eventEscape_eq_run (wch : Wchar) (m : StateMachine) : eventEscape E wch m = (escapeAct wch m).run E wch m := by
  simp only [escapeAct, apply_ite (Act.run E wch m)]
  rfl

theorem event_eq_run (h : ¬beginsAnew wch m) : event E wch m = (act wch m).run E wch m := by
  unfold event act
  cases hs : m.state with
  | escape => exact eventEscape_eq_run E wch m
  | oscTermination => exact if_pos (by simpa [beginsAnew, hs] using h)
  | vt52Param =>
    simp only [eventVt52Param, apply_ite (Act.run E wch m), List.length_append, List.length_singleton, Nat.reduceEqDiff]
    rfl
  | dcsIgnore => rfl
  | dcsParam =>
    simp only [eventDcsParam, actionIgnore, ite_self, apply_ite (Act.run E wch m)]
    rfl
  | sosPmApcString => rfl
  | _ =>
    simp only [apply_ite (Act.run E wch m)]
    rfl

theorem event_beginsAnew (h : beginsAnew wch m) : event E wch m = eventEscape E wch (enterEscape E m) := by
  unfold event
  rw [h.1]
  exact if_neg (by simp [h.2])

theorem event_of_run {P : StateMachine → Prop} (hrun : ¬beginsAnew wch m → P ((act wch m).run E wch m))
    (hanew : beginsAnew wch m → P ((escapeAct wch (enterEscape E m)).run E wch (enterEscape E m))) :
    P (event E wch m) := by
  by_cases h : beginsAnew wch m
  · rw [event_beginsAnew E h, eventEscape_eq_run]
    exact hanew h
  · rw [event_eq_run E h]
    exact hrun h

end

end Terminal.Parser
