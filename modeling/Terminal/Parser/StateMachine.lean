import Terminal.Parser.DispatchTypes

/-!
# The state machine (`stateMachine.cpp`)

A member function becomes a function on the whole machine. The engine answers each call from the
calls made so far.
-/

namespace Terminal.Parser

def maxParameterValue : Int := 65535

def maxParameterCount : Nat := 32

/-! ## State -/

inductive VTStates
  | ground | escape | escapeIntermediate
  | csiEntry | csiIntermediate | csiIgnore | csiParam
  | oscParam | oscString | oscTermination
  | ss3Entry | ss3Param | vt52Param
  | dcsEntry | dcsIgnore | dcsIntermediate | dcsParam | dcsPassThrough
  | sosPmApcString
deriving DecidableEq, Repr

inductive Mode
  | acceptC1 | alwaysAcceptC1 | ansi
deriving DecidableEq, Repr

structure ParserMode where
  acceptC1 : Bool := false
  alwaysAcceptC1 : Bool := false
  ansi : Bool := true
deriving DecidableEq, Repr

def ParserMode.set (pm : ParserMode) : Mode × Bool → ParserMode
  | (.acceptC1, enabled) => { pm with acceptC1 := enabled }
  | (.alwaysAcceptC1, enabled) => { pm with alwaysAcceptC1 := enabled }
  | (.ansi, enabled) => { pm with ansi := enabled }

def ParserMode.parsesC1 (pm : ParserMode) : Bool := pm.acceptC1 || pm.alwaysAcceptC1

/-- `stringHandler` is a call of the handler of `dcsDispatch`. -/
inductive Call
  | execute (wch : Wchar)
  | executeFromEscape (wch : Wchar)
  | print (wch : Wchar)
  | printString (string : List Wchar)
  | passThroughString (string : List Wchar)
  | escDispatch (id : VTID)
  | vt52EscDispatch (id : VTID) (parameters : VTParameters)
  | csiDispatch (id : VTID) (parameters : VTParameters)
  | dcsDispatch (id : VTID) (parameters : VTParameters)
  | stringHandler (wch : Wchar)
  | clear
  | oscDispatch (wch : Wchar) (parameter : Int) (string : List Wchar)
  | ss3Dispatch (wch : Wchar) (parameters : VTParameters)
deriving DecidableEq, Repr

/-- What the returned DCS handler does with the data string. -/
inductive StringHandler
  /-- It keeps the data in the engine. -/
  | engine
  /-- `AdaptDispatch::_CreatePassthroughHandler` -/
  | passthrough (buffer : List Wchar)
  /-- `AdaptDispatch::_CreateDrcsPassthroughHandler`, for `DownloadDRCS` -/
  | drcs (charset96 gotId : Bool) (buffer : List Wchar)
deriving DecidableEq, Repr

structure StateMachine where
  isEngineForInput : Bool
  state : VTStates := .ground
  parserMode : ParserMode := {}
  currentString : List Wchar := []
  runOffset : Nat := 0
  /-- `none` is `npos`. -/
  runSize : Option Nat := some 0
  identifier : VTIDBuilder := {}
  parameters : VTParameters := []
  parameterLimitReached : Bool := false
  oscString : List Wchar := []
  oscParameter : Int := 0
  dcsStringHandler : Option StringHandler := none
  cachedSequence : Option (List Wchar) := none
  processingIndividually : Bool := false
  processingLastCharacter : Bool := false
  /-- The text that the callback will feed to `ProcessString`. -/
  onCsiCompleteCallback : Option (List Wchar) := none
  calls : List Call := []
deriving DecidableEq, Repr

structure Reply where
  success : Bool := true
  modes : List (Mode × Bool) := []
  handler : Option StringHandler := some .engine
  macroText : Option (List Wchar) := none
deriving DecidableEq, Repr

structure Engine where
  dispatch : List Call → Reply
  /-- Whether the engine calls `FlushToTerminal` before it returns. -/
  flushes : Call → Reply → Bool
  /-- What the registered callback does to the machine with its text. -/
  inject : List Wchar → StateMachine → StateMachine

namespace StateMachine

variable (E : Engine) (wch : Wchar) (m : StateMachine)

def currentRun : List Wchar :=
  match m.runSize with
  | some n => (m.currentString.drop m.runOffset).take n
  | none => m.currentString.drop m.runOffset

def setParserMode (mode : Mode) (enabled : Bool) (m : StateMachine) : StateMachine :=
  { m with parserMode := m.parserMode.set (mode, enabled) }

/-! ## Calling the engine -/

def call (E : Engine) (c : Call) (m : StateMachine) : Reply × StateMachine :=
  let calls := m.calls ++ [c]
  let r := E.dispatch calls
  (r, { m with
    calls := calls
    parserMode := r.modes.foldl ParserMode.set m.parserMode
    onCsiCompleteCallback := r.macroText.or m.onCsiCompleteCallback })

def flushToTerminal : Bool × StateMachine :=
  let (success, m) :=
    match m.cachedSequence with
    | some cached =>
      let (r, m) := call E (.passThroughString cached) m
      (r.success, { m with cachedSequence := none })
    | none => (true, m)
  if success then
    let (r, m) := call E (.passThroughString m.currentRun) m
    (r.success, m)
  else (false, m)

/-- A call that may come back through `FlushToTerminal`. -/
def notify (E : Engine) (c : Call) (m : StateMachine) : StateMachine :=
  let (r, m) := call E c m
  if E.flushes c r then (flushToTerminal E m).2 else m

/-! ## Actions -/

def actionExecute : StateMachine :=
  notify E (.execute wch) m

def actionExecuteFromEscape : StateMachine :=
  notify E (.executeFromEscape wch) m

def actionPrint : StateMachine :=
  notify E (.print wch) m

def actionPrintString (E : Engine) (string : List Wchar) (m : StateMachine) : StateMachine :=
  notify E (.printString string) m

def actionEscDispatch : StateMachine :=
  notify E (.escDispatch (m.identifier.finalize wch)) m

def actionVt52EscDispatch : StateMachine :=
  notify E (.vt52EscDispatch (m.identifier.finalize wch) m.parameters) m

def actionCsiDispatch : StateMachine :=
  notify E (.csiDispatch (m.identifier.finalize wch) m.parameters) m

def actionCollect : StateMachine :=
  { m with identifier := m.identifier.addIntermediate wch }

def accumulateTo (wch : Wchar) (value : Int) : Int :=
  let digit : Int := wch.toNat - 0x30
  let value := value * 10 + digit
  if value > maxParameterValue then maxParameterValue else value

def accumulateLast (wch : Wchar) (parameters : VTParameters) : VTParameters :=
  let currentParameter := (parameters.getLastD {}).valueOr 0
  parameters.dropLast ++ [{ value := accumulateTo wch currentParameter }]

def nextParams (wch : Wchar) (parameters : VTParameters) (limitReached : Bool) : VTParameters × Bool :=
  if limitReached then (parameters, true)
  else
    let parameters := if parameters.isEmpty then [({} : VTParameter)] else parameters
    if isParameterDelimiter wch then
      if parameters.length ≥ maxParameterCount then (parameters, true)
      else (parameters ++ [({} : VTParameter)], false)
    else (accumulateLast wch parameters, false)

def actionParam : StateMachine :=
  { m with
    parameters := (nextParams wch m.parameters m.parameterLimitReached).1
    parameterLimitReached := (nextParams wch m.parameters m.parameterLimitReached).2 }

def actionClear : StateMachine :=
  notify E .clear { m with
    identifier := m.identifier.clear
    parameters := []
    parameterLimitReached := false
    oscString := []
    oscParameter := 0
    dcsStringHandler := none }

def actionIgnore : StateMachine := m

def actionOscParam : StateMachine :=
  { m with oscParameter := accumulateTo wch m.oscParameter }

def actionOscPut : StateMachine :=
  { m with oscString := m.oscString ++ [wch] }

def actionOscDispatch : StateMachine :=
  notify E (.oscDispatch wch m.oscParameter m.oscString) m

def actionSs3Dispatch : StateMachine :=
  notify E (.ss3Dispatch wch m.parameters) m

/-! ## DCS string handlers -/

def passthroughPut (E : Engine) (wch : Wchar) (buffer : List Wchar) (m : StateMachine) :
    Bool × List Wchar × StateMachine :=
  let endOfString := isEscape wch
  let buffer := buffer ++ [wch]
  if buffer.length ≥ 4096 || m.processingLastCharacter || endOfString then
    let buffer := if endOfString then buffer ++ [0x5C] else buffer
    (!endOfString, [], (call E (.passThroughString buffer) m).2)
  else (!endOfString, buffer, m)

/-- `ESC - @` or `ESC ) @`, which maps the downloaded set into G1. -/
def scsSequence (charset96 : Bool) : List Wchar := [ESC, if charset96 then 0x2D else 0x29, 0x40]

def drcsPut (E : Engine) (wch : Wchar) (charset96 gotId : Bool) (buffer : List Wchar)
    (m : StateMachine) : StringHandler × StateMachine :=
  if !gotId then
    if 0x30 ≤ wch.toNat && wch.toNat ≤ 0x7E then
      let (_, buffer, m) := passthroughPut E 0x40 buffer m
      (.drcs charset96 true buffer, m)
    else (.drcs charset96 gotId buffer, m)
  else
    let (more, buffer, m) := passthroughPut E wch buffer m
    let m := if more then m else (call E (.passThroughString (scsSequence charset96)) m).2
    (.drcs charset96 gotId buffer, m)

def callStringHandler : Bool × StateMachine :=
  match m.dcsStringHandler with
  | none => (true, m)
  | some .engine =>
    let (r, m) := call E (.stringHandler wch) m
    (r.success, m)
  | some (.passthrough buffer) =>
    let (more, buffer, m) := passthroughPut E wch buffer m
    (more, { m with dcsStringHandler := some (.passthrough buffer) })
  | some (.drcs charset96 gotId buffer) =>
    let (handler, m) := drcsPut E wch charset96 gotId buffer m
    let (_, m) := call E (.stringHandler wch) { m with dcsStringHandler := some handler }
    (true, m)

def actionInterrupt : StateMachine :=
  if m.state = .dcsPassThrough then
    { (callStringHandler E ESC m).2 with dcsStringHandler := none }
  else m

/-! ## State changes -/

def enterGround : StateMachine :=
  { m with state := .ground, cachedSequence := none }

def enterEscape : StateMachine :=
  actionClear E { m with state := .escape }

def enterEscapeIntermediate : StateMachine :=
  { m with state := .escapeIntermediate }

def enterCsiEntry : StateMachine :=
  actionClear E { m with state := .csiEntry }

def enterCsiParam : StateMachine := { m with state := .csiParam }

def enterCsiIgnore : StateMachine := { m with state := .csiIgnore }

def enterCsiIntermediate : StateMachine := { m with state := .csiIntermediate }

def enterOscParam : StateMachine := { m with state := .oscParam }

def enterOscString : StateMachine := { m with state := .oscString }

def enterOscTermination : StateMachine := { m with state := .oscTermination }

def enterSs3Entry : StateMachine :=
  actionClear E { m with state := .ss3Entry }

def enterSs3Param : StateMachine := { m with state := .ss3Param }

def enterVt52Param : StateMachine := { m with state := .vt52Param }

def enterDcsEntry : StateMachine :=
  actionClear E { m with state := .dcsEntry }

def enterDcsParam : StateMachine := { m with state := .dcsParam }

def enterDcsIgnore : StateMachine :=
  { m with state := .dcsIgnore, cachedSequence := none }

def enterDcsIntermediate : StateMachine := { m with state := .dcsIntermediate }

def enterDcsPassThrough : StateMachine :=
  { m with state := .dcsPassThrough, cachedSequence := none }

def enterSosPmApcString : StateMachine :=
  { m with state := .sosPmApcString, cachedSequence := none }

/-- A pass-through handler is only made when the introducer could be flushed. -/
def installHandler (E : Engine) : Option StringHandler → StateMachine → StateMachine
  | none, m => { m with dcsStringHandler := none }
  | some .engine, m => { m with dcsStringHandler := some .engine }
  | some (.passthrough _), m =>
    let (success, m) := flushToTerminal E m
    { m with dcsStringHandler := if success then some (.passthrough []) else none }
  | some (.drcs charset96 _ _), m =>
    let (success, m) := flushToTerminal E m
    { m with dcsStringHandler := some (if success then .drcs charset96 false [] else .engine) }

def actionDcsDispatch : StateMachine :=
  let (r, m) := call E (.dcsDispatch (m.identifier.finalize wch) m.parameters) m
  let m := installHandler E r.handler m
  if m.dcsStringHandler.isSome then enterDcsPassThrough m else enterDcsIgnore m

/-- The string being processed is put back after the callback. -/
def executeCsiCompleteCallback : StateMachine :=
  match m.onCsiCompleteCallback with
  | none => m
  | some text =>
    { E.inject text { m with onCsiCompleteCallback := none } with
      currentString := m.currentString
      runOffset := m.runOffset
      runSize := m.runSize }

/-! ## Events -/

def eventGround : StateMachine :=
  if isC0Code wch || isDelete wch then actionExecute E wch m
  else actionPrint E wch m

def eventEscape : StateMachine :=
  if isC0Code wch then
    if m.isEngineForInput then enterGround (actionExecuteFromEscape E wch m)
    else actionExecute E wch m
  else if isDelete wch then actionIgnore m
  else if isIntermediate wch then
    if m.isEngineForInput then enterGround (actionEscDispatch E wch m)
    else enterEscapeIntermediate (actionCollect wch m)
  else if m.parserMode.ansi then
    if isCsiIndicator wch then enterCsiEntry E m
    else if isOscIndicator wch then enterOscParam m
    else if isSs3Indicator wch && m.isEngineForInput then enterSs3Entry E m
    else if isDcsIndicator wch then enterDcsEntry E m
    else if isSosIndicator wch || isPmIndicator wch || isApcIndicator wch then enterSosPmApcString m
    else enterGround (actionEscDispatch E wch m)
  else if isVt52CursorAddress wch then enterVt52Param m
  else enterGround (actionVt52EscDispatch E wch m)

def eventEscapeIntermediate : StateMachine :=
  if isC0Code wch then actionExecute E wch m
  else if isIntermediate wch then actionCollect wch m
  else if isDelete wch then actionIgnore m
  else if m.parserMode.ansi then enterGround (actionEscDispatch E wch m)
  else if isVt52CursorAddress wch then enterVt52Param m
  else enterGround (actionVt52EscDispatch E wch m)

def eventCsiEntry : StateMachine :=
  if isC0Code wch then actionExecute E wch m
  else if isDelete wch then actionIgnore m
  else if isIntermediate wch then enterCsiIntermediate (actionCollect wch m)
  else if isCsiInvalid wch then enterCsiIgnore m
  else if isNumericParamValue wch || isParameterDelimiter wch then enterCsiParam (actionParam wch m)
  else if isCsiPrivateMarker wch then enterCsiParam (actionCollect wch m)
  else executeCsiCompleteCallback E (enterGround (actionCsiDispatch E wch m))

def eventCsiIntermediate : StateMachine :=
  if isC0Code wch then actionExecute E wch m
  else if isIntermediate wch then actionCollect wch m
  else if isDelete wch then actionIgnore m
  else if isIntermediateInvalid wch then enterCsiIgnore m
  else executeCsiCompleteCallback E (enterGround (actionCsiDispatch E wch m))

def eventCsiIgnore : StateMachine :=
  if isC0Code wch then actionExecute E wch m
  else if isDelete wch then actionIgnore m
  else if isIntermediate wch then actionIgnore m
  else if isIntermediateInvalid wch then actionIgnore m
  else enterGround m

def eventCsiParam : StateMachine :=
  if isC0Code wch then actionExecute E wch m
  else if isDelete wch then actionIgnore m
  else if isNumericParamValue wch || isParameterDelimiter wch then actionParam wch m
  else if isIntermediate wch then enterCsiIntermediate (actionCollect wch m)
  else if isParameterInvalid wch then enterCsiIgnore m
  else executeCsiCompleteCallback E (enterGround (actionCsiDispatch E wch m))

def eventOscParam : StateMachine :=
  if isOscTerminator wch then enterGround m
  else if isNumericParamValue wch then actionOscParam wch m
  else if isOscDelimiter wch then enterOscString m
  else actionIgnore m

def eventOscString : StateMachine :=
  if isOscTerminator wch then enterGround (actionOscDispatch E wch m)
  else if isEscape wch then enterOscTermination m
  else if isOscInvalid wch then actionIgnore m
  else actionOscPut wch m

def eventOscTermination : StateMachine :=
  if isStringTerminatorIndicator wch then enterGround (actionOscDispatch E wch m)
  else eventEscape E wch (enterEscape E m)

def eventSs3Entry : StateMachine :=
  if isC0Code wch then actionExecute E wch m
  else if isDelete wch then actionIgnore m
  else if isCsiInvalid wch then enterCsiIgnore m
  else if isNumericParamValue wch || isParameterDelimiter wch then enterSs3Param (actionParam wch m)
  else enterGround (actionSs3Dispatch E wch m)

def eventSs3Param : StateMachine :=
  if isC0Code wch then actionExecute E wch m
  else if isDelete wch then actionIgnore m
  else if isNumericParamValue wch || isParameterDelimiter wch then actionParam wch m
  else if isParameterInvalid wch then enterCsiIgnore m
  else enterGround (actionSs3Dispatch E wch m)

def eventVt52Param : StateMachine :=
  if isC0Code wch then actionExecute E wch m
  else if isDelete wch then actionIgnore m
  else
    let m := { m with parameters := m.parameters ++ [{ value := wch.toNat }] }
    if m.parameters.length = 2 then enterGround (actionVt52EscDispatch E 0x59 m) else m

def eventDcsEntry : StateMachine :=
  if isC0Code wch then actionIgnore m
  else if isDelete wch then actionIgnore m
  else if isCsiInvalid wch then enterDcsIgnore m
  else if isNumericParamValue wch || isParameterDelimiter wch then enterDcsParam (actionParam wch m)
  else if isIntermediate wch then enterDcsIntermediate (actionCollect wch m)
  else actionDcsDispatch E wch m

def eventDcsIgnore : StateMachine := actionIgnore m

def eventDcsIntermediate : StateMachine :=
  if isC0Code wch then actionIgnore m
  else if isDelete wch then actionIgnore m
  else if isIntermediate wch then actionCollect wch m
  else if isIntermediateInvalid wch then enterDcsIgnore m
  else actionDcsDispatch E wch m

/-- The second `if` is no `else if`. -/
def eventDcsParam : StateMachine :=
  let m := if isC0Code wch then actionIgnore m else if isDelete wch then actionIgnore m else m
  if isNumericParamValue wch || isParameterDelimiter wch then actionParam wch m
  else if isIntermediate wch then enterDcsIntermediate (actionCollect wch m)
  else if isParameterInvalid wch then enterDcsIgnore m
  else actionDcsDispatch E wch m

def eventDcsPassThrough : StateMachine :=
  if isC0Code wch || isDcsPassThroughValid wch then
    let (more, m) := callStringHandler E wch m
    if more then m else enterDcsIgnore m
  else actionIgnore m

def eventSosPmApcString : StateMachine := actionIgnore m

/-! ## Characters -/

def event : StateMachine :=
  match m.state with
  | .ground => eventGround E wch m
  | .escape => eventEscape E wch m
  | .escapeIntermediate => eventEscapeIntermediate E wch m
  | .csiEntry => eventCsiEntry E wch m
  | .csiIntermediate => eventCsiIntermediate E wch m
  | .csiIgnore => eventCsiIgnore E wch m
  | .csiParam => eventCsiParam E wch m
  | .oscParam => eventOscParam wch m
  | .oscString => eventOscString E wch m
  | .oscTermination => eventOscTermination E wch m
  | .ss3Entry => eventSs3Entry E wch m
  | .ss3Param => eventSs3Param E wch m
  | .vt52Param => eventVt52Param E wch m
  | .dcsEntry => eventDcsEntry E wch m
  | .dcsIgnore => eventDcsIgnore m
  | .dcsIntermediate => eventDcsIntermediate E wch m
  | .dcsParam => eventDcsParam E wch m
  | .dcsPassThrough => eventDcsPassThrough E wch m
  | .sosPmApcString => eventSosPmApcString m

def processNonC1 : StateMachine :=
  if isFromAnywhereChar wch && !(m.state = .escape && m.isEngineForInput) then
    enterGround (actionExecute E wch (actionInterrupt E m))
  else if isEscape wch && m.state != .oscString then enterEscape E (actionInterrupt E m)
  else event E wch m

/-- A C1 control is ESC and its 7-bit form, which is no C1 control. -/
def processCharacter : StateMachine :=
  if isC1ControlCharacter wch then
    if m.parserMode.parsesC1 then processNonC1 E (c1To7Bit wch) (processNonC1 E ESC m) else m
  else processNonC1 E wch m

def resetState : StateMachine := enterGround m

/-! ## Strings -/

def processIndividually (E : Engine) (wch : Wchar) (last : Bool) (start current : Nat)
    (m : StateMachine) : Nat × StateMachine :=
  let m := processCharacter E wch { m with
    runOffset := start
    runSize := some (current - start + 1)
    processingLastCharacter := last }
  if m.state = .ground then (current + 1, { m with processingIndividually := false })
  else (start, m)

/-- The body of the loop of `ProcessString`; the new start of the run. -/
def turn (E : Engine) (wch : Wchar) (last : Bool) (start current : Nat) (m : StateMachine) :
    Nat × StateMachine :=
  let m := { m with runOffset := start, runSize := some (current - start + 1) }
  if m.processingIndividually then processIndividually E wch last start current m
  else if isActionableFromGround wch then
    -- The run includes the current character, which is trimmed off before printing.
    let m := { m with runSize := some (current - start) }
    let m := { actionPrintString E m.currentRun m with processingIndividually := true }
    processIndividually E wch last current current m
  else (start, m)

/-- The loop, over the characters from `current` on. Returns `start`. -/
def processLoop (E : Engine) : List Wchar → Nat → Nat → StateMachine → Nat × StateMachine
  | [], start, _, m => (start, m)
  | wch :: rest, start, current, m =>
    let (start, m) := turn E wch rest.isEmpty start current m
    processLoop E rest start (current + 1) m

def dispatchLast : StateMachine :=
  match m.state with
  | .ground => actionExecute E wch m
  | .escape | .escapeIntermediate => actionEscDispatch E wch m
  | .csiEntry | .csiIntermediate | .csiIgnore | .csiParam => actionCsiDispatch E wch m
  | .oscParam | .oscString | .oscTermination => actionOscDispatch E wch m
  | .ss3Entry | .ss3Param => actionSs3Dispatch E wch m
  | _ => m

/-- An unfinished run is processed again, up to its last character. -/
def flushInput (E : Engine) (run : List Wchar) (m : StateMachine) : StateMachine :=
  match run.getLast? with
  | none => m
  | some last =>
    let m := { resetState m with processingLastCharacter := false }
    let m := run.dropLast.foldl (fun m wch => processCharacter E wch m) m
    enterGround (dispatchLast E last { m with processingLastCharacter := true })

def finishRun (start : Nat) (m : StateMachine) : StateMachine :=
  if start < m.currentString.length then { m with runOffset := start, runSize := none }
  else { m with runSize := some 0 }

def finishString (E : Engine) (start : Nat) (m : StateMachine) : StateMachine :=
  let m := finishRun start m
  let run := m.currentRun
  if !m.processingIndividually && !run.isEmpty then actionPrintString E run m
  else if m.processingIndividually then
    if m.isEngineForInput then flushInput E run m
    else if m.state != .sosPmApcString && m.state != .dcsPassThrough && m.state != .dcsIgnore then
      { m with cachedSequence := some (m.cachedSequence.getD [] ++ run) }
    else m
  else m

def processString (E : Engine) (string : List Wchar) (m : StateMachine) : StateMachine :=
  let (start, m) := processLoop E string 0 0
    { m with currentString := string, runOffset := 0, runSize := some 0 }
  finishString E start m

def new (E : Engine) (isEngineForInput : Bool) : StateMachine :=
  actionClear E { isEngineForInput := isEngineForInput }

end StateMachine

/-! ## The output engine -/

/-- `OutputStateMachineEngine`. A terminal gets BEL and what was not handled. -/
def outputEngine (terminal : Bool) (dispatcher : List Call → Reply)
    (inject : List Wchar → StateMachine → StateMachine) : Engine where
  dispatch calls :=
    match calls.getLast? with
    | some (.escDispatch id) => if id = VTID.fromString ['\\'] then {} else dispatcher calls
    | some (.vt52EscDispatch _ _) | some (.csiDispatch _ _) => dispatcher calls
    | some (.oscDispatch _ _ _) | some (.stringHandler _) => { success := (dispatcher calls).success }
    | some (.dcsDispatch _ _) => { handler := (dispatcher calls).handler }
    | some (.passThroughString _) => { success := !terminal || (dispatcher calls).success }
    | some (.ss3Dispatch _ _) => { success := false }
    | _ => {}
  flushes c r := terminal &&
      match c with
      | .execute wch => wch == BEL
      | .escDispatch _ | .csiDispatch _ _ | .oscDispatch _ _ _ => !r.success
      | _ => false
  inject := inject

end Terminal.Parser
