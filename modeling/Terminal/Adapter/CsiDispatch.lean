import Terminal.Adapter.Graphics
import Terminal.Parser.StateMachine

/-!
# Control sequences (`OutputStateMachineEngine.cpp`, `adaptDispatch.cpp`)

The functions of `AdaptDispatch` that get a view of the parameters are modelled; the others are
left to the host.
-/

namespace Terminal.Adapter

open Terminal.Parser Terminal.Buffer VTID Option

/-! ## Codes -/

inductive CsiActionCodes
  | ichInsertCharacter | cuuCursorUp | cudCursorDown | cufCursorForward | cubCursorBackward
  | cnlCursorNextLine | cplCursorPrevLine | chaCursorHorizontalAbsolute | cupCursorPosition
  | chtCursorForwardTab | edEraseDisplay | decsedSelectiveEraseDisplay | elEraseLine
  | decselSelectiveEraseLine | ilInsertLine | dlDeleteLine | dchDeleteCharacter | suScrollUp
  | sdScrollDown | echEraseCharacters | cbtCursorBackTab | hpaHorizontalPositionAbsolute
  | hprHorizontalPositionRelative | repRepeatCharacter | daDeviceAttributes
  | da2SecondaryDeviceAttributes | da3TertiaryDeviceAttributes | vpaVerticalLinePositionAbsolute
  | vprVerticalPositionRelative | hvpHorizontalVerticalPosition | tbcTabClear | smSetMode
  | decsetPrivateModeSet | rmResetMode | decrstPrivateModeReset | sgrSetGraphicsRendition
  | dsrDeviceStatusReport | dsrPrivateDeviceStatusReport | decstbmSetScrollingRegion
  | ansisysscCursorSave | dttermWindowManipulation | ansisysrcCursorRestore
  | decreqtparmRequestTerminalParameters | decscusrSetCursorStyle | decstrSoftReset
  | decscaSetCharacterProtectionAttribute | xtPushSgrAlias | xtPopSgrAlias | xtPushSgr | xtPopSgr
  | decrqmRequestMode | decrqmPrivateRequestMode | deccaraChangeAttributesRectangularArea
  | decraraReverseAttributesRectangularArea | deccraCopyRectangularArea | decfraFillRectangularArea
  | deceraEraseRectangularArea | decseraSelectiveEraseRectangularArea | decscppSetColumnsPerPage
  | decsaceSelectAttributeChangeExtent | decinvmInvokeMacro | decacAssignColor | decpsPlaySound
deriving DecidableEq, Repr

namespace CsiActionCodes

def code : CsiActionCodes → VTID
  | .ichInsertCharacter => fromString ['@']
  | .cuuCursorUp => fromString ['A']
  | .cudCursorDown => fromString ['B']
  | .cufCursorForward => fromString ['C']
  | .cubCursorBackward => fromString ['D']
  | .cnlCursorNextLine => fromString ['E']
  | .cplCursorPrevLine => fromString ['F']
  | .chaCursorHorizontalAbsolute => fromString ['G']
  | .cupCursorPosition => fromString ['H']
  | .chtCursorForwardTab => fromString ['I']
  | .edEraseDisplay => fromString ['J']
  | .decsedSelectiveEraseDisplay => fromString ['?', 'J']
  | .elEraseLine => fromString ['K']
  | .decselSelectiveEraseLine => fromString ['?', 'K']
  | .ilInsertLine => fromString ['L']
  | .dlDeleteLine => fromString ['M']
  | .dchDeleteCharacter => fromString ['P']
  | .suScrollUp => fromString ['S']
  | .sdScrollDown => fromString ['T']
  | .echEraseCharacters => fromString ['X']
  | .cbtCursorBackTab => fromString ['Z']
  | .hpaHorizontalPositionAbsolute => fromString ['\x60']
  | .hprHorizontalPositionRelative => fromString ['a']
  | .repRepeatCharacter => fromString ['b']
  | .daDeviceAttributes => fromString ['c']
  | .da2SecondaryDeviceAttributes => fromString ['>', 'c']
  | .da3TertiaryDeviceAttributes => fromString ['=', 'c']
  | .vpaVerticalLinePositionAbsolute => fromString ['d']
  | .vprVerticalPositionRelative => fromString ['e']
  | .hvpHorizontalVerticalPosition => fromString ['f']
  | .tbcTabClear => fromString ['g']
  | .smSetMode => fromString ['h']
  | .decsetPrivateModeSet => fromString ['?', 'h']
  | .rmResetMode => fromString ['l']
  | .decrstPrivateModeReset => fromString ['?', 'l']
  | .sgrSetGraphicsRendition => fromString ['m']
  | .dsrDeviceStatusReport => fromString ['n']
  | .dsrPrivateDeviceStatusReport => fromString ['?', 'n']
  | .decstbmSetScrollingRegion => fromString ['r']
  | .ansisysscCursorSave => fromString ['s']
  | .dttermWindowManipulation => fromString ['t']
  | .ansisysrcCursorRestore => fromString ['u']
  | .decreqtparmRequestTerminalParameters => fromString ['x']
  | .decscusrSetCursorStyle => fromString [' ', 'q']
  | .decstrSoftReset => fromString ['!', 'p']
  | .decscaSetCharacterProtectionAttribute => fromString ['\x22', 'q']
  | .xtPushSgrAlias => fromString ['#', 'p']
  | .xtPopSgrAlias => fromString ['#', 'q']
  | .xtPushSgr => fromString ['#', '\x7b']
  | .xtPopSgr => fromString ['#', '\x7d']
  | .decrqmRequestMode => fromString ['$', 'p']
  | .decrqmPrivateRequestMode => fromString ['?', '$', 'p']
  | .deccaraChangeAttributesRectangularArea => fromString ['$', 'r']
  | .decraraReverseAttributesRectangularArea => fromString ['$', 't']
  | .deccraCopyRectangularArea => fromString ['$', 'v']
  | .decfraFillRectangularArea => fromString ['$', 'x']
  | .deceraEraseRectangularArea => fromString ['$', 'z']
  | .decseraSelectiveEraseRectangularArea => fromString ['$', '\x7b']
  | .decscppSetColumnsPerPage => fromString ['$', '|']
  | .decsaceSelectAttributeChangeExtent => fromString ['*', 'x']
  | .decinvmInvokeMacro => fromString ['*', 'z']
  | .decacAssignColor => fromString [',', '|']
  | .decpsPlaySound => fromString [',', '~']

def all : List CsiActionCodes :=
  [.ichInsertCharacter, .cuuCursorUp, .cudCursorDown, .cufCursorForward, .cubCursorBackward,
   .cnlCursorNextLine, .cplCursorPrevLine, .chaCursorHorizontalAbsolute, .cupCursorPosition,
   .chtCursorForwardTab, .edEraseDisplay, .decsedSelectiveEraseDisplay, .elEraseLine,
   .decselSelectiveEraseLine, .ilInsertLine, .dlDeleteLine, .dchDeleteCharacter, .suScrollUp,
   .sdScrollDown, .echEraseCharacters, .cbtCursorBackTab, .hpaHorizontalPositionAbsolute,
   .hprHorizontalPositionRelative, .repRepeatCharacter, .daDeviceAttributes,
   .da2SecondaryDeviceAttributes, .da3TertiaryDeviceAttributes, .vpaVerticalLinePositionAbsolute,
   .vprVerticalPositionRelative, .hvpHorizontalVerticalPosition, .tbcTabClear, .smSetMode,
   .decsetPrivateModeSet, .rmResetMode, .decrstPrivateModeReset, .sgrSetGraphicsRendition,
   .dsrDeviceStatusReport, .dsrPrivateDeviceStatusReport, .decstbmSetScrollingRegion,
   .ansisysscCursorSave, .dttermWindowManipulation, .ansisysrcCursorRestore,
   .decreqtparmRequestTerminalParameters, .decscusrSetCursorStyle, .decstrSoftReset,
   .decscaSetCharacterProtectionAttribute, .xtPushSgrAlias, .xtPopSgrAlias, .xtPushSgr, .xtPopSgr,
   .decrqmRequestMode, .decrqmPrivateRequestMode, .deccaraChangeAttributesRectangularArea,
   .decraraReverseAttributesRectangularArea, .deccraCopyRectangularArea, .decfraFillRectangularArea,
   .deceraEraseRectangularArea, .decseraSelectiveEraseRectangularArea, .decscppSetColumnsPerPage,
   .decsaceSelectAttributeChangeExtent, .decinvmInvokeMacro, .decacAssignColor, .decpsPlaySound]

def ofId (id : VTID) : Option CsiActionCodes := all.find? (fun c => c.code == id)

theorem code_of_ofId {id : VTID} {c : CsiActionCodes} (h : ofId id = some c) : c.code = id := by
  simpa using List.find?_some h

theorem ofId_code (c : CsiActionCodes) : ofId c.code = some c := by
  cases c <;> rfl

@[simp] theorem code_inj {c d : CsiActionCodes} : c.code = d.code ↔ c = d := by
  constructor
  · intro h
    have hc := ofId_code c
    rw [h, ofId_code] at hc
    exact (some.inj hc).symm
  · rintro rfl
    rfl

theorem ofId_eq_some {id : VTID} {c : CsiActionCodes} : ofId id = some c ↔ id = c.code := by
  constructor
  · intro h
    rw [code_of_ofId h]
  · rintro rfl
    exact ofId_code c

end CsiActionCodes

/-! ## The dispatcher -/

inductive TermDispatch
  | printString (string : List Wchar)
  | cursorUp (distance : Int) | cursorDown (distance : Int)
  | cursorForward (distance : Int) | cursorBackward (distance : Int)
  | cursorNextLine (distance : Int) | cursorPrevLine (distance : Int)
  | cursorHorizontalPositionAbsolute (column : Int) | verticalLinePositionAbsolute (line : Int)
  | horizontalPositionRelative (distance : Int) | verticalPositionRelative (distance : Int)
  | cursorPosition (line column : Int)
  | cursorSaveState | cursorRestoreState
  | insertCharacter (count : Int) | deleteCharacter (count : Int)
  | scrollUp (distance : Int) | scrollDown (distance : Int)
  | insertLine (distance : Int) | deleteLine (distance : Int)
  | setTopBottomScrollingMargins (topMargin bottomMargin : Int)
  | forwardTab (numTabs : Int) | backwardsTab (numTabs : Int) | tabClear (clearType : Int)
  | assignColor (item fgIndex bgIndex : Int)
  | eraseInDisplay (eraseType : Int) | eraseInLine (eraseType : Int) | eraseCharacters (numChars : Int)
  | selectiveEraseInDisplay (eraseType : Int) | selectiveEraseInLine (eraseType : Int)
  | changeAttributesRectangularArea (top left bottom right : Int) (attrs : VTParameters)
  | reverseAttributesRectangularArea (top left bottom right : Int) (attrs : VTParameters)
  | copyRectangularArea (top left bottom right page dstTop dstLeft dstPage : Int)
  | fillRectangularArea (ch : VTParameter) (top left bottom right : Int)
  | eraseRectangularArea (top left bottom right : Int)
  | selectiveEraseRectangularArea (top left bottom right : Int)
  | selectAttributeChangeExtent (changeExtent : Int)
  | setGraphicsRendition (options : VTParameters)
  | setCharacterProtectionAttribute (options : VTParameters)
  | pushGraphicsRendition (options : VTParameters) | popGraphicsRendition
  | setMode (param : Nat) | resetMode (param : Nat) | requestMode (param : Nat)
  | deviceStatusReport (statusType : Nat) (id : VTParameter)
  | deviceAttributes | secondaryDeviceAttributes | tertiaryDeviceAttributes
  | requestTerminalParameters (permission : Int)
  | softReset
  | setCursorStyle (cursorStyle : Int)
  | windowManipulation (function : Int) (parameter1 parameter2 : VTParameter)
  | invokeMacro (macroId : Int)
  | playSounds (parameters : VTParameters)
deriving DecidableEq, Repr

/-- `FlaggedEnumValue`; an omitted parameter counts as 1. -/
def flaggedEnumValue (mask : Nat) (value : VTParameter) : Nat := value.toVTInt.toNat ||| mask

def ansiStandard : VTParameter → Nat := flaggedEnumValue 0x00000000

def decPrivate : VTParameter → Nat := flaggedEnumValue 0x01000000

/-- The calls of `ActionCsiDispatch`, and whether it can succeed. -/
def csiCalls (lastPrintedChar : Wchar) (ps : VTParameters) : CsiActionCodes → Option (Bool × List TermDispatch)
  | .cuuCursorUp => call (.cursorUp (ps.at' 0).toVTInt)
  | .cudCursorDown => call (.cursorDown (ps.at' 0).toVTInt)
  | .cufCursorForward => call (.cursorForward (ps.at' 0).toVTInt)
  | .cubCursorBackward => call (.cursorBackward (ps.at' 0).toVTInt)
  | .cnlCursorNextLine => call (.cursorNextLine (ps.at' 0).toVTInt)
  | .cplCursorPrevLine => call (.cursorPrevLine (ps.at' 0).toVTInt)
  | .chaCursorHorizontalAbsolute | .hpaHorizontalPositionAbsolute =>
    call (.cursorHorizontalPositionAbsolute (ps.at' 0).toVTInt)
  | .vpaVerticalLinePositionAbsolute => call (.verticalLinePositionAbsolute (ps.at' 0).toVTInt)
  | .hprHorizontalPositionRelative => call (.horizontalPositionRelative (ps.at' 0).toVTInt)
  | .vprVerticalPositionRelative => call (.verticalPositionRelative (ps.at' 0).toVTInt)
  | .cupCursorPosition | .hvpHorizontalVerticalPosition =>
    call (.cursorPosition (ps.at' 0).toVTInt (ps.at' 1).toVTInt)
  | .decstbmSetScrollingRegion =>
    call (.setTopBottomScrollingMargins ((ps.at' 0).valueOr 0) ((ps.at' 1).valueOr 0))
  | .ichInsertCharacter => call (.insertCharacter (ps.at' 0).toVTInt)
  | .dchDeleteCharacter => call (.deleteCharacter (ps.at' 0).toVTInt)
  | .edEraseDisplay => forEach (fun eraseType => .eraseInDisplay eraseType.toEnum)
  | .decsedSelectiveEraseDisplay => forEach (fun eraseType => .selectiveEraseInDisplay eraseType.toEnum)
  | .elEraseLine => forEach (fun eraseType => .eraseInLine eraseType.toEnum)
  | .decselSelectiveEraseLine => forEach (fun eraseType => .selectiveEraseInLine eraseType.toEnum)
  | .smSetMode => forEach (fun mode => .setMode (ansiStandard mode))
  | .decsetPrivateModeSet => forEach (fun mode => .setMode (decPrivate mode))
  | .rmResetMode => forEach (fun mode => .resetMode (ansiStandard mode))
  | .decrstPrivateModeReset => forEach (fun mode => .resetMode (decPrivate mode))
  | .sgrSetGraphicsRendition => call (.setGraphicsRendition ps)
  | .dsrDeviceStatusReport => call (.deviceStatusReport (ansiStandard (ps.at' 0)) (ps.at' 1))
  | .dsrPrivateDeviceStatusReport => call (.deviceStatusReport (decPrivate (ps.at' 0)) (ps.at' 1))
  | .daDeviceAttributes => callIf ((ps.at' 0).valueOr 0 == 0) .deviceAttributes
  | .da2SecondaryDeviceAttributes => callIf ((ps.at' 0).valueOr 0 == 0) .secondaryDeviceAttributes
  | .da3TertiaryDeviceAttributes => callIf ((ps.at' 0).valueOr 0 == 0) .tertiaryDeviceAttributes
  | .decreqtparmRequestTerminalParameters => call (.requestTerminalParameters (ps.at' 0).toEnum)
  | .suScrollUp => call (.scrollUp (ps.at' 0).toVTInt)
  | .sdScrollDown => call (.scrollDown (ps.at' 0).toVTInt)
  | .ansisysscCursorSave => callIf ps.isEmpty .cursorSaveState
  | .ansisysrcCursorRestore => callIf ps.isEmpty .cursorRestoreState
  | .ilInsertLine => call (.insertLine (ps.at' 0).toVTInt)
  | .dlDeleteLine => call (.deleteLine (ps.at' 0).toVTInt)
  | .chtCursorForwardTab => call (.forwardTab (ps.at' 0).toVTInt)
  | .cbtCursorBackTab => call (.backwardsTab (ps.at' 0).toVTInt)
  | .tbcTabClear => forEach (fun clearType => .tabClear clearType.toEnum)
  | .echEraseCharacters => call (.eraseCharacters (ps.at' 0).toVTInt)
  | .dttermWindowManipulation => call (.windowManipulation (ps.at' 0).toEnum (ps.at' 1) (ps.at' 2))
  | .repRepeatCharacter =>
    if lastPrintedChar ≠ NUL then
      call (.printString (List.replicate (ps.at' 0).toVTInt.toNat lastPrintedChar))
    else some (true, [])
  | .decscusrSetCursorStyle => call (.setCursorStyle (ps.at' 0).toEnum)
  | .decstrSoftReset => call .softReset
  | .decscaSetCharacterProtectionAttribute => call (.setCharacterProtectionAttribute ps)
  | .xtPushSgr | .xtPushSgrAlias => call (.pushGraphicsRendition ps)
  | .xtPopSgr | .xtPopSgrAlias => call .popGraphicsRendition
  | .decrqmRequestMode => call (.requestMode (ansiStandard (ps.at' 0)))
  | .decrqmPrivateRequestMode => call (.requestMode (decPrivate (ps.at' 0)))
  | .deccaraChangeAttributesRectangularArea => do
    let attrs ← ps.subspan 4
    call (.changeAttributesRectangularArea (ps.at' 0).toVTInt (ps.at' 1).toVTInt
      ((ps.at' 2).valueOr 0) ((ps.at' 3).valueOr 0) attrs)
  | .decraraReverseAttributesRectangularArea => do
    let attrs ← ps.subspan 4
    call (.reverseAttributesRectangularArea (ps.at' 0).toVTInt (ps.at' 1).toVTInt
      ((ps.at' 2).valueOr 0) ((ps.at' 3).valueOr 0) attrs)
  | .deccraCopyRectangularArea =>
    call (.copyRectangularArea (ps.at' 0).toVTInt (ps.at' 1).toVTInt
      ((ps.at' 2).valueOr 0) ((ps.at' 3).valueOr 0) (ps.at' 4).toVTInt
      (ps.at' 5).toVTInt (ps.at' 6).toVTInt (ps.at' 7).toVTInt)
  | .decfraFillRectangularArea =>
    call (.fillRectangularArea (ps.at' 0) (ps.at' 1).toVTInt (ps.at' 2).toVTInt
      ((ps.at' 3).valueOr 0) ((ps.at' 4).valueOr 0))
  | .deceraEraseRectangularArea =>
    call (.eraseRectangularArea (ps.at' 0).toVTInt (ps.at' 1).toVTInt ((ps.at' 2).valueOr 0) ((ps.at' 3).valueOr 0))
  | .decseraSelectiveEraseRectangularArea =>
    call (.selectiveEraseRectangularArea (ps.at' 0).toVTInt (ps.at' 1).toVTInt
      ((ps.at' 2).valueOr 0) ((ps.at' 3).valueOr 0))
  | .decsaceSelectAttributeChangeExtent => call (.selectAttributeChangeExtent (ps.at' 0).toEnum)
  | .decinvmInvokeMacro => call (.invokeMacro ((ps.at' 0).valueOr 0))
  | .decacAssignColor =>
    call (.assignColor (ps.at' 0).toEnum ((ps.at' 1).valueOr 0) ((ps.at' 2).valueOr 0))
  | .decpsPlaySound => call (.playSounds ps)
  | .decscppSetColumnsPerPage => some (false, [])
where
  call (c : TermDispatch) : Option (Bool × List TermDispatch) := some (true, [c])
  callIf (condition : Bool) (c : TermDispatch) : Option (Bool × List TermDispatch) :=
    some (condition, if condition then [c] else [])
  forEach (c : VTParameter → TermDispatch) : Option (Bool × List TermDispatch) := some (true, ps.values.map c)

structure Host (S : Type) where
  isConsolePty : Bool
  getCurrentAttributes : S → TextAttribute
  setTextAttributes : TextAttribute → S → S
  setCurrentAttributes : TextAttribute → S → S
  triggerFlush : S → S
  playMidiNote (noteNumber velocity duration : Int) : S → S
  changeRectOrStreamAttributes (left top right bottom : Int) (changeOps : ChangeOps) : S → S
  /-- `SgrStack::Push`, which only reads the options one by one. -/
  sgrPush : TextAttribute → VTParameters → S → S
  sgrPop : TextAttribute → S → TextAttribute × S
  perform : TermDispatch → S → Bool × S

section

variable {S : Type} (host : Host S)

def playNote (velocity duration : Int) (s : S) (param : VTParameter) : S :=
  let noteNumber := min (param.valueOr 0) 25 + 71
  host.playMidiNote noteNumber (if noteNumber = 71 then 0 else velocity) duration s

def playSounds (parameters : VTParameters) (s : S) : Option (Bool × S) :=
  if host.isConsolePty then some (false, host.triggerFlush s)
  else do
    let velocity := min ((parameters.at' 0).valueOr 0) 7 * 127 / 7
    let duration := min ((parameters.at' 1).valueOr 0) 255 * 1000000 / 32
    let notes ← parameters.subspan 2
    return (true, notes.values.foldl (playNote host velocity duration) s)

def adaptDispatch (s : S) : TermDispatch → Option (Bool × S)
  | .setGraphicsRendition options => do
    let attr ← applyGraphicsOptions options (host.getCurrentAttributes s)
    return (true, host.setTextAttributes attr s)
  | .setCharacterProtectionAttribute options =>
    some (true, host.setCurrentAttributes (setCharacterProtectionAttribute options (host.getCurrentAttributes s)) s)
  | .pushGraphicsRendition options =>
    some (true, host.sgrPush (host.getCurrentAttributes s) options s)
  | .popGraphicsRendition =>
    let (attr, s) := host.sgrPop (host.getCurrentAttributes s) s
    some (true, host.setTextAttributes attr s)
  | .changeAttributesRectangularArea top left bottom right attrs => do
    let changeOps ← changeAttributesOps attrs
    return (true, host.changeRectOrStreamAttributes left top right bottom changeOps s)
  | .reverseAttributesRectangularArea top left bottom right attrs => do
    let reverseMask ← reverseMask attrs
    if reverseMask ≠ CharacterAttributes.normal then
      return (true, host.changeRectOrStreamAttributes left top right bottom { xorAttrMask := reverseMask } s)
    else return (true, s)
  | .playSounds parameters => playSounds host parameters s
  | call => some (host.perform call s)

/-- `for_each` makes every call, whatever the earlier ones answered. -/
def dispatchAll : List TermDispatch → Bool → S → Option (Bool × S)
  | [], success, s => some (success, s)
  | c :: calls, success, s => do
    let (answer, s) ← adaptDispatch host s c
    dispatchAll calls (answer && success) s

structure OutputStateMachineEngine (S : Type) where
  lastPrintedChar : Wchar := NUL
  dispatch : S
deriving DecidableEq, Repr

/-- The answer before `_pfnFlushToTerminal`, which the parser calls. -/
def actionCsiDispatch (id : VTID) (parameters : VTParameters) (e : OutputStateMachineEngine S) :
    Option (Bool × OutputStateMachineEngine S) := do
  let (success, calls) ← match CsiActionCodes.ofId id with
    | some code => csiCalls e.lastPrintedChar parameters code
    | none => some (false, [])
  let (success, s) ← dispatchAll host calls success e.dispatch
  return (success, { lastPrintedChar := NUL, dispatch := s })

end

/-! ## Views of the parameters -/

/-- Fewer parameters than the first one of the view asked for. -/
def ShortSequence (isConsolePty : Bool) (id : VTID) (ps : VTParameters) : Prop :=
  ((id = CsiActionCodes.deccaraChangeAttributesRectangularArea.code ∨
      id = CsiActionCodes.decraraReverseAttributesRectangularArea.code) ∧ ps.length < 4) ∨
    (id = CsiActionCodes.decpsPlaySound.code ∧ isConsolePty = false ∧ ps.length < 2)

def Viewable (isConsolePty : Bool) : TermDispatch → Prop
  | .playSounds parameters => isConsolePty = true ∨ 2 ≤ parameters.length
  | _ => True

section

variable {S : Type} (host : Host S)

theorem playSounds_isSome (parameters : VTParameters) (s : S) :
    (playSounds host parameters s).isSome ↔ host.isConsolePty = true ∨ 2 ≤ parameters.length := by
  unfold playSounds
  split_ifs with hpty
  · simp [hpty]
  · constructor
    · intro h
      obtain ⟨r, hr⟩ := isSome_iff_exists.mp h
      obtain ⟨notes, hnotes, -⟩ := bind_eq_some_iff.mp hr
      exact Or.inr (subspan_isSome.mp (by simp [hnotes]))
    · rintro (h | h)
      · exact absurd h hpty
      · apply isSome_bind (subspan_isSome.mpr h)
        intro notes
        rfl

theorem adaptDispatch_isSome (s : S) (c : TermDispatch) :
    (adaptDispatch host s c).isSome ↔ Viewable host.isConsolePty c := by
  cases c with
  | playSounds parameters => exact playSounds_isSome host parameters s
  | setGraphicsRendition options =>
    obtain ⟨attr, hattr⟩ := isSome_iff_exists.mp
      (applyGraphicsOptions_isSome options (host.getCurrentAttributes s))
    simp [adaptDispatch, hattr, Viewable]
  | changeAttributesRectangularArea top left bottom right attrs =>
    obtain ⟨changeOps, hops⟩ := isSome_iff_exists.mp (changeAttributesOps_isSome attrs)
    simp [adaptDispatch, hops, Viewable]
  | reverseAttributesRectangularArea top left bottom right attrs =>
    obtain ⟨mask, hmask⟩ := isSome_iff_exists.mp (reverseMask_isSome attrs)
    simp only [adaptDispatch, hmask, Viewable]
    by_cases h : mask = CharacterAttributes.normal <;> simp [h]
  | _ => simp [adaptDispatch, Viewable]

theorem dispatchAll_isSome (calls : List TermDispatch) (success : Bool) (s : S) :
    (dispatchAll host calls success s).isSome ↔ ∀ c ∈ calls, Viewable host.isConsolePty c := by
  induction calls generalizing success s with
  | nil => simp [dispatchAll]
  | cons c calls ih =>
    rw [List.forall_mem_cons, ← adaptDispatch_isSome host s c, dispatchAll]
    cases adaptDispatch host s c with
    | none => simp
    | some r => simpa using ih (r.1 && success) r.2

theorem csiCalls_viewable (isConsolePty : Bool) (lastPrintedChar : Wchar) (ps : VTParameters) (code : CsiActionCodes) :
    (∃ r, csiCalls lastPrintedChar ps code = some r ∧ ∀ c ∈ r.2, Viewable isConsolePty c) ↔
      ¬ ShortSequence isConsolePty code.code ps := by
  cases code
  case deccaraChangeAttributesRectangularArea | decraraReverseAttributesRectangularArea =>
    simp only [csiCalls, csiCalls.call, VTParameters.subspan, ShortSequence]
    split_ifs with h
    · simp [Viewable, h]
    · simpa using h
  case decpsPlaySound => simp [csiCalls, csiCalls.call, Viewable, ShortSequence]; grind
  case repRepeatCharacter =>
    simp only [csiCalls]
    split_ifs <;> simp [csiCalls.call, Viewable, ShortSequence]
  all_goals
    simp [csiCalls, csiCalls.call, csiCalls.callIf, csiCalls.forEach, Viewable, ShortSequence]

theorem actionCsiDispatch_isSome (id : VTID) (parameters : VTParameters) (e : OutputStateMachineEngine S) :
    (actionCsiDispatch host id parameters e).isSome ↔ ¬ ShortSequence host.isConsolePty id parameters := by
  unfold actionCsiDispatch
  cases hcode : CsiActionCodes.ofId id with
  | none =>
    have hother (c : CsiActionCodes) : id ≠ c.code := by
      intro h
      simp [CsiActionCodes.ofId_eq_some.mpr h] at hcode
    simp [dispatchAll, ShortSequence, hother]
  | some code =>
    obtain rfl := CsiActionCodes.ofId_eq_some.mp hcode
    rw [← csiCalls_viewable host.isConsolePty e.lastPrintedChar parameters code]
    cases hcalls : csiCalls e.lastPrintedChar parameters code with
    | none => simp [hcalls]
    | some r =>
      have hall := dispatchAll_isSome host r.2 r.1 e.dispatch
      cases hrun : dispatchAll host r.2 r.1 e.dispatch <;> simp_all

/-! ### Runs of the engine -/

/-- One call of the parser; `other` takes those that are no control sequence. -/
def engineStep (other : Call → OutputStateMachineEngine S → OutputStateMachineEngine S)
    (e : OutputStateMachineEngine S) : Call → Option (OutputStateMachineEngine S)
  | .csiDispatch id parameters => (actionCsiDispatch host id parameters e).map Prod.snd
  | c => some (other c e)

def engineRun (other : Call → OutputStateMachineEngine S → OutputStateMachineEngine S)
    (calls : List Call) (e : OutputStateMachineEngine S) : Option (OutputStateMachineEngine S) :=
  calls.foldlM (engineStep host other) e

variable (other : Call → OutputStateMachineEngine S → OutputStateMachineEngine S)

theorem engineStep_isSome (e : OutputStateMachineEngine S) (c : Call) : (engineStep host other e c).isSome ↔
      ∀ id ps, c = .csiDispatch id ps → ¬ ShortSequence host.isConsolePty id ps := by
  cases c with
  | csiDispatch id parameters => simp [engineStep, actionCsiDispatch_isSome]
  | _ => simp [engineStep]

theorem engineRun_isSome (calls : List Call) (e : OutputStateMachineEngine S) : (engineRun host other calls e).isSome ↔
      ∀ id ps, .csiDispatch id ps ∈ calls → ¬ ShortSequence host.isConsolePty id ps := by
  induction calls generalizing e with
  | nil => simp [engineRun]
  | cons c calls ih =>
    have hstep := engineStep_isSome host other e c
    rw [engineRun, List.foldlM_cons]
    cases he : engineStep host other e c with
    | none =>
      rw [he] at hstep
      simp only [isSome_none, Bool.false_eq_true, false_iff] at hstep
      push Not at hstep
      obtain ⟨id, ps, rfl, hshort⟩ := hstep
      simp only [bind_eq_bind, bind_none, isSome_none, Bool.false_eq_true, false_iff]
      intro h
      exact h id ps List.mem_cons_self hshort
    | some e' =>
      rw [he] at hstep
      have hhead := hstep.mp rfl
      simp only [bind_eq_bind, bind_some]
      rw [← engineRun, ih e']
      constructor
      · intro h id ps hmem
        rcases List.mem_cons.mp hmem with hc | htail
        · exact hhead id ps hc.symm
        · exact h id ps htail
      · intro h id ps hmem
        exact h id ps (List.mem_cons_of_mem c hmem)

/-- Every view is well formed exactly when no sequence is too short for it. -/
theorem parameterViews_wellFormed (E : Engine) (chunks : List (List Wchar)) (m : StateMachine)
    (e : OutputStateMachineEngine S) :
    let calls := (chunks.foldl (fun m chunk => m.processString E chunk) m).calls
    (engineRun host other calls e).isSome ↔
      ∀ id ps, .csiDispatch id ps ∈ calls → ¬ ShortSequence host.isConsolePty id ps := by
  intro calls
  exact engineRun_isSome host other calls e

end

def penHost (isConsolePty : Bool) : Host TextAttribute where
  isConsolePty := isConsolePty
  getCurrentAttributes s := s
  setTextAttributes attr _ := attr
  setCurrentAttributes attr _ := attr
  triggerFlush s := s
  playMidiNote _ _ _ s := s
  changeRectOrStreamAttributes _ _ _ _ _ s := s
  sgrPush _ _ s := s
  sgrPop attr s := (attr, s)
  perform _ s := (true, s)

/-- `CSI $ r`, `CSI 1 ; 2 $ t` and, unless in a pseudoconsole, `CSI 3 , ~`. -/
theorem parameterViews_tooShort :
    let E := outputEngine false (fun _ => {}) (fun _ m => m)
    let calls (text : List Wchar) := (StateMachine.processString E text (StateMachine.new E false)).calls
    let run (pty : Bool) (text : List Wchar) := engineRun (penHost pty) (fun _ e => e) (calls text) { dispatch := {} }
    calls [ESC, 0x5B, 0x24, 0x72] = [.clear, .printString [], .clear, .clear,
        .csiDispatch CsiActionCodes.deccaraChangeAttributesRectangularArea.code []] ∧
      run true [ESC, 0x5B, 0x24, 0x72] = none ∧
      run true [ESC, 0x5B, 0x31, 0x3B, 0x32, 0x24, 0x74] = none ∧
      run false [ESC, 0x5B, 0x33, 0x2C, 0x7E] = none ∧
      (run true [ESC, 0x5B, 0x33, 0x2C, 0x7E]).isSome := by
  decide

end Terminal.Adapter
