import Mathlib.Algebra.Ring.Nat
import Mathlib.Logic.Function.Iterate
import Mathlib.Tactic.Common
import Terminal.Parser.StateMachine

/-!
# Macros (`MacroBuffer.cpp`)

DECDMAC fills the buffer with macros, DECINVM has the parser process one of them.
-/

namespace Terminal.Adapter

open Terminal.Parser

def maxSpace : Nat := 0x40000

inductive MacroDeleteControl
  | deleteId | deleteAll
deriving DecidableEq, Repr

/-- `static_cast` of a parameter; `none` is a value without a name. -/
def MacroDeleteControl.ofInt : Int → Option MacroDeleteControl
  | 0 => some .deleteId
  | 1 => some .deleteAll
  | _ => none

inductive MacroEncoding
  | text | hexPair
deriving DecidableEq, Repr

def MacroEncoding.ofInt : Int → Option MacroEncoding
  | 0 => some .text
  | 1 => some .hexPair
  | _ => none

inductive MacroState
  | expectingText | expectingHexDigit | expectingSecondHexDigit | expectingRepeatCount
deriving DecidableEq, Repr

structure MacroBuffer where
  parseState : MacroState := .expectingText
  decodedChar : Wchar := 0
  repeatPending : Bool := false
  repeatCount : Nat := 0
  repeatStart : Nat := 0
  macros : Fin 64 → List Wchar := fun _ => []
  activeMacroId : Fin 64 := 0
  spaceUsed : Nat := 0
  invokedDepth : Nat := 0
  invokedSequenceLength : Nat := 0

namespace MacroBuffer

variable (b : MacroBuffer)

def getSpaceAvailable : Nat := maxSpace - b.spaceUsed

/-! ## Invoking -/

def canInvoke (macroId : Fin 64) : Bool :=
  let allowedLength := maxSpace - b.invokedSequenceLength
  b.invokedDepth < 16 && (b.macros macroId).length < allowedLength

def enter (macroId : Fin 64) : MacroBuffer :=
  { b with
    invokedSequenceLength := b.invokedSequenceLength + (b.macros macroId).length
    invokedDepth := b.invokedDepth + 1 }

/-- `resetInvokeDepth`: the end of the root invocation resets the length too. -/
def leave : MacroBuffer :=
  { b with
    invokedDepth := b.invokedDepth - 1
    invokedSequenceLength := if b.invokedDepth - 1 = 0 then 0 else b.invokedSequenceLength }

/-- A buffer in use is not released: its macros become NUL characters. -/
def clearMacrosIfInUse : MacroBuffer :=
  if b.invokedDepth > 0 then { b with macros := fun i => (b.macros i).map fun _ => 0 } else b

/-! ## Defining -/

def activeMacro : List Wchar := b.macros b.activeMacroId

def deleteMacro (i : Fin 64) : MacroBuffer :=
  { b with
    spaceUsed := b.spaceUsed - (b.macros i).length
    macros := Function.update b.macros i [] }

def deleteAllMacros : MacroBuffer := (List.finRange 64).foldl deleteMacro b

/-- Refused while a macro is being invoked. -/
def initParser (macroId : Nat) (deleteControl : Option MacroDeleteControl)
    (encoding : Option MacroEncoding) : Bool × MacroBuffer :=
  if h : macroId < 64 ∧ b.invokedDepth = 0 then
    let b := { b with activeMacroId := ⟨macroId, h.1⟩, decodedChar := 0, repeatPending := false }
    match encoding with
    | none => (false, b)
    | some encoding =>
      let b := { b with parseState := match encoding with | .hexPair => .expectingHexDigit | .text => .expectingText }
      match deleteControl with
      | some .deleteId => (true, b.deleteMacro b.activeMacroId)
      | some .deleteAll => (true, b.deleteAllMacros)
      | none => (false, b)
  else (false, b)

variable (ch : Wchar)

def hexDigitValue : Option Nat :=
  if 0x30 ≤ ch.toNat ∧ ch.toNat ≤ 0x39 then some (ch.toNat - 0x30)
  else if 0x41 ≤ ch.toNat ∧ ch.toNat ≤ 0x46 then some (ch.toNat - 0x41 + 10)
  else if 0x61 ≤ ch.toNat ∧ ch.toNat ≤ 0x66 then some (ch.toNat - 0x61 + 10)
  else none

/-- The digits so far are shifted also if there is no new one. -/
def decodeHexDigit : Bool × MacroBuffer :=
  let b := { b with decodedChar := b.decodedChar <<< 4 }
  match hexDigitValue ch with
  | some digit => (true, { b with decodedChar := b.decodedChar + BitVec.ofNat 16 digit })
  | none => (false, b)

def appendToActiveMacro : Bool × MacroBuffer :=
  if b.getSpaceAvailable > 0 then
    (true, { b with
      macros := Function.update b.macros b.activeMacroId (b.activeMacro ++ [ch])
      spaceUsed := b.spaceUsed + 1 })
  else (false, b)

def appendRepeat (sequenceLength : Nat) (b : MacroBuffer) : MacroBuffer :=
  { b with
    macros := Function.update b.macros b.activeMacroId
      (b.activeMacro ++ (b.activeMacro.drop b.repeatStart).take sequenceLength)
    spaceUsed := b.spaceUsed + sequenceLength }

def applyPendingRepeat : Bool × MacroBuffer :=
  if b.repeatCount > 1 then
    -- of type `size_t`; the repeat may be that of a definition that was given up
    let sequenceLength := (b.activeMacro.length + 2 ^ 64 - b.repeatStart) % 2 ^ 64
    let spaceRequired := (b.repeatCount - 1) * sequenceLength % 2 ^ 64
    if spaceRequired > b.getSpaceAvailable then (false, b)
    else
      let b := (appendRepeat sequenceLength)^[b.repeatCount - 1] b
      (true, { b with repeatPending := false })
  else (true, { b with repeatPending := false })

def parseHexDigit : Bool × MacroBuffer :=
  let (isDigit, b) := b.decodeHexDigit ch
  if isDigit then (true, { b with parseState := .expectingSecondHexDigit })
  else if ch = 0x21 ∧ b.repeatPending = false then
    (true, { b with parseState := .expectingRepeatCount, repeatCount := 0 })
  else if ch = 0x3B ∧ b.repeatPending = true then b.applyPendingRepeat
  else (false, b)

def parseSecondHexDigit : Bool × MacroBuffer :=
  let (isDigit, b) := b.decodeHexDigit ch
  let (success, b) := if isDigit then b.appendToActiveMacro b.decodedChar else (false, b)
  (success, { b with decodedChar := 0, parseState := .expectingHexDigit })

def parseRepeatCount : Bool × MacroBuffer :=
  if 0x30 ≤ ch.toNat ∧ ch.toNat ≤ 0x39 then
    (true, { b with repeatCount := min (b.repeatCount * 10 + (ch.toNat - 0x30)) maxParameterValue.toNat })
  else if ch = 0x3B then
    (true, { b with repeatPending := true, repeatStart := b.activeMacro.length, parseState := .expectingHexDigit })
  else (false, b)

def parseDefinition : Bool × MacroBuffer :=
  if ch = ESC then
    if b.repeatPending then
      let (success, b) := b.applyPendingRepeat
      (false, if success then b else b.deleteMacro b.activeMacroId)
    else (false, b)
  else if ch.toNat < 0x20 then (true, b)
  else
    let (success, b) :=
      match b.parseState with
      | .expectingText => b.appendToActiveMacro ch
      | .expectingHexDigit => b.parseHexDigit ch
      | .expectingSecondHexDigit => b.parseSecondHexDigit ch
      | .expectingRepeatCount => b.parseRepeatCount ch
    (success, if success then b else b.deleteMacro b.activeMacroId)

end MacroBuffer

end Terminal.Adapter
