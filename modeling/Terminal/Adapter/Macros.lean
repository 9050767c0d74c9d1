import Terminal.Adapter.MacroBuffer
import Terminal.Parser.Chunks

/-!
# Invoking macros

DECINVM registers a callback, which the parser runs when it is back in the ground state. The
text of the macro is processed inside of the current string, and may invoke macros again.
-/

namespace Terminal.Adapter

open Terminal.Parser StateMachine

/-! ## The dispatcher and its macros -/

def ris : VTID := VTID.fromString ['c']

def decinvm : VTID := VTID.fromString ['*', 'z']

def decdmac : VTID := VTID.fromString ['!', 'z']

/-- Buffers are known by their place, which a callback keeps. -/
structure Macros where
  buffers : List MacroBuffer := []
  macroBuffer : Option Nat := none
  /-- The string handler is the one that `DefineMacro` returned. -/
  definesMacro : Bool := false

namespace Macros

def modifyBuffer (i : Nat) (f : MacroBuffer → MacroBuffer) (s : Macros) : Macros :=
  { s with buffers := s.buffers.modify i f }

def makeBuffer (s : Macros) : Macros :=
  if s.macroBuffer.isSome then s else { s with buffers := s.buffers ++ [{}], macroBuffer := some s.buffers.length }

def initParser (ps : VTParameters) (b : MacroBuffer) : Bool × MacroBuffer :=
  b.initParser ((ps.at' 0).valueOr 0).toNat (MacroDeleteControl.ofInt (ps.at' 1).toEnum)
    (MacroEncoding.ofInt (ps.at' 2).toEnum)

def defineMacro (ps : VTParameters) (s : Macros) : Bool × Macros :=
  let s := s.makeBuffer
  match s.macroBuffer with
  | none => (false, s)
  | some i =>
    let accepted := (s.buffers[i]?.map fun b => (initParser ps b).1).getD false
    (accepted, { s.modifyBuffer i fun b => (initParser ps b).2 with definesMacro := accepted })

def parseDefinition (wch : Wchar) (s : Macros) : Bool × Macros :=
  match s.macroBuffer with
  | none => (false, s)
  | some i =>
    ((s.buffers[i]?.map fun b => (b.parseDefinition wch).1).getD false, s.modifyBuffer i
      fun b => (b.parseDefinition wch).2)

def hardReset (s : Macros) : Macros :=
  match s.macroBuffer with
  | none => s
  | some i => { s.modifyBuffer i MacroBuffer.clearMacrosIfInUse with macroBuffer := none }

def heed (s : Macros) : Call → Macros
  | .escDispatch id => if id = ris then s.hardReset else s
  | .dcsDispatch id ps => if id = decdmac then (s.defineMacro ps).2 else { s with definesMacro := false }
  | .stringHandler wch => if s.definesMacro then (s.parseDefinition wch).2 else s
  | .clear | .csiDispatch _ _ => { s with definesMacro := false }
  | _ => s

theorem heed_escDispatch (s : Macros) (id : VTID) :
    s.heed (.escDispatch id) = if id = ris then s.hardReset else s := rfl

theorem heed_dcsDispatch (s : Macros) (id : VTID) (ps : VTParameters) :
    s.heed (.dcsDispatch id ps) = if id = decdmac then (s.defineMacro ps).2 else { s with definesMacro := false } := rfl

theorem heed_stringHandler (s : Macros) (wch : Wchar) :
    s.heed (.stringHandler wch) = if s.definesMacro then (s.parseDefinition wch).2 else s := rfl

/-- The answers with these macros; everything else is left to `D`. -/
def reply (D : List Call → Reply) (s : Macros) (calls : List Call) : Reply :=
  match calls.getLast? with
  | some (.csiDispatch id _) => if id = decinvm then {} else { D calls with macroText := none }
  | some (.dcsDispatch id ps) =>
    if id = decdmac then { handler := if (s.defineMacro ps).1 then some .engine else none }
    else { D calls with macroText := none }
  | some (.stringHandler wch) =>
    if s.definesMacro then { success := (s.parseDefinition wch).1 } else { D calls with macroText := none }
  | _ => { D calls with macroText := none }

def engine (terminal : Bool) (D : List Call → Reply) (s : Macros) : Engine :=
  outputEngine terminal (s.reply D) fun _ m => m

def invokedMacro : Call → Option Nat
  | .csiDispatch id ps => if id = decinvm then some ((ps.at' 0).valueOr 0).toNat else none
  | _ => none

/-- The text of a macro is read where it is stored. -/
inductive View
  | host (string : List Wchar)
  | macroText (i : Nat) (macroId : Fin 64)

def text (s : Macros) : View → List Wchar
  | .host string => string
  | .macroText i macroId => (s.buffers[i]?.map fun b => b.macros macroId).getD []

end Macros

/-! ## The parser -/

structure MacroHost extends Macros where
  machine : StateMachine
  /-- What `InvokeMacro` has given to `ProcessString`, with its depth. -/
  invocations : List (Nat × List Wchar) := []

namespace MacroHost

open Macros (View invokedMacro heed)

section

-- whether a terminal is attached, the dispatcher, and `InvokeMacro` of a buffer
variable (terminal : Bool) (D : List Call → Reply) (invoke : Nat → Nat → MacroHost → Option MacroHost)

def executeCallback (calls : List Call) (h : MacroHost) : Option MacroHost :=
  match calls.findSome? invokedMacro, h.macroBuffer with
  | some macroId, some i =>
    (invoke i macroId h).map fun h' =>
      { h' with machine := { h'.machine with
          currentString := h.machine.currentString
          runOffset := h.machine.runOffset
          runSize := h.machine.runSize } }
  | _, _ => some h

def processCharacter (wch : Wchar) (h : MacroHost) : Option MacroHost :=
  let m := StateMachine.processCharacter (h.toMacros.engine terminal D) wch h.machine
  let calls := callsSince h.machine m
  executeCallback invoke calls { h with toMacros := calls.foldl heed h.toMacros, machine := m }

def processIndividually (wch : Wchar) (last : Bool) (start current : Nat) (h : MacroHost) :
    Option (Nat × MacroHost) :=
  (processCharacter terminal D invoke wch { h with machine := { h.machine with
      runOffset := start
      runSize := some (current - start + 1)
      processingLastCharacter := last } }).map fun h =>
    if h.machine.state = .ground then
      (current + 1, { h with machine := { h.machine with processingIndividually := false } })
    else (start, h)

def turn (view : View) (last : Bool) (start current : Nat) (h : MacroHost) : Option (Nat × MacroHost) :=
  let string := h.text view
  let wch := string.getD current 0
  let m := { h.machine with
    currentString := string, runOffset := start, runSize := some (current - start + 1) }
  if m.processingIndividually then
    processIndividually terminal D invoke wch last start current { h with machine := m }
  else if isActionableFromGround wch then
    let m := { m with runSize := some (current - start) }
    let m := { actionPrintString (h.toMacros.engine terminal D) m.currentRun m with processingIndividually := true }
    processIndividually terminal D invoke wch last current current { h with machine := m }
  else some (start, { h with machine := m })

def processLoop (view : View) : Nat → Nat → Nat → MacroHost → Option (Nat × MacroHost)
  | 0, start, _, h => some (start, h)
  | n + 1, start, current, h => do
    let (start, h) ← turn terminal D invoke view (n = 0) start current h
    processLoop view n start (current + 1) h

def processString (view : View) (h : MacroHost) : Option MacroHost := do
  let string := h.text view
  let (start, h) ← processLoop terminal D invoke view string.length 0 0
    { h with machine := { h.machine with currentString := string, runOffset := 0, runSize := some 0 } }
  let m := { h.machine with currentString := h.text view }
  return { h with machine := finishString (h.toMacros.engine terminal D) start m }

end

/-- `MacroBuffer::InvokeMacro`; `none` is out of fuel. -/
def invokeMacro (terminal : Bool) (D : List Call → Reply) : Nat → Nat → Nat → MacroHost → Option MacroHost
  | 0, _, _, _ => none
  | fuel + 1, i, macroId, h =>
    match h.buffers[i]? with
    | none => some h
    | some b =>
      if hid : macroId < 64 then
        if b.canInvoke ⟨macroId, hid⟩ then do
          let h := { h with
            toMacros := h.modifyBuffer i fun b => b.enter ⟨macroId, hid⟩
            invocations := h.invocations ++ [(b.invokedDepth + 1, b.macros ⟨macroId, hid⟩)] }
          let h ← processString terminal D (invokeMacro terminal D fuel) (.macroText i ⟨macroId, hid⟩) h
          return { h with toMacros := h.modifyBuffer i MacroBuffer.leave }
        else some h
      else some h

end MacroHost

end Terminal.Adapter
