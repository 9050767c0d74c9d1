import Terminal.Host.CommandHistory
import Terminal.Lib.Span

/-!
# The line of a cooked read (`COOKED_READ_DATA`, `CommandLine`)

A line is collected in a buffer and edited key by key. `_bufPtr` is kept as a distance from
`_backupLimit`, the start of the buffer. A store or a `memmove` outside of it has no result.

The echo is left out: `WriteCharsLegacy` hands `BytesRead` back unchanged, and only where the line
is written again in the middle of it does a failure end the read.
-/

namespace Terminal.Host

open Terminal.Parser (Wchar)

def BACKSPACE : Wchar := 0x08

def LINEFEED : Wchar := 0x0A

def CARRIAGERETURN : Wchar := 0x0D

def SPACE : Wchar := 0x20

def BACKSPACE2 : Wchar := 0x25D8

def CTRLZ : Wchar := 0x1A

def LINE_INPUT_BUFFER_SIZE : Nat := 256 * 2

structure Globals where
  wordDelimiters : List Wchar := []
  insertMode : Bool := false
  erasePrevWord : Wchar := 0x7F
deriving DecidableEq, Repr

def Globals.isWordDelim (g : Globals) (wch : Wchar) : Bool := wch == SPACE || g.wordDelimiters.contains wch

inductive Phase where
  | reading
  | woken
  | returned
  | failed
deriving DecidableEq, Repr

structure Request where
  userBufferSize : Nat
  ctrlWakeupMask : BitVec 32 := 0
  exeName : List Wchar := []
  initialData : List Wchar := []
  echoInput : Bool := true
  processedInput : Bool := true
  commandHistory : Option CommandHistory := none
deriving DecidableEq, Repr

structure CookedReadData where
  userBufferSize : Nat
  exeName : List Wchar
  ctrlWakeupMask : BitVec 32
  echoInput : Bool
  processedInput : Bool
  insertMode : Bool
  commandHistory : Option CommandHistory
  bufferSize : Nat
  buffer : List Wchar
  bufPtr : Nat := 0
  bytesRead : Nat := 0
  currentPosition : Nat := 0
  phase : Phase := .reading
deriving DecidableEq, Repr

namespace CookedReadData

def create (g : Globals) (r : Request) : Option CookedReadData :=
  let bufferSize := max r.userBufferSize LINE_INPUT_BUFFER_SIZE
  (Span.write 0 r.initialData (List.replicate (bufferSize / 2) SPACE)).map fun buffer =>
    { userBufferSize := r.userBufferSize
      exeName := r.exeName
      ctrlWakeupMask := r.ctrlWakeupMask
      echoInput := r.echoInput
      processedInput := r.processedInput
      insertMode := g.insertMode
      commandHistory := r.commandHistory
      bufferSize
      buffer
      bufPtr := r.initialData.length
      bytesRead := 2 * r.initialData.length
      currentPosition := r.initialData.length }

variable (s : CookedReadData)

def atEol : Bool := s.bytesRead == s.currentPosition * 2

def charAt (i : Nat) : Wchar := s.buffer.getD i SPACE

def erase : CookedReadData := { s with bufPtr := 0, bytesRead := 0, currentPosition := 0 }

def storeNext (wch : Wchar) : Option CookedReadData :=
  (Span.write s.bufPtr [wch] s.buffer).map fun buffer =>
    { s with
      buffer
      bytesRead := s.bytesRead + 2
      bufPtr := s.bufPtr + 1
      currentPosition := s.currentPosition + 1 }

/-! ## Characters -/

def eraseLoop (turn : CookedReadData → Option CookedReadData) (again : CookedReadData → Bool) :
    Nat → CookedReadData → Option CookedReadData
  | 0, _ => none
  | n + 1, s => (turn s).bind fun s => if again s then eraseLoop turn again n s else some s

/-- Backspace at the end. The blank goes behind the character given up. -/
def eraseAtEnd : Option CookedReadData :=
  (Span.write s.bufPtr [SPACE] s.buffer).map fun buffer =>
    { s with
      buffer
      bytesRead := s.bytesRead - 2
      bufPtr := s.bufPtr - 1
      currentPosition := s.currentPosition - 1 }

def closeUp (ptr position : Nat) : Option (List Wchar) :=
  let bytesRead := s.bytesRead - 2
  (Span.move (ptr + 1) (ptr + 1 + (bytesRead - position * 2) / 2) ptr s.buffer).bind
    (Span.write (bytesRead / 2) [SPACE])

def eraseInMiddle : Option CookedReadData :=
  (s.closeUp (s.bufPtr - 1) (s.currentPosition - 1)).map fun buffer =>
    { s with
      buffer
      bytesRead := s.bytesRead - 2
      bufPtr := s.bufPtr - 1
      currentPosition := s.currentPosition - 1 }

def eraseWith (g : Globals) (wchOrig : Wchar) (turn : CookedReadData → Option CookedReadData) : Option CookedReadData :=
  let fStartFromDelim := g.isWordDelim (s.charAt (s.bufPtr - 1))
  eraseLoop turn
    (fun s => wchOrig == g.erasePrevWord && s.bufPtr != 0 &&
      (fStartFromDelim ^^ !g.isWordDelim (s.charAt (s.bufPtr - 1))))
    s.bufPtr s

def processAtEol (g : Globals) (wchOrig wch : Wchar) : Option CookedReadData :=
  if wch = BACKSPACE ∧ s.bufPtr = 0 then some s
  else if wch = BACKSPACE ∧ s.processedInput then s.eraseWith g wchOrig eraseAtEnd
  else s.storeNext wch

/-- Carriage return goes to the end, wherever the insertion point is. -/
def storeReturn : Option CookedReadData :=
  (Span.write (s.bytesRead / 2) [CARRIAGERETURN] s.buffer).map fun buffer =>
    { s with
      buffer
      bufPtr := s.bytesRead / 2 + 1
      bytesRead := s.bytesRead + 2
      currentPosition := s.currentPosition + 1 }

def openGap : Option CookedReadData :=
  if s.insertMode then
    (Span.move s.bufPtr (s.bufPtr + (s.bytesRead - s.currentPosition * 2) / 2)
      (s.bufPtr + 1) s.buffer).map fun buffer =>
      { s with buffer, bytesRead := s.bytesRead + 2 }
  else some s

def storeInMiddle (wch : Wchar) : Option CookedReadData :=
  s.openGap.bind fun s =>
    (Span.write s.bufPtr [wch] s.buffer).map fun buffer =>
      { s with buffer, bufPtr := s.bufPtr + 1, currentPosition := s.currentPosition + 1 }

def rewrite (echoed : Bool) : CookedReadData :=
  if s.echoInput ∧ ¬ echoed then { s with bytesRead := 0, phase := .failed } else s

def processInMiddle (g : Globals) (wchOrig wch : Wchar) (echoed : Bool) : Option CookedReadData :=
  if wch = BACKSPACE ∧ s.processedInput then
    if s.bufPtr = 0 then some s else (s.eraseWith g wchOrig eraseInMiddle).map (rewrite · echoed)
  else if wch = CARRIAGERETURN then s.storeReturn.map (rewrite · echoed)
  else (s.storeInMiddle wch).map (rewrite · echoed)

/-- Behind carriage return, line feed is added if there is room. -/
def completeReturn (g : Globals) : Option CookedReadData :=
  (if s.processedInput ∧ s.bytesRead < s.bufferSize then s.storeNext LINEFEED else some s).map fun s =>
    { s with insertMode := g.insertMode, phase := .returned }

def completeIfReturn (g : Globals) (wch : Wchar) : Option CookedReadData :=
  if s.phase = .reading ∧ wch = CARRIAGERETURN then s.completeReturn g else some s

def isWakeup (wch : Wchar) : Bool :=
  s.ctrlWakeupMask != 0 && wch.toNat < 0x20 && s.ctrlWakeupMask.getLsbD wch.toNat

def processInput (g : Globals) (wchOrig : Wchar) (echoed : Bool) : Option CookedReadData :=
  if s.bytesRead ≥ s.bufferSize - 2 * 2 ∧ wchOrig ≠ CARRIAGERETURN ∧ wchOrig ≠ BACKSPACE then some s
  else if s.isWakeup wchOrig then (s.storeNext wchOrig).map fun s => { s with phase := .woken }
  else
    let wch := if wchOrig = g.erasePrevWord then BACKSPACE else wchOrig
    if s.atEol then
      let wch := if wch = BACKSPACE2 then BACKSPACE else wch
      (s.processAtEol g wchOrig wch).bind (completeIfReturn · g wch)
    else (s.processInMiddle g wchOrig wch echoed).bind (completeIfReturn · g wch)

def write (wstr : List Wchar) : Option CookedReadData :=
  let charsRemaining := s.bufferSize / 2 - s.bufPtr
  let text := wstr.take charsRemaining
  (Span.write s.bufPtr text s.buffer).map fun buffer =>
    { s with
      buffer
      currentPosition := s.currentPosition + text.length
      bytesRead := s.bytesRead + 2 * text.length
      bufPtr := s.bufPtr + text.length }

/-! ## Deleting and moving -/

def deletePromptAfterCursor : CookedReadData := { s with bytesRead := s.currentPosition * 2 }

def deletePromptBeforeCursor : Option CookedReadData :=
  let bytesRead := s.bytesRead - s.currentPosition * 2
  (Span.move s.bufPtr (s.bufPtr + bytesRead / 2) 0 s.buffer).map fun buffer =>
    { s with buffer, bytesRead, currentPosition := 0, bufPtr := 0 }

def deleteFromRightOfCursor : Option CookedReadData :=
  if s.atEol then some s
  else (s.closeUp s.bufPtr s.currentPosition).map fun buffer => { s with buffer, bytesRead := s.bytesRead - 2 }

def moveCursorTo (position : Nat) : CookedReadData := { s with bufPtr := position, currentPosition := position }

def moveCursorToEndOfPrompt : CookedReadData := s.moveCursorTo (s.bytesRead / 2)

def moveCursorToStartOfPrompt : CookedReadData := s.moveCursorTo 0

def moveCursorLeft : CookedReadData :=
  if s.bufPtr = 0 then s else { s with bufPtr := s.bufPtr - 1, currentPosition := s.currentPosition - 1 }

/-- `while (--p != start)`, up to a character with `stop`. -/
def skipBack (stop : Wchar → Bool) : Nat → Nat
  | 0 => 0
  | p + 1 => if p = 0 ∨ stop (s.charAt p) then p else skipBack stop p

def lastWord (g : Globals) (p : Nat) : Nat :=
  let p := if s.charAt p = SPACE then s.skipBack (· != SPACE) p else p
  let p :=
    if p = 0 then 0
    else if g.isWordDelim (s.charAt p) then s.skipBack (fun wch => wch == SPACE || !g.isWordDelim wch) p
    else s.skipBack g.isWordDelim p
  if p = 0 then 0 else p + 1

def moveCursorLeftByWord (g : Globals) : CookedReadData :=
  if s.bufPtr = 0 then s
  else s.moveCursorTo (if s.bufPtr - 1 = 0 then s.bufPtr else s.lastWord g (s.bufPtr - 1))

def skipAhead (stop : Wchar → Bool) : Nat → Nat → Nat
  | 0, p => p
  | n + 1, p => if stop (s.charAt p) then p else skipAhead stop n (p + 1)

def skipUpTo (stop : Wchar → Bool) (last p : Nat) : Nat := s.skipAhead stop (last - p) p

def nextWord (g : Globals) (last p : Nat) : Nat :=
  if s.charAt p = SPACE then s.skipUpTo (· != SPACE) last (p + 1)
  else
    let fStartFromDelim := g.isWordDelim (s.charAt p)
    s.skipUpTo (· != SPACE) last (s.skipUpTo (fun wch => fStartFromDelim != g.isWordDelim wch) last (p + 1))

def moveCursorRightByWord (g : Globals) : CookedReadData :=
  if s.currentPosition < s.bytesRead / 2 then s.moveCursorTo (s.nextWord g (s.bytesRead / 2) s.bufPtr) else s

/-! ## The history -/

def room : Nat := s.bufferSize / 2

def lastCommand : List Wchar := (s.commandHistory.map (·.getLastCommand)).getD []

/-- At the end, the character of the last command at this position. -/
def moveCursorRight : Option CookedReadData :=
  if s.currentPosition < s.bytesRead / 2 then
    some { s with bufPtr := s.bufPtr + 1, currentPosition := s.currentPosition + 1 }
  else
    match s.lastCommand[s.currentPosition]? with
    | some wch => s.storeNext wch
    | none => some s

def insertCtrlZ : Option CookedReadData := s.storeNext CTRLZ

def deleteCommandHistory : CookedReadData := { s with commandHistory := s.commandHistory.map (·.empty) }

def fillPromptWithPreviousCommandFragment : Option CookedReadData :=
  if s.currentPosition < s.lastCommand.length then
    let fragment := s.lastCommand.drop s.currentPosition
    (Span.write s.bufPtr fragment s.buffer).map fun buffer =>
      { s with
        buffer
        currentPosition := s.currentPosition + fragment.length
        bytesRead := max (s.lastCommand.length * 2) s.bytesRead
        bufPtr := s.bufPtr + fragment.length }
  else some s

def recallCommand (text : List Wchar) : Option CookedReadData :=
  (Span.write 0 text s.buffer).map fun buffer =>
    { s.erase with buffer, bytesRead := 2 * text.length, currentPosition := text.length, bufPtr := text.length }

/-- What `RetrieveNth` throws is caught after the line was erased. -/
def recallOrErase (retrieved : CommandHistory × Option (List Wchar)) : Option CookedReadData :=
  let s := { s with commandHistory := some retrieved.1 }
  match retrieved.2 with
  | some text => s.recallCommand text
  | none => some s.erase

def setCurrentCommandLine (index : Int) : Option CookedReadData :=
  match s.commandHistory with
  | none => some s
  | some h =>
    let retrieved := h.retrieveNth index s.room
    retrieved.2.bind fun text => { s with commandHistory := some retrieved.1 }.recallCommand text

def processHistoryCycling (direction : SearchDirection) : Option CookedReadData :=
  match s.commandHistory with
  | none => some s
  | some h =>
    if direction = .previous ∧ h.atFirstCommand ∨ direction = .next ∧ h.atLastCommand then some s
    else s.recallOrErase (h.retrieve direction s.room)

def setPromptToOldestCommand : Option CookedReadData :=
  match s.commandHistory with
  | none => some s
  | some h => if h.commands = [] then some s else s.recallOrErase (h.retrieveNth 0 s.room)

def setPromptToNewestCommand : Option CookedReadData :=
  match s.commandHistory with
  | none => some s.erase
  | some h => if h.commands = [] then some s.erase else s.recallOrErase (h.retrieveNth (h.size - 1) s.room)

/-- The insertion point stays where it is. -/
def cycleMatchingCommandHistoryToPrompt : Option CookedReadData :=
  match s.commandHistory with
  | none => some s
  | some h =>
    match h.findMatchingCommand (s.buffer.take s.currentPosition) h.lastDisplayed false with
    | (h, none) => some { s with commandHistory := some h }
    | (h, some index) =>
      match (h.retrieveNth index s.room).2 with
      | some _ => (s.recallOrErase (h.retrieveNth index s.room)).map (moveCursorTo · s.currentPosition)
      | none => s.recallOrErase (h.retrieveNth index s.room)

/-! ## Popups -/

def textToChar (wch : Wchar) : List Wchar :=
  let text := s.lastCommand.drop s.currentPosition
  match (text.drop 1).idxOf? wch with
  | some i => text.take (i + 1)
  | none => []

def copyToChar (wch : Wchar) : Option CookedReadData :=
  if s.textToChar wch = [] then some s else s.write (s.textToChar wch)

def copyFromChar (wch : Wchar) : Option CookedReadData :=
  if s.commandHistory = none then some s
  else
    match ((s.buffer.drop s.bufPtr).drop 1).idxOf? wch with
    | none => some s.deletePromptAfterCursor
    | some i => (List.range (i + 1)).foldlM (fun s _ => deleteFromRightOfCursor s) s

def commandNumber (number : Nat) : Option CookedReadData :=
  match s.commandHistory with
  | none => some s
  | some h => if h.commands = [] then some s else s.setCurrentCommandLine (min number (h.commands.length - 1) : Nat)

def commandList (index : Nat) : Option CookedReadData :=
  match s.commandHistory with
  | none => some s
  | some h => if index < h.commands.length then s.setCurrentCommandLine index else some s

end CookedReadData

/-! ## The loop -/

/-- A key as `GetChar` returns it; a popup comes with its answer. -/
inductive Key where
  | char (wch : Wchar) (echoed : Bool)
  | escape
  | up
  | down
  | prior
  | next
  | toEnd (ctrl : Bool)
  | home (ctrl : Bool)
  | left (ctrl : Bool)
  | right (ctrl : Bool)
  | insert
  | delete
  | f1
  | f2 (copyTo : Wchar)
  | f3
  | f4 (copyFrom : Wchar)
  | f6
  | f7 (index : Nat)
  | altF7
  | f8
  | f9 (number : Nat)
  /-- The list popup took a command out of the history or moved it. -/
  | arrangeHistory (h : CommandHistory)
deriving DecidableEq, Repr

namespace CookedReadData

variable (s : CookedReadData)

def processKey (g : Globals) : Key → Option CookedReadData
  | .char wch echoed => s.processInput g wch echoed
  | .escape => some s.erase
  | .up => s.processHistoryCycling .previous
  | .down => s.processHistoryCycling .next
  | .prior => s.setPromptToOldestCommand
  | .next => s.setPromptToNewestCommand
  | .toEnd ctrl => some (if ctrl then s.deletePromptAfterCursor else s.moveCursorToEndOfPrompt)
  | .home ctrl => if ctrl then s.deletePromptBeforeCursor else some s.moveCursorToStartOfPrompt
  | .left ctrl => some (if ctrl then s.moveCursorLeftByWord g else s.moveCursorLeft)
  | .right ctrl => if ctrl then some (s.moveCursorRightByWord g) else s.moveCursorRight
  | .insert => some { s with insertMode := !s.insertMode }
  | .delete => s.deleteFromRightOfCursor
  | .f1 => s.moveCursorRight
  | .f2 copyTo => s.copyToChar copyTo
  | .f3 => s.fillPromptWithPreviousCommandFragment
  | .f4 copyFrom => s.copyFromChar copyFrom
  | .f6 => s.insertCtrlZ
  | .f7 index => s.commandList index
  | .altF7 => some s.deleteCommandHistory
  | .f8 => s.cycleMatchingCommandHistoryToPrompt
  | .f9 number => s.commandNumber number
  | .arrangeHistory h => some { s with commandHistory := s.commandHistory.map fun _ => h }

def TakesKeys : Prop := s.phase = .reading ∧ s.bytesRead < s.bufferSize

instance : Decidable s.TakesKeys := inferInstanceAs (Decidable (_ ∧ _))

/-- One turn of `_readCharInputLoop`; a read that is over takes no keys. -/
def readKey (g : Globals) (s : CookedReadData) (key : Key) : Option CookedReadData :=
  if s.TakesKeys then s.processKey g key else some s

end CookedReadData

end Terminal.Host
