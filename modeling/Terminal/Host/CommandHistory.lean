import Mathlib.Tactic.Common
import Terminal.Parser.Chars

/-!
# The command history (`CommandHistory`)

Oldest first. `lastDisplayed` is a `SHORT`: it can be negative, and an index outside of the list
has no command.
-/

namespace Terminal.Host

open Terminal.Parser (Wchar)

structure CommandHistory where
  commands : List (List Wchar) := []
  maxCommands : Int := 50
  lastDisplayed : Int := -1
  isReset : Bool := false
deriving DecidableEq, Repr

inductive SearchDirection where
  | previous
  | next
deriving DecidableEq, Repr

namespace CommandHistory

variable (h : CommandHistory)

def size : Int := h.commands.length

def command (index : Int) : Option (List Wchar) := if 0 ≤ index then h.commands[index.toNat]? else none

/-! ## Indices -/

def prev (ind : Int) : Int := (if ind ≤ 0 then h.size else ind) - 1

def next (ind : Int) : Int := if ind + 1 ≥ h.size then 0 else ind + 1

def dec (ind : Int) : Int := (if ind ≤ 0 then h.maxCommands else ind) - 1

def inc (ind : Int) : Int := if ind + 1 ≥ h.maxCommands then 0 else ind + 1

def reset : CommandHistory := { h with lastDisplayed := h.size - 1, isReset := true }

def empty : CommandHistory := { h with commands := [], lastDisplayed := -1, isReset := true }

def atFirstCommand : Bool :=
  if h.isReset then false
  else
    let i := h.lastDisplayed - 1
    (if i = -1 then h.size - 1 else i) == h.size - 1

def atLastCommand : Bool := h.lastDisplayed == h.size - 1

/-! ## Looking up -/

def getLastCommand : List Wchar := (h.command h.lastDisplayed).getD []

def retrieveNth (index : Int) (room : Nat) : CommandHistory × Option (List Wchar) :=
  ({ h with lastDisplayed := index }, (h.command index).map (List.take room))

def advance (direction : SearchDirection) : CommandHistory :=
  if h.commands.length = 1 then { h with lastDisplayed := 0 }
  else
    match direction with
    | .previous =>
      -- The first one of a read shows the current command.
      if h.isReset then { h with isReset := false } else { h with lastDisplayed := h.prev h.lastDisplayed }
    | .next => { h with lastDisplayed := h.next h.lastDisplayed }

def retrieve (direction : SearchDirection) (room : Nat) : CommandHistory × Option (List Wchar) :=
  if h.commands = [] then (h, none)
  else (h.advance direction).retrieveNth (h.advance direction).lastDisplayed room

theorem length_le_of_retrieveNth {h : CommandHistory} {index : Int} {room : Nat} {text : List Wchar}
    (htext : (h.retrieveNth index room).2 = some text) : text.length ≤ room := by
  obtain ⟨command, -, rfl⟩ := Option.map_eq_some_iff.1 htext
  exact List.length_take_le _ _

theorem length_le_of_retrieve {h : CommandHistory} {direction : SearchDirection} {room : Nat} {text : List Wchar}
    (htext : (h.retrieve direction room).2 = some text) : text.length ≤ room := by
  unfold retrieve at htext
  split_ifs at htext
  exact length_le_of_retrieveNth htext

def matchesCommand (givenCommand : List Wchar) (exactMatch : Bool) (storedCommand : List Wchar) : Bool :=
  ((!exactMatch && decide (givenCommand.length ≤ storedCommand.length)) ||
    givenCommand.length == storedCommand.length) && givenCommand.isPrefixOf storedCommand

def searchBack (givenCommand : List Wchar) (exactMatch : Bool) : Nat → Int → Option Int
  | 0, _ => none
  | n + 1, index =>
    match h.command index with
    | none => none
    | some storedCommand =>
      if matchesCommand givenCommand exactMatch storedCommand then some index
      else searchBack givenCommand exactMatch n (h.prev index)

def startSearch (startingIndex : Int) : CommandHistory × Int :=
  if h.isReset then ({ h with isReset := false }, startingIndex) else (h, h.prev startingIndex)

def findMatchingCommand (givenCommand : List Wchar) (startingIndex : Int) (exactMatch : Bool) :
    CommandHistory × Option Int :=
  if h.commands = [] then (h, none)
  else
    let start := h.startSearch startingIndex
    if givenCommand = [] then (start.1, some start.2)
    else (start.1, start.1.searchBack givenCommand exactMatch h.commands.length start.2)

theorem length_le_of_matchesCommand {given stored : List Wchar} {exactMatch : Bool}
    (h : matchesCommand given exactMatch stored) : given.length ≤ stored.length := by
  simp only [matchesCommand, Bool.and_eq_true] at h
  exact (List.isPrefixOf_iff_prefix.1 h.2).length_le

theorem searchBack_spec {given : List Wchar} {exactMatch : Bool} {n : Nat} {start index : Int}
    (hfound : h.searchBack given exactMatch n start = some index) :
    ∃ stored, h.command index = some stored ∧ given.length ≤ stored.length := by
  induction n generalizing start with
  | zero => simp [searchBack] at hfound
  | succ n ih =>
    unfold searchBack at hfound
    split at hfound
    · simp at hfound
    · next stored hstored =>
      split_ifs at hfound with hmatch
      · obtain rfl := Option.some.inj hfound
        exact ⟨stored, hstored, length_le_of_matchesCommand hmatch⟩
      · exact ih hfound

theorem length_le_of_findMatchingCommand {h h' : CommandHistory} {given stored : List Wchar}
    {start index : Int} {exactMatch : Bool}
    (hfound : h.findMatchingCommand given start exactMatch = (h', some index))
    (hstored : h'.command index = some stored) : given.length ≤ stored.length := by
  by_cases hgiven : given = []
  · simp [hgiven]
  · rw [findMatchingCommand] at hfound
    split_ifs at hfound with hempty
    · simp at hfound
    · obtain ⟨rfl, hsearch⟩ := Prod.mk.inj hfound
      obtain ⟨found, hcommand, hle⟩ := searchBack_spec _ hsearch
      rw [hstored] at hcommand
      rwa [Option.some.inj hcommand]

/-! ## Adding and removing -/

def remove (iDel : Int) : CommandHistory × List Wchar :=
  let iLast := h.size - 1
  let iDisp := h.lastDisplayed
  match h.command iDel with
  | none => (h, [])
  | some str =>
    let iDisp :=
      if iDel < iLast then if iDisp > iDel ∧ iDisp ≤ iLast then h.dec iDisp else iDisp
      else if 0 ≤ iDisp ∧ iDisp < iDel then h.inc iDisp else iDisp
    ({ h with commands := h.commands.eraseIdx iDel.toNat, lastDisplayed := iDisp }, str)

/-- With a free slot, the text of `reuse` or the new one. -/
def append (newCommand reuse : List Wchar) : CommandHistory :=
  let h :=
    if h.size = h.maxCommands then { h with commands := h.commands.drop 1, lastDisplayed := h.lastDisplayed - 1 } else h
  { h with commands := h.commands ++ [if reuse = [] then newCommand else reuse] }

def add (newCommand : List Wchar) (suppressDuplicates : Bool) : CommandHistory :=
  if h.maxCommands = 0 ∨ newCommand = [] then h
  else if h.commands.getLast? = some newCommand then { h with isReset := true }
  else
    let (h, reuse) :=
      if suppressDuplicates then
        match h.findMatchingCommand newCommand h.lastDisplayed true with
        | (h, none) => (h, [])
        | (h, some index) => h.remove index
      else (h, [])
    let h := h.append newCommand reuse
    if h.lastDisplayed = -1 then { h.reset with isReset := true }
    else
      match h.command h.lastDisplayed with
      | none => h
      | some displayed => { (if displayed = newCommand then h else h.reset) with isReset := true }

end CommandHistory

end Terminal.Host
