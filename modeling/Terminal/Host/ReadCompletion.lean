import Terminal.Host.Alias
import Terminal.Host.LineBounds

/-!
# The end of a cooked read (`COOKED_READ_DATA::_handlePostCharInputLoop`)

The line goes to the history, an alias is expanded in place, and the client gets the first line or
as much as it asked for. This is the Unicode read; an ANSI read translates the copy.
-/

namespace Terminal.Host

open Terminal.Parser (Wchar)
open List

structure InputReadHandleData where
  isInputPending : Bool := false
  isMultilineInput : Bool := false
  buffer : List Wchar := []
deriving DecidableEq, Repr

namespace InputReadHandleData

variable (handle : InputReadHandleData)

def updatePending (pending : List Wchar) : InputReadHandleData := { handle with buffer := pending }

def savePendingInput (pending : List Wchar) : InputReadHandleData :=
  { handle with isInputPending := true }.updatePending pending

def saveMultilinePendingInput (pending : List Wchar) : InputReadHandleData :=
  { handle with isMultilineInput := true }.savePendingInput pending

def completePending : InputReadHandleData := {}

def pending : List Wchar := if handle.isInputPending then handle.buffer else []

end InputReadHandleData

namespace CookedReadData

structure Completion where
  towupper : Wchar → Wchar
  aliases : AliasData
  suppressDuplicates : Bool := false

variable (c : Completion) (s : CookedReadData)

def line : List Wchar := s.buffer.take (s.bytesRead / 2)

def addToHistory : CookedReadData :=
  { s with
    commandHistory := s.commandHistory.map (·.add (s.line.takeWhile (· != CARRIAGERETURN)) c.suppressDuplicates) }

def expansion (sourceText : List Wchar) : Option (List Wchar × Nat) :=
  (Alias.matchAndCopyAlias c.towupper c.aliases sourceText s.exeName).filter fun target =>
    target.1.length ≤ s.bufferSize / 2

def processAliases : Option (CookedReadData × Nat) :=
  match s.expansion c s.line with
  | none => some (s, 1)
  | some (targetText, lineCount) =>
    (Span.write 0 targetText s.buffer).map
      fun buffer => ({ s with buffer, bytesRead := targetText.length * 2 }, lineCount)

def finishLine : Option (CookedReadData × Nat) :=
  if s.echoInput ∧ CARRIAGERETURN ∈ s.line then (s.addToHistory c).processAliases c else some (s, 1)

/-- Up to the first line feed, looked for within `_bytesRead` characters. -/
def firstLineBytes : Option Nat :=
  let i := s.buffer.idxOf LINEFEED
  if LINEFEED ∈ s.buffer ∧ i ≤ s.bytesRead then some ((i + 1) * 2) else none

def numBytes (lineCount : Nat) : Option Nat := if lineCount > 1 then s.firstLineBytes else some s.userBufferSize

def copyAndSave (handle : InputReadHandleData) (lineCount numBytes : Nat) :
    Option (List Wchar × InputReadHandleData) := do
  let copied ← Span.read 0 (numBytes / 2) s.buffer
  let pending ← Span.read (numBytes / 2) (numBytes / 2 + (s.bytesRead - numBytes) / 2) s.buffer
  some (copied, if lineCount > 1 then handle.saveMultilinePendingInput pending else handle.savePendingInput pending)

def deliver (handle : InputReadHandleData) (lineCount : Nat) : Option (List Wchar × InputReadHandleData) :=
  if s.bytesRead > s.userBufferSize ∨ lineCount > 1 then
    (s.numBytes lineCount).bind (s.copyAndSave handle lineCount)
  else (Span.read 0 (s.bytesRead / 2) s.buffer).map fun copied => (copied, handle)

def handlePostCharInputLoop (handle : InputReadHandleData) : Option (List Wchar × InputReadHandleData) :=
  (s.finishLine c).bind fun finished => finished.1.deliver handle finished.2

/-! ## The line that was read -/

structure HoldsLine (s : CookedReadData) (text : List Wchar) : Prop where
  line : ∃ rest, s.buffer = text ++ rest
  bytes : s.bytesRead = 2 * text.length
  length : s.buffer.length = s.bufferSize / 2

variable {s : CookedReadData} {text : List Wchar}

theorem HoldsLine.line_eq (h : s.HoldsLine text) : s.line = text := by
  obtain ⟨rest, hbuffer⟩ := h.line
  simp [CookedReadData.line, h.bytes, hbuffer]

theorem HoldsLine.addToHistory (h : s.HoldsLine text) : (s.addToHistory c).HoldsLine text := { h with }

def finalLine (s : CookedReadData) (text : List Wchar) : List Wchar × Nat :=
  if s.echoInput ∧ CARRIAGERETURN ∈ text then (s.expansion c text).getD (text, 1) else (text, 1)

theorem HoldsLine.write (h : s.HoldsLine text) {target : List Wchar} (hfits : target.length ≤ s.bufferSize / 2) :
    ∃ buffer, Span.write 0 target s.buffer = some buffer ∧
      { s with buffer, bytesRead := target.length * 2 }.HoldsLine target := by
  have hlength := h.length
  obtain ⟨rest, hwrite, hrest⟩ := Span.write_front target s.buffer (by omega)
  exact ⟨_, hwrite, ⟨rest, rfl⟩, Nat.mul_comm _ _, by rw [length_append, hrest, hlength]⟩

theorem HoldsLine.processAliases (h : s.HoldsLine text) : ∃ s', s.processAliases c =
    some (s', ((s.expansion c text).getD (text, 1)).2) ∧ s'.HoldsLine ((s.expansion c text).getD (text, 1)).1 ∧
      s'.userBufferSize = s.userBufferSize := by
  rw [CookedReadData.processAliases, h.line_eq]
  cases hexpansion : s.expansion c text with
  | none => exact ⟨s, rfl, h, rfl⟩
  | some target =>
    have hfits := (Option.filter_eq_some_iff.1 hexpansion).2
    obtain ⟨buffer, hwrite, hholds⟩ := h.write (by simpa using hfits)
    exact ⟨_, by simp only [hwrite, Option.map_some, Option.getD_some], hholds, rfl⟩

theorem HoldsLine.finishLine (h : s.HoldsLine text) : ∃ s', s.finishLine c = some (s', (s.finalLine c text).2) ∧
    s'.HoldsLine (s.finalLine c text).1 ∧ s'.userBufferSize = s.userBufferSize := by
  unfold CookedReadData.finishLine finalLine
  rw [h.line_eq]
  split_ifs
  · exact (h.addToHistory c).processAliases c
  · exact ⟨s, rfl, h, rfl⟩

theorem linefeed_mem_finalLine (hlines : 1 < (s.finalLine c text).2) : LINEFEED ∈ (s.finalLine c text).1 := by
  unfold finalLine at hlines ⊢
  split_ifs at hlines ⊢
  · cases hexpansion : s.expansion c text with
    | none => simp [hexpansion] at hlines
    | some target => exact Alias.linefeed_mem_of_matchAndCopyAlias (Option.filter_eq_some_iff.1 hexpansion).1
  · simp at hlines

/-! ## Nothing is lost -/

theorem HoldsLine.firstLineBytes (h : s.HoldsLine text) (hfeed : LINEFEED ∈ text) :
    s.firstLineBytes = some ((text.idxOf LINEFEED + 1) * 2) := by
  obtain ⟨rest, hbuffer⟩ := h.line
  have hlt := idxOf_lt_length_of_mem hfeed
  have hbytes := h.bytes
  have hindex : s.buffer.idxOf LINEFEED = text.idxOf LINEFEED := by rw [hbuffer, idxOf_append_of_mem hfeed]
  have hmem : LINEFEED ∈ s.buffer := by
    rw [hbuffer]
    exact mem_append_left rest hfeed
  rw [CookedReadData.firstLineBytes, hindex]
  exact if_pos ⟨hmem, by omega⟩

theorem HoldsLine.read_front (h : s.HoldsLine text) {n : Nat} (hn : n ≤ text.length) :
    Span.read 0 n s.buffer = some (text.take n) := by
  obtain ⟨rest, hbuffer⟩ := h.line
  have hsplit : s.buffer = [] ++ (text.take n ++ (text.drop n ++ rest)) := by
    rw [nil_append, ← append_assoc, take_append_drop, hbuffer]
  rw [hsplit]
  exact Span.read_append [] _ _ rfl (by simp [hn])

theorem HoldsLine.read_back (h : s.HoldsLine text) {n : Nat} (hn : n ≤ text.length) :
    Span.read n text.length s.buffer = some (text.drop n) := by
  obtain ⟨rest, hbuffer⟩ := h.line
  have hsplit : s.buffer = text.take n ++ (text.drop n ++ rest) := by
    rw [← append_assoc, take_append_drop, hbuffer]
  rw [hsplit]
  exact Span.read_append _ _ _ (by simp [hn]) (by simp; omega)

theorem HoldsLine.copyAndSave (h : s.HoldsLine text) (handle : InputReadHandleData) (lineCount : Nat) {n : Nat}
    (hn : n ≤ text.length) : ∃ handle', s.copyAndSave handle lineCount (n * 2) = some (text.take n, handle') ∧
      handle'.pending = text.drop n := by
  have hbytes := h.bytes
  have hhalf : n * 2 / 2 = n := by omega
  have hlast : n + (s.bytesRead - n * 2) / 2 = text.length := by omega
  rw [CookedReadData.copyAndSave, hhalf, hlast, h.read_front hn, h.read_back hn]
  refine ⟨_, rfl, ?_⟩
  split_ifs
  · rfl
  · rfl

theorem HoldsLine.exists_numBytes (h : s.HoldsLine text) {lineCount : Nat} (hlines : 1 < lineCount → LINEFEED ∈ text)
    (heven : 2 ∣ s.userBufferSize) (hmore : s.bytesRead > s.userBufferSize ∨ lineCount > 1) :
    ∃ n, s.numBytes lineCount = some (n * 2) ∧ n ≤ text.length ∧
      (n * 2 ≤ s.userBufferSize ↔ (1 < lineCount → 2 * (text.idxOf LINEFEED + 1) ≤ s.userBufferSize)) := by
  unfold CookedReadData.numBytes
  by_cases hseveral : 1 < lineCount
  · have hlt := idxOf_lt_length_of_mem (hlines hseveral)
    refine ⟨text.idxOf LINEFEED + 1, ?_, hlt, ?_⟩
    · rw [if_pos hseveral, h.firstLineBytes (hlines hseveral)]
    · rw [Nat.mul_comm]
      exact (imp_iff_right hseveral).symm
  · have hbytes := h.bytes
    refine ⟨s.userBufferSize / 2, ?_, by omega, ?_⟩
    · rw [if_neg hseveral]
      exact congrArg some (by omega)
    · omega

theorem HoldsLine.deliver (h : s.HoldsLine text) {handle : InputReadHandleData}
    (hhandle : handle.isInputPending = false)
    {lineCount : Nat} (hlines : 1 < lineCount → LINEFEED ∈ text) (heven : 2 ∣ s.userBufferSize) :
    ∃ copied handle', s.deliver handle lineCount = some (copied, handle') ∧ copied ++ handle'.pending = text ∧
      (copied.length * 2 ≤ s.userBufferSize ↔ (1 < lineCount → 2 * (text.idxOf LINEFEED + 1) ≤ s.userBufferSize)) := by
  unfold CookedReadData.deliver
  split_ifs with hmore
  · obtain ⟨n, hbytes, hn, hiff⟩ := h.exists_numBytes hlines heven hmore
    obtain ⟨handle', hcopied, hpending⟩ := h.copyAndSave handle lineCount hn
    refine ⟨_, handle', by rw [hbytes, Option.bind_some, hcopied], ?_, ?_⟩
    · rw [hpending, take_append_drop]
    · rwa [length_take_of_le hn]
  · have hhalf : s.bytesRead / 2 = text.length := by
      rw [h.bytes]
      omega
    refine ⟨text, handle, ?_, ?_, ?_⟩
    · rw [hhalf, h.read_front (Nat.le_refl _), take_length, Option.map_some]
    · simp [InputReadHandleData.pending, hhandle]
    · omega

/-- The first line of an alias fits the client's buffer. -/
def FirstLineFits (s : CookedReadData) (text : List Wchar) : Prop :=
  ∀ target ∈ s.expansion c text, s.echoInput → CARRIAGERETURN ∈ text → 1 < target.2 →
    2 * (target.1.idxOf LINEFEED + 1) ≤ s.userBufferSize

theorem firstLineFits_iff : s.FirstLineFits c text ↔
    (1 < (s.finalLine c text).2 → 2 * ((s.finalLine c text).1.idxOf LINEFEED + 1) ≤ s.userBufferSize) := by
  unfold FirstLineFits finalLine
  split_ifs with hexpands
  · cases hexpansion : s.expansion c text with
    | none => simp
    | some target => simp [hexpands]
  · simp only [Nat.lt_irrefl, false_implies, iff_true]
    exact fun _ _ hecho hreturn => absurd ⟨hecho, hreturn⟩ hexpands

/-- The client and its pending input together get the final line. -/
theorem handlePostCharInputLoop_conserves (s : CookedReadData) (text : List Wchar) (h : s.HoldsLine text)
    (heven : 2 ∣ s.userBufferSize) (handle : InputReadHandleData) (hhandle : handle.isInputPending = false) :
    ∃ copied handle', s.handlePostCharInputLoop c handle = some (copied, handle') ∧
      copied ++ handle'.pending = (s.finalLine c text).1 ∧
      (copied.length * 2 ≤ s.userBufferSize ↔ s.FirstLineFits c text) := by
  obtain ⟨s', hfinish, hholds, hsize⟩ := h.finishLine c
  rw [CookedReadData.handlePostCharInputLoop, hfinish, firstLineFits_iff, ← hsize]
  exact hholds.deliver hhandle (linefeed_mem_finalLine c) (hsize ▸ heven)

def entered (userBufferSize : Nat) : CookedReadData :=
  ⟨userBufferSize, [], 0, true, true, false, none, 512, [0x61, CARRIAGERETURN, LINEFEED] ++
    List.replicate 253 SPACE, 3, 6, 3, .returned⟩

def twoCommands : Completion where
  towupper ch := if 0x61 ≤ ch.toNat ∧ ch.toNat ≤ 0x7A then ch - 0x20 else ch
  aliases _ := some fun _ => some [0x31, 0x24, 0x74, 0x32]

theorem handlePostCharInputLoop_entered : ∃ copied handle',
    (entered 80).handlePostCharInputLoop twoCommands {} = some (copied, handle') ∧
      copied ++ handle'.pending = [0x31, CARRIAGERETURN, LINEFEED, 0x32, CARRIAGERETURN, LINEFEED] ∧
      copied.length * 2 ≤ 80 := by
  have hholds : (entered 80).HoldsLine [0x61, CARRIAGERETURN, LINEFEED] := ⟨⟨_, rfl⟩, rfl, by decide +kernel⟩
  obtain ⟨copied, handle', hresult, hline, hiff⟩ :=
    handlePostCharInputLoop_conserves twoCommands (entered 80) _ hholds (by decide) {} rfl
  refine ⟨copied, handle', hresult, hline.trans (by decide +kernel), hiff.2 ?_⟩
  unfold FirstLineFits
  decide +kernel

/-- The whole first command goes to a client with room for two characters. -/
theorem handlePostCharInputLoop_overruns : ∃ copied handle',
    (entered 4).handlePostCharInputLoop twoCommands {} = some (copied, handle') ∧ 4 < copied.length * 2 :=
  ⟨[0x31, CARRIAGERETURN, LINEFEED], ⟨true, true, [0x32, CARRIAGERETURN, LINEFEED]⟩, by decide +kernel, by decide⟩

end CookedReadData

end Terminal.Host
