import Mathlib.Algebra.Ring.Nat
import Terminal.Host.ReadCompletion

/-!
# Pending line input (`_ReadPendingInput`, `TranslateUnicodeToOem`)

What a cooked read has saved goes to the client's next reads. The buffer of an ANSI read has two
bytes for each one asked for. An access past the pending text has no result.
-/

namespace Terminal.Host

open Terminal.Parser (Wchar)
open List Option

abbrev Byte := BitVec 8

/-- `ConvertToOem` gives two bytes for a full-width character. -/
structure CodePage where
  fullWidth : Wchar → Bool
  convertToOem : Wchar → List Byte
  isDBCSLeadByte : Byte → Bool
  length_convertToOem : ∀ wch, (convertToOem wch).length = if fullWidth wch then 2 else 1
  isDBCSLeadByte_head : ∀ wch, fullWidth wch → isDBCSLeadByte ((convertToOem wch).getD 0 0)

namespace CodePage

variable (cp : CodePage)

def width (wch : Wchar) : Nat := if cp.fullWidth wch then 2 else 1

def widths (text : List Wchar) : Nat := (text.map cp.width).sum

/-! ## Translation -/

/-- `AsciiDbcs` with both bytes, or one; then the other is held back. -/
def translateFrom (cbAnsi : Nat) : List Wchar → List Byte → List Byte × Option Byte
  | [], out => (out, none)
  | wch :: rest, out =>
    if out.length ≥ cbAnsi then (out, none)
    else
      let lead := (cp.convertToOem wch).getD 0 0
      let trail := (cp.convertToOem wch).getD 1 0
      if cp.fullWidth wch then
        if cp.isDBCSLeadByte lead then
          if out.length < cbAnsi - 1 then translateFrom cbAnsi rest (out ++ [lead, trail])
          else (out, if trail = 0 then none else some trail)
        else translateFrom cbAnsi rest (out ++ [lead])
      else translateFrom cbAnsi rest (out ++ [lead])

def translateUnicodeToOem (text : List Wchar) (cbAnsi : Nat) :
    List Byte × Option Byte := cp.translateFrom cbAnsi text []

end CodePage

def wcharBytes (wch : Wchar) : List Byte := [wch.setWidth 8, (wch >>> 8).setWidth 8]

/-! ## One read -/

structure Source where
  handle : InputReadHandleData
  partialByte : Option Byte := none
deriving DecidableEq, Repr

def countBytes (cp : CodePage) (stopAtFeed : Bool) (pendingBytes room : Nat) : List Wchar → Nat → Option Nat
  | [], numToBytes => if numToBytes < pendingBytes ∧ numToBytes < room then none else some numToBytes
  | wch :: rest, numToBytes =>
    if numToBytes < pendingBytes ∧ numToBytes < room ∧ ¬ (stopAtFeed ∧ wch = LINEFEED) then
      countBytes cp stopAtFeed pendingBytes room rest (numToBytes + cp.width wch)
    else some numToBytes

def scanLine (pendingBytes : Nat) : List Wchar → Nat → Option Nat
  | [], numToWrite => if numToWrite < pendingBytes then none else some numToWrite
  | wch :: rest, numToWrite =>
    if numToWrite < pendingBytes ∧ wch ≠ LINEFEED then scanLine pendingBytes rest (numToWrite + 2) else some numToWrite

namespace InputReadHandleData

variable (handle : InputReadHandleData)

def numToWrite (pendingBytes bufferRemaining : Nat) : Option Nat :=
  if handle.isMultilineInput then (scanLine pendingBytes handle.buffer 0).map fun scanned => min
    (scanned + 2) bufferRemaining
  else some (min bufferRemaining pendingBytes)

def copyTo (start numToWrite : Nat) (buffer : List Byte) : Option (List Byte) :=
  (Span.read 0 numToWrite (handle.buffer.flatMap wcharBytes)).bind fun bytes => Span.write start bytes buffer

def consume (pendingBytes numToWrite : Nat) : Option InputReadHandleData :=
  if numToWrite > pendingBytes then none
  else if pendingBytes - numToWrite = 0 then some completePending
  else some (handle.updatePending ((handle.buffer.drop (numToWrite / 2)).take ((pendingBytes - numToWrite) / 2)))

end InputReadHandleData

structure Fetched where
  start : Nat
  buffer : List Byte
  pendingBytes : Nat

namespace Source

variable (cp : CodePage) (src : Source)

def pendingBytes : Nat := 2 * src.handle.buffer.length

def readUnicode (buffer : List Byte) : Option (Source × List Byte) := do
  let numToWrite ← src.handle.numToWrite src.pendingBytes buffer.length
  let buffer ← src.handle.copyTo 0 numToWrite buffer
  let handle ← src.handle.consume src.pendingBytes numToWrite
  some ({ src with handle }, buffer.take numToWrite)

/-- The byte takes a whole `wchar_t`, and one off the count. -/
def fetchPartial (buffer : List Byte) : Option Fetched :=
  match src.partialByte with
  | none => some ⟨0, buffer, src.pendingBytes⟩
  | some byte =>
    (Span.write 0 [byte, if byte.msb then 0xFF else 0] buffer).map fun buffer =>
      ⟨2, buffer, if src.pendingBytes = 0 then 2 ^ 64 - 2 else src.pendingBytes - 2⟩

/-- The text is copied in Unicode and translated in place. -/
def translatePending (fetched : Fetched) (bufferRemaining : Nat) : Option (Source × List Byte) := do
  let numToBytes ←
    countBytes cp src.handle.isMultilineInput fetched.pendingBytes (bufferRemaining / 2) src.handle.buffer 0
  let numToWrite ← src.handle.numToWrite fetched.pendingBytes bufferRemaining
  let buffer ← src.handle.copyTo fetched.start numToWrite fetched.buffer
  let handle ← src.handle.consume fetched.pendingBytes numToWrite
  let translated := cp.translateUnicodeToOem (src.handle.buffer.take (numToWrite / 2)) numToBytes
  let buffer ← Span.write fetched.start translated.1 buffer
  some (⟨handle, translated.2⟩, buffer.take (translated.1.length + if fetched.start = 0 then 0 else 1))

def readAnsi (buffer : List Byte) : Option (Source × List Byte) :=
  (src.fetchPartial buffer).bind fun fetched =>
    let bufferRemaining := buffer.length - fetched.start
    if fetched.pendingBytes = 0 ∨ src.handle.isMultilineInput ∧ bufferRemaining = 0 then
      some (⟨.completePending, none⟩, fetched.buffer.take 1)
    else src.translatePending cp fetched bufferRemaining

def readPendingInput (unicode : Bool) (buffer : List Byte) : Option (Source × List Byte) :=
  if buffer.length < 2 then some (src, [])
  else if unicode then src.readUnicode buffer
  else src.readAnsi cp buffer

end Source

/-! ## What the loops count -/

namespace CodePage

variable {cp : CodePage}

@[simp] theorem widths_nil : cp.widths [] = 0 := rfl

@[simp] theorem widths_cons (wch : Wchar) (text : List Wchar) :
    cp.widths (wch :: text) = cp.width wch + cp.widths text := by
  simp [widths]

theorem width_pos (wch : Wchar) : 1 ≤ cp.width wch := by
  unfold width
  split_ifs <;> omega

theorem width_le_two (wch : Wchar) : cp.width wch ≤ 2 := by
  unfold width
  split_ifs <;> omega

variable (text : List Wchar)

theorem widths_le : cp.widths text ≤ 2 * text.length := by
  induction text with
  | nil => simp
  | cons wch text ih =>
    have := @width_le_two cp wch
    simp only [widths_cons, length_cons]
    omega

theorem length_le_widths : text.length ≤ cp.widths text := by
  induction text with
  | nil => simp
  | cons wch text ih =>
    have := @width_pos cp wch
    simp only [widths_cons, length_cons]
    omega

theorem widths_append (front back : List Wchar) : cp.widths (front ++ back) = cp.widths front + cp.widths back := by
  simp [widths]

theorem widths_take_le {i j : Nat} (h : i ≤ j) : cp.widths (text.take i) ≤ cp.widths (text.take j) := by
  obtain ⟨d, rfl⟩ := Nat.exists_eq_add_of_le h
  rw [take_add, widths_append]
  exact Nat.le_add_right _ _

theorem length_convertToOem_eq (wch : Wchar) : (cp.convertToOem wch).length = cp.width wch := cp.length_convertToOem wch

theorem length_encode : (text.flatMap cp.convertToOem).length = cp.widths text := by
  induction text with
  | nil => rfl
  | cons wch text ih => rw [flatMap_cons, length_append, ih, length_convertToOem_eq, widths_cons]

theorem translateFrom_cons {cbAnsi : Nat} {wch : Wchar} {out : List Byte} (h : out.length + cp.width wch ≤ cbAnsi)
    (rest : List Wchar) :
    cp.translateFrom cbAnsi (wch :: rest) out = cp.translateFrom cbAnsi rest (out ++ cp.convertToOem wch) := by
  have hlength := cp.length_convertToOem wch
  unfold width at h
  rw [translateFrom]
  by_cases hfull : cp.fullWidth wch
  · rw [if_pos hfull] at h hlength
    have hlead := cp.isDBCSLeadByte_head wch hfull
    obtain ⟨lead, trail, hbytes⟩ := length_eq_two.1 hlength
    rw [hbytes] at hlead ⊢
    simp only [getD_cons_zero, getD_cons_succ] at hlead ⊢
    rw [if_neg (by omega), if_pos hfull, if_pos hlead, if_pos (by omega)]
  · rw [if_neg hfull] at h hlength
    obtain ⟨byte, hbytes⟩ := length_eq_one_iff.1 hlength
    rw [hbytes]
    simp only [getD_cons_zero]
    rw [if_neg (by omega), if_neg hfull]

theorem translateFrom_append {cbAnsi : Nat} {front : List Wchar} {out : List Byte}
    (h : out.length + cp.widths front ≤ cbAnsi) (back : List Wchar) :
    cp.translateFrom cbAnsi (front ++ back) out = cp.translateFrom cbAnsi back
      (out ++ front.flatMap cp.convertToOem) := by
  induction front generalizing out with
  | nil => simp
  | cons wch front ih =>
    rw [widths_cons] at h
    rw [cons_append, translateFrom_cons (by omega), ih, flatMap_cons, append_assoc]
    rw [length_append, length_convertToOem_eq]
    omega

theorem translateUnicodeToOem_take (k m : Nat) :
    cp.translateUnicodeToOem (text.take k) (cp.widths (text.take m)) =
      ((text.take (min k m)).flatMap cp.convertToOem, none) := by
  unfold translateUnicodeToOem
  have hsplit : text.take k = text.take (min k m) ++ (text.take k).drop (min k m) := by
    rw [drop_take, ← take_add, Nat.add_sub_cancel' (Nat.min_le_left k m)]
  rw [hsplit, translateFrom_append (by simpa using widths_take_le text (Nat.min_le_right k m)), nil_append]
  -- Either the characters are over or the buffer is full.
  rcases Nat.le_total k m with hle | hle
  · rw [Nat.min_eq_left hle, drop_eq_nil_of_le (length_take_le _ _), translateFrom]
  · cases (text.take k).drop (min k m) with
    | nil => rfl
    | cons wch rest =>
      rw [translateFrom, if_pos (Nat.le_of_eq (by rw [length_encode, Nat.min_eq_right hle]))]

end CodePage

theorem countBytes_spec (cp : CodePage) (stopAtFeed : Bool) (pendingBytes room : Nat) (text : List Wchar) (b : Nat) :
    (∃ m, m ≤ text.length ∧ countBytes cp stopAtFeed pendingBytes room text b = some (b + cp.widths (text.take m)) ∧
      (∀ i < m, b + cp.widths (text.take i) < room ∧ (stopAtFeed → text[i]? ≠ some LINEFEED)) ∧
      (pendingBytes ≤ b + cp.widths (text.take m) ∨ room ≤ b + cp.widths (text.take m) ∨
        stopAtFeed ∧ text[m]? = some LINEFEED)) ∨
    countBytes cp stopAtFeed pendingBytes room text b = none ∧ b + cp.widths text < pendingBytes ∧
      b + cp.widths text < room ∧ (stopAtFeed → LINEFEED ∉ text) := by
  induction text generalizing b with
  | nil =>
    unfold countBytes
    split_ifs with hmore
    · exact .inr ⟨rfl, by simpa using hmore.1, by simpa using hmore.2, by simp⟩
    · refine .inl ⟨0, Nat.le_refl 0, by simp, by omega, ?_⟩
      omega
  | cons wch rest ih =>
    unfold countBytes
    split_ifs with hmore
    · rcases ih (b + cp.width wch) with ⟨m, hm, hcount, hbefore, hend⟩ | ⟨hnone, hpending, hroom, hfeed⟩
      · refine .inl ⟨m + 1, by simpa using hm, ?_, ?_, ?_⟩
        · rw [hcount, take_succ_cons, CodePage.widths_cons, Nat.add_assoc]
        · rintro (_ | i) hi
          · simpa using ⟨hmore.2.1, fun hstop hwch => hmore.2.2 ⟨hstop, hwch⟩⟩
          · simpa [Nat.add_assoc] using hbefore i (by omega)
        · simpa [Nat.add_assoc] using hend
      · refine .inr ⟨hnone, ?_, ?_, ?_⟩
        · simpa [Nat.add_assoc] using hpending
        · simpa [Nat.add_assoc] using hroom
        · intro hstop hmem
          rcases mem_cons.1 hmem with heq | hrest
          · exact hmore.2.2 ⟨hstop, heq.symm⟩
          · exact hfeed hstop hrest
    · refine .inl ⟨0, Nat.zero_le _, by simp, by omega, ?_⟩
      simp only [getElem?_cons_zero, some.injEq]
      by_cases hfeed : stopAtFeed = true ∧ wch = LINEFEED
      · exact .inr (.inr hfeed)
      · have : ¬ (b < pendingBytes ∧ b < room) := fun hlt => hmore ⟨hlt.1, hlt.2, hfeed⟩
        omega

theorem scanLine_eq {pendingBytes : Nat} {text : List Wchar} (hfeed : LINEFEED ∈ text) (numToWrite : Nat)
    (hpending : numToWrite + 2 * text.length ≤ pendingBytes) :
    scanLine pendingBytes text numToWrite = some (numToWrite + 2 * text.idxOf LINEFEED) := by
  induction text generalizing numToWrite with
  | nil => simp at hfeed
  | cons wch rest ih =>
    rw [length_cons] at hpending
    unfold scanLine
    by_cases hwch : wch = LINEFEED
    · rw [if_neg fun h => h.2 hwch, hwch]
      rfl
    · have hrest : LINEFEED ∈ rest := (mem_cons.1 hfeed).resolve_left fun h => hwch h.symm
      rw [if_pos ⟨by omega, hwch⟩, ih hrest _ (by omega), idxOf_cons_ne _ hwch]
      exact congrArg some (by omega)

/-! ## One read in closed form -/

theorem length_wcharBytes (text : List Wchar) : (text.flatMap wcharBytes).length = 2 * text.length := by
  induction text with
  | nil => rfl
  | cons wch text ih => simp only [flatMap_cons, length_append, wcharBytes, length_cons, length_nil]; omega

theorem take_wcharBytes (text : List Wchar) (k : Nat) :
    (text.flatMap wcharBytes).take (2 * k) = (text.take k).flatMap wcharBytes := by
  induction k generalizing text with
  | zero => rfl
  | succ k ih =>
    cases text with
    | nil => simp
    | cons wch rest => simpa [wcharBytes, Nat.mul_add] using ih rest

namespace InputReadHandleData

variable {handle : InputReadHandleData} {n k : Nat}

def Terminated (handle : InputReadHandleData) : Prop :=
  handle.isMultilineInput → handle.buffer.getLast? = some LINEFEED

theorem Terminated.mem (h : handle.Terminated) (hmulti : handle.isMultilineInput) : LINEFEED ∈ handle.buffer :=
  mem_of_getLast? (h hmulti)

def available (handle : InputReadHandleData) : Nat :=
  if handle.isMultilineInput then handle.buffer.idxOf LINEFEED + 1 else handle.buffer.length

def taken (handle : InputReadHandleData) (n : Nat) : Nat := min handle.available n

def Whole (handle : InputReadHandleData) (room : Nat) : Prop := 2 ∣ room ∨ 2 * handle.available ≤ room

instance (room : Nat) : Decidable (handle.Whole room) := inferInstanceAs (Decidable (_ ∨ _))

def dropped (handle : InputReadHandleData) (k : Nat) : InputReadHandleData :=
  if k = handle.buffer.length then completePending else handle.updatePending (handle.buffer.drop k)

theorem Terminated.available_le (h : handle.Terminated) : handle.available ≤ handle.buffer.length := by
  unfold available
  split_ifs with hmulti
  · exact idxOf_lt_length_of_mem (h.mem hmulti)
  · exact Nat.le_refl _

theorem Terminated.taken_le (h : handle.Terminated) : handle.taken n ≤ handle.buffer.length :=
  Nat.le_trans (Nat.min_le_left _ _) h.available_le

theorem taken_le_room : handle.taken n ≤ n := Nat.min_le_right _ _

theorem taken_pos (hn : 1 ≤ n) (htext : handle.buffer ≠ []) : 1 ≤ handle.taken n := by
  have := length_pos_of_ne_nil htext
  unfold taken available
  split_ifs <;> omega

theorem Terminated.numToWrite_eq (h : handle.Terminated) :
    handle.numToWrite (2 * handle.buffer.length) n = some (min (2 * handle.available) n) := by
  unfold numToWrite available
  split_ifs with hmulti
  · rw [scanLine_eq (h.mem hmulti) 0 (by omega), map_some]
    exact congrArg some (by omega)
  · exact congrArg some (by omega)

theorem Terminated.numToWrite_whole (h : handle.Terminated) (hwhole : handle.Whole n) :
    handle.numToWrite (2 * handle.buffer.length) n = some (2 * handle.taken (n / 2)) := by
  rw [h.numToWrite_eq]
  unfold Whole at hwhole
  unfold taken
  exact congrArg some (by omega)

theorem Terminated.numToWrite_cut (h : handle.Terminated) (hcut : ¬ handle.Whole n) :
    handle.numToWrite (2 * handle.buffer.length) n = some n := by
  rw [h.numToWrite_eq]
  unfold Whole at hcut
  exact congrArg some (by omega)

theorem consume_eq (hk : k ≤ handle.buffer.length) :
    handle.consume (2 * handle.buffer.length) (2 * k) = some (handle.dropped k) := by
  unfold consume dropped
  rw [if_neg (by omega)]
  by_cases hall : k = handle.buffer.length
  · rw [if_pos hall, if_pos (by omega)]
  · rw [if_neg hall, if_neg (by omega)]
    have hhalf : 2 * k / 2 = k := by omega
    rw [hhalf, take_of_length_le (by simp; omega)]

theorem Terminated.consume_cut (h : handle.Terminated) (hcut : ¬ handle.Whole n) :
    handle.consume (2 * handle.buffer.length) n = some (handle.updatePending
      ((handle.buffer.drop (n / 2)).take (handle.buffer.length - n / 2 - 1))) := by
  have hle := h.available_le
  unfold Whole at hcut
  rw [consume, if_neg (by omega), if_neg (by omega)]
  have hrest : (2 * handle.buffer.length - n) / 2 = handle.buffer.length - n / 2 - 1 := by omega
  rw [hrest]

theorem copyTo_eq {buffer : List Byte} (hk : k ≤ handle.buffer.length) (hbuffer : 2 * k ≤ buffer.length) :
    ∃ rest, handle.copyTo 0 (2 * k) buffer = some ((handle.buffer.take k).flatMap wcharBytes ++ rest) ∧
      2 * k + rest.length = buffer.length := by
  have hlength : ((handle.buffer.take k).flatMap wcharBytes).length = 2 * k := by
    rw [length_wcharBytes, length_take_of_le hk]
  obtain ⟨rest, hwrite, hrest⟩ := Span.write_front ((handle.buffer.take k).flatMap wcharBytes) buffer (by omega)
  refine ⟨rest, ?_, by omega⟩
  rw [copyTo, Span.read, if_pos ⟨Nat.zero_le _, by rw [length_wcharBytes]; omega⟩, drop_zero, Nat.sub_zero,
    take_wcharBytes, bind_some, hwrite]

theorem pending_dropped (hpending : handle.isInputPending) : (handle.dropped k).pending = handle.buffer.drop k := by
  unfold dropped
  split_ifs with hall
  · simp [completePending, pending, hall]
  · simp [updatePending, pending, hpending]

theorem Terminated.dropped (h : handle.Terminated) (hk : k ≤ handle.buffer.length) : (handle.dropped k).Terminated := by
  unfold InputReadHandleData.dropped
  split_ifs with hall
  · simp [Terminated, completePending]
  · intro hmulti
    rw [updatePending, getLast?_drop, if_neg (by omega)]
    exact h hmulti

end InputReadHandleData

open InputReadHandleData

namespace Source

variable {cp : CodePage} {src : Source} {buffer : List Byte} {n : Nat}

theorem readUnicode_eq (h : src.handle.Terminated) (hwhole : src.handle.Whole buffer.length)
    (hn : buffer.length / 2 = n) :
    src.readUnicode buffer = some ({ src with handle := src.handle.dropped (src.handle.taken n) },
      (src.handle.buffer.take (src.handle.taken n)).flatMap wcharBytes) := by
  have hle := h.taken_le (n := n)
  have hroom : src.handle.taken n ≤ n := taken_le_room
  obtain ⟨rest, hcopy, -⟩ := copyTo_eq hle (show 2 * src.handle.taken n ≤ buffer.length by omega)
  have hlength : ((src.handle.buffer.take (src.handle.taken n)).flatMap wcharBytes).length =
    2 * src.handle.taken n := by
    rw [length_wcharBytes, length_take_of_le hle]
  rw [readUnicode, pendingBytes, h.numToWrite_whole hwhole, hn]
  simp only [bind_eq_bind, bind_some, hcopy, consume_eq hle]
  rw [← hlength, take_left]

theorem readUnicode_cut (h : src.handle.Terminated) (hcut : ¬ src.handle.Whole buffer.length) {src' : Source}
    {bytes : List Byte} (hread : src.readUnicode buffer = some (src', bytes)) :
    src'.handle = src.handle.updatePending
      ((src.handle.buffer.drop (buffer.length / 2)).take (src.handle.buffer.length - buffer.length / 2 - 1)) ∧
    bytes.length ≤ buffer.length := by
  rw [readUnicode, pendingBytes, h.numToWrite_cut hcut] at hread
  simp only [bind_eq_bind, bind_some, h.consume_cut hcut, bind_eq_some_iff, some.injEq, Prod.mk.injEq] at hread
  obtain ⟨copied, -, rfl, rfl⟩ := hread
  exact ⟨rfl, length_take_le _ _⟩

theorem readAnsi_translate (hheld : src.partialByte = none) (htext : src.handle.buffer ≠ [])
    (hbuffer : 2 ≤ buffer.length) :
    src.readAnsi cp buffer = src.translatePending cp ⟨0, buffer, 2 * src.handle.buffer.length⟩ buffer.length := by
  have hpos := length_pos_of_ne_nil htext
  rw [readAnsi, fetchPartial, hheld]
  simp only [bind_some, Nat.sub_zero]
  rw [if_neg (by unfold pendingBytes; omega), pendingBytes]

theorem readAnsi_none (hheld : src.partialByte = none) (htext : src.handle.buffer ≠ []) (hbuffer : 2 ≤ buffer.length)
    (hcount : countBytes cp src.handle.isMultilineInput (2 * src.handle.buffer.length) (buffer.length / 2)
      src.handle.buffer 0 = none) : src.readAnsi cp buffer = none := by
  rw [readAnsi_translate hheld htext hbuffer, translatePending, hcount]
  rfl

theorem readAnsi_cut (h : src.handle.Terminated) (hheld : src.partialByte = none) (htext : src.handle.buffer ≠ [])
    (hbuffer : 2 ≤ buffer.length) (hcut : ¬ src.handle.Whole buffer.length) {m : Nat}
    (hcount : countBytes cp src.handle.isMultilineInput (2 * src.handle.buffer.length) (buffer.length / 2)
      src.handle.buffer 0 = some (cp.widths (src.handle.buffer.take m))) {src' : Source}
    {bytes : List Byte} (hread : src.readAnsi cp buffer = some (src', bytes)) :
    src'.handle = src.handle.updatePending
      ((src.handle.buffer.drop (buffer.length / 2)).take (src.handle.buffer.length - buffer.length / 2 - 1)) ∧
    bytes.length ≤ cp.widths (src.handle.buffer.take (buffer.length / 2)) := by
  rw [readAnsi_translate hheld htext hbuffer, translatePending, hcount] at hread
  simp only [bind_eq_bind, bind_some, h.numToWrite_cut hcut, h.consume_cut hcut, bind_eq_some_iff,
    some.injEq, Prod.mk.injEq, CodePage.translateUnicodeToOem_take] at hread
  obtain ⟨copied, -, written, -, rfl, rfl⟩ := hread
  refine ⟨rfl, Nat.le_trans (length_take_le _ _) ?_⟩
  rw [CodePage.length_encode]
  exact CodePage.widths_take_le _ (Nat.min_le_left _ _)

theorem readAnsi_eq (h : src.handle.Terminated) (hheld : src.partialByte = none) (htext : src.handle.buffer ≠ [])
    (hbuffer : 2 ≤ buffer.length) (hwhole : src.handle.Whole buffer.length) (hn : buffer.length / 2 = n) {m : Nat}
    (hcount : countBytes cp src.handle.isMultilineInput (2 * src.handle.buffer.length) (buffer.length / 2)
      src.handle.buffer 0 = some (cp.widths (src.handle.buffer.take m))) :
    src.readAnsi cp buffer = some (⟨src.handle.dropped (src.handle.taken n), none⟩,
      (src.handle.buffer.take (min (src.handle.taken n) m)).flatMap cp.convertToOem) := by
  have hle := h.taken_le (n := n)
  have hroom : src.handle.taken n ≤ n := taken_le_room
  obtain ⟨rest, hcopy, hrest⟩ := copyTo_eq hle (show 2 * src.handle.taken n ≤ buffer.length by omega)
  have htaken : 2 * src.handle.taken n / 2 = src.handle.taken n := by omega
  rw [readAnsi_translate hheld htext hbuffer, translatePending, hcount]
  simp only [bind_eq_bind, bind_some, h.numToWrite_whole hwhole, hn, hcopy, consume_eq hle,
    htaken, CodePage.translateUnicodeToOem_take]
  generalize htranslated : (src.handle.buffer.take (min (src.handle.taken n) m)).flatMap cp.convertToOem = translated
  have hlength : translated.length ≤ buffer.length := by
    have hwidths := cp.widths_le (src.handle.buffer.take (min (src.handle.taken n) m))
    rw [← htranslated, CodePage.length_encode]
    rw [length_take] at hwidths
    omega
  obtain ⟨rest', hwrite, -⟩ := Span.write_front translated
    ((src.handle.buffer.take (src.handle.taken n)).flatMap wcharBytes ++ rest)
    (by rw [length_append, length_wcharBytes, length_take_of_le hle]; omega)
  rw [hwrite]
  simp

end Source

/-! ## Reads one after the other -/

structure ClientBuffer where
  bytes : List Byte
  two_le : 2 ≤ bytes.length

def ClientBuffer.chars (buffer : ClientBuffer) : Nat := buffer.bytes.length / 2

theorem ClientBuffer.chars_pos (buffer : ClientBuffer) : 1 ≤ buffer.chars := by
  have := buffer.two_le
  unfold chars
  omega

structure Delivery where
  source : Source
  returned : List Byte := []
deriving DecidableEq, Repr

namespace Delivery

variable (cp : CodePage) (unicode : Bool)

def deliver (d : Delivery) (buffer : ClientBuffer) : Option Delivery :=
  if d.source.handle.isInputPending then
    (d.source.readPendingInput cp unicode buffer.bytes).map fun read => ⟨read.1, d.returned ++ read.2⟩
  else some d

variable (text : List Wchar)

def encode : List Byte := text.flatMap (if unicode then wcharBytes else cp.convertToOem)

/-- What was returned and what is pending make up the text. -/
def InOrder (d : Delivery) : Prop :=
  d.returned ++ encode cp unicode d.source.handle.pending = encode cp unicode text

/-- An ANSI read of one line counts past the end of the text if it has room. -/
def CountsWithin (handle : InputReadHandleData) (n : Nat) : Prop :=
  if handle.isMultilineInput then n ≤ handle.buffer.idxOf LINEFEED
  else handle.buffer ≠ [] ∧ (n ≤ cp.widths handle.buffer ∨ cp.widths handle.buffer = 2 * handle.buffer.length)

/-- An ANSI read has room for a full-width character only at its end. -/
def Sends (d : Delivery) (buffer : ClientBuffer) : Prop :=
  d.source.handle.isInputPending → d.source.handle.Whole buffer.bytes.length ∧ (unicode = false →
    CountsWithin cp d.source.handle buffer.chars ∧
    cp.widths (d.source.handle.buffer.take (d.source.handle.taken buffer.chars - 1)) < buffer.chars)

instance (handle : InputReadHandleData) (n : Nat) : Decidable (CountsWithin cp handle n) :=
  inferInstanceAs (Decidable (ite ..))

instance (d : Delivery) (buffer : ClientBuffer) : Decidable (d.Sends cp unicode buffer) :=
  inferInstanceAs (Decidable (_ → _))

variable {cp unicode} {text : List Wchar} {d d' : Delivery} {buffer : ClientBuffer}

theorem encode_append (front back : List Wchar) :
    encode cp unicode (front ++ back) = encode cp unicode front ++ encode cp unicode back := by
  simp [encode]

theorem length_encode_ansi : (encode cp false text).length = cp.widths text := cp.length_encode text

theorem le_length_encode : (if unicode then 2 else 1) * text.length ≤ (encode cp unicode text).length := by
  cases unicode with
  | false => simpa [length_encode_ansi] using cp.length_le_widths text
  | true => exact Nat.le_of_eq (length_wcharBytes text).symm

theorem encode_take_append_drop_iff {j k : Nat} (hjk : j ≤ k) (hk : k ≤ text.length) :
    encode cp false (text.take j) ++ encode cp false (text.drop k) = encode cp false text ↔ j = k := by
  constructor
  · intro h
    have hlength := congrArg length h
    rw [length_append, length_encode_ansi, length_encode_ansi, length_encode_ansi] at hlength
    have hsplit : cp.widths text = cp.widths (text.take k) + cp.widths (text.drop k) := by
      rw [← CodePage.widths_append, take_append_drop]
    have hmore : cp.widths (text.take k) = cp.widths (text.take j) + cp.widths ((text.drop j).take (k - j)) := by
      rw [← CodePage.widths_append, ← take_add, Nat.add_sub_cancel' hjk]
    have hpositive := cp.length_le_widths ((text.drop j).take (k - j))
    rw [length_take, length_drop] at hpositive
    omega
  · rintro rfl
    rw [← encode_append, take_append_drop]

structure Between (cp : CodePage) (unicode : Bool) (text : List Wchar) (d : Delivery) : Prop where
  nothingHeld : d.source.partialByte = none
  terminated : d.source.handle.isInputPending → d.source.handle.Terminated
  inOrder : d.InOrder cp unicode text

theorem Between.inOrder_step (h : Between cp unicode text d) (hpending : d.source.handle.isInputPending) {k : Nat}
    (bytes : List Byte) : InOrder cp unicode text ⟨⟨d.source.handle.dropped k, none⟩, d.returned ++ bytes⟩ ↔
      bytes ++ encode cp unicode (d.source.handle.buffer.drop k) = encode cp unicode d.source.handle.buffer := by
  have hbefore : d.returned ++ encode cp unicode d.source.handle.buffer = encode cp unicode text := by
    simpa [InOrder, pending, hpending] using h.inOrder
  unfold InOrder
  rw [pending_dropped hpending, append_assoc, ← hbefore]
  exact append_right_inj _

theorem le_count_iff {handle : InputReadHandleData} (hterminated : handle.Terminated)
    (htext : handle.buffer ≠ []) {n m : Nat}
    (hn : 1 ≤ n) (htaken : handle.isMultilineInput → n ≤ handle.buffer.idxOf LINEFEED)
    (hbefore : ∀ i < m, cp.widths (handle.buffer.take i) < n)
    (hend : 2 * handle.buffer.length ≤ cp.widths (handle.buffer.take m) ∨ n ≤ cp.widths (handle.buffer.take m) ∨
      handle.isMultilineInput ∧ handle.buffer[m]? = some LINEFEED) :
    handle.taken n ≤ m ↔ cp.widths (handle.buffer.take (handle.taken n - 1)) < n := by
  have hpos := taken_pos hn htext
  have hle : handle.taken n ≤ handle.buffer.length := hterminated.taken_le
  constructor
  · intro hcounted
    exact hbefore _ (by omega)
  · by_contra hless
    have hmono : cp.widths (handle.buffer.take m) ≤ cp.widths (handle.buffer.take (handle.taken n - 1)) :=
      CodePage.widths_take_le _ (by omega)
    rcases hend with hall | hfull | ⟨hmulti, hfeed⟩
    · have hwidths := cp.widths_le (handle.buffer.take m)
      rw [length_take] at hwidths
      omega
    · omega
    · have hget : (handle.buffer.take (m + 1))[m]? =
        some LINEFEED := by rw [getElem?_take_of_lt (Nat.lt_succ_self m), hfeed]
      have hmem := mem_of_getElem? hget
      have hindex := (mem_take_iff_idxOf_lt (hterminated.mem hmulti)).1 hmem
      have := htaken hmulti
      have : handle.taken n ≤ n := taken_le_room
      omega

theorem le_count_imp {handle : InputReadHandleData} (hterminated : handle.Terminated)
    (htext : handle.buffer ≠ []) {n m : Nat}
    (hbefore : ∀ i < m, handle.isMultilineInput → handle.buffer[i]? ≠ some LINEFEED)
    (hend : 2 * handle.buffer.length ≤ cp.widths (handle.buffer.take m) ∨ n ≤ cp.widths (handle.buffer.take m) ∨
      handle.isMultilineInput ∧ handle.buffer[m]? = some LINEFEED) (hcounted : handle.taken n ≤ m) :
        CountsWithin cp handle n := by
  unfold CountsWithin
  split_ifs with hmulti
  · have hindex : ¬ handle.buffer.idxOf LINEFEED < m := fun hlt =>
      hbefore _ hlt hmulti (getElem?_idxOf (hterminated.mem hmulti))
    rw [taken, available, if_pos hmulti] at hcounted
    omega
  · have hmono : cp.widths (handle.buffer.take m) ≤ cp.widths handle.buffer := by
      conv_rhs => rw [← take_append_drop m handle.buffer, CodePage.widths_append]
      exact Nat.le_add_right _ _
    have hwidths := cp.widths_le handle.buffer
    refine ⟨htext, ?_⟩
    rcases hend with hall | hfull | ⟨h, -⟩
    · omega
    · omega
    · exact absurd h hmulti

theorem Between.not_inOrder_cut (h : Between cp unicode text d) (hpending : d.source.handle.isInputPending) {k : Nat}
    (hk : k < d.source.handle.buffer.length) {bytes : List Byte} {src' : Source}
    (hhandle : src'.handle = d.source.handle.updatePending
      ((d.source.handle.buffer.drop k).take (d.source.handle.buffer.length - k - 1)))
    (hbytes : bytes.length ≤ (encode cp unicode (d.source.handle.buffer.take k)).length + if unicode then 1 else 0) :
    ¬ InOrder cp unicode text ⟨src', d.returned ++ bytes⟩ := by
  intro hinOrder
  have hbefore : d.returned ++ encode cp unicode d.source.handle.buffer = encode cp unicode text := by
    simpa [InOrder, pending, hpending] using h.inOrder
  unfold InOrder at hinOrder
  rw [hhandle, ← hbefore] at hinOrder
  have hlength := congrArg length hinOrder
  have hsplit : encode cp unicode d.source.handle.buffer = encode cp unicode (d.source.handle.buffer.take k) ++
      (encode cp unicode ((d.source.handle.buffer.drop k).take (d.source.handle.buffer.length - k - 1)) ++
        encode cp unicode ((d.source.handle.buffer.drop k).drop (d.source.handle.buffer.length - k - 1))) := by
    rw [← encode_append, take_append_drop, ← encode_append, take_append_drop]
  have hlast := @le_length_encode cp unicode
    ((d.source.handle.buffer.drop k).drop (d.source.handle.buffer.length - k - 1))
  have hone : ((d.source.handle.buffer.drop k).drop (d.source.handle.buffer.length - k - 1)).length = 1 := by
    rw [length_drop, length_drop]
    omega
  rw [hsplit] at hlength
  simp only [length_append, pending, updatePending, hpending, if_pos] at hlength
  split_ifs at hlast hbytes <;> omega

theorem Between.ansi_iff (h : Between cp false text d) (hpending : d.source.handle.isInputPending) :
    (∃ d', d.deliver cp false buffer = some d' ∧ d'.InOrder cp false text) ↔
      d.source.handle.Whole buffer.bytes.length ∧ CountsWithin cp d.source.handle buffer.chars ∧
        cp.widths (d.source.handle.buffer.take (d.source.handle.taken buffer.chars - 1)) < buffer.chars := by
  have hterminated := h.terminated hpending
  have hread : d.source.readPendingInput cp false buffer.bytes = d.source.readAnsi cp buffer.bytes := by
    rw [Source.readPendingInput, if_neg (by have := buffer.two_le; omega), if_neg (by simp)]
  rw [deliver, if_pos hpending, hread]
  by_cases htext : d.source.handle.buffer = []
  · have hsingle : d.source.handle.isMultilineInput = false := by
      by_contra hmulti
      simpa [htext] using hterminated (by simpa using hmulti)
    have hempty : d.source.readAnsi cp buffer.bytes = some (⟨.completePending, none⟩, buffer.bytes.take 1) := by
      simp [Source.readAnsi, Source.fetchPartial, h.nothingHeld, Source.pendingBytes, htext]
    have hreturned : d.returned = encode cp false text := by
      simpa [InOrder, pending, htext, encode] using h.inOrder
    have htwo := buffer.two_le
    simp only [hempty, map_some, some.injEq, exists_eq_left']
    refine ⟨fun hinOrder => ?_, fun hsends => absurd hsends.2.1 (by simp [CountsWithin, hsingle, htext])⟩
    have hlength : min 1 buffer.bytes.length = 0 := by
      simpa [hreturned, pending, completePending, encode] using
        congrArg length hinOrder
    omega
  rcases countBytes_spec cp d.source.handle.isMultilineInput (2 * d.source.handle.buffer.length) buffer.chars
    d.source.handle.buffer 0 with ⟨m, hm, hcount, hbefore, hend⟩ | ⟨hnone, hpendingBytes, hroom, hfeed⟩
  · simp only [Nat.zero_add] at hcount hbefore hend
    by_cases hwhole : d.source.handle.Whole buffer.bytes.length
    swap
    · refine iff_of_false ?_ fun hsends => hwhole hsends.1
      rintro ⟨d', hdeliver, hinOrder⟩
      obtain ⟨⟨src', bytes⟩, hread, rfl⟩ := map_eq_some_iff.1 hdeliver
      obtain ⟨hhandle, hbytes⟩ := Source.readAnsi_cut hterminated h.nothingHeld htext buffer.two_le hwhole hcount hread
      have hcut := hterminated.available_le
      unfold Whole at hwhole
      refine h.not_inOrder_cut hpending ?_ hhandle ?_ hinOrder
      · omega
      · simpa [length_encode_ansi] using hbytes
    rw [Source.readAnsi_eq hterminated h.nothingHeld htext buffer.two_le hwhole rfl hcount]
    simp only [map_some, some.injEq, exists_eq_left', hwhole, true_and]
    rw [h.inOrder_step hpending]
    have hle : d.source.handle.taken buffer.chars ≤ d.source.handle.buffer.length := hterminated.taken_le
    have hall := @encode_take_append_drop_iff cp d.source.handle.buffer
      (min (d.source.handle.taken buffer.chars) m) (d.source.handle.taken buffer.chars) (Nat.min_le_left _ _) hle
    have hmin : min (d.source.handle.taken buffer.chars) m = d.source.handle.taken buffer.chars ↔
        d.source.handle.taken buffer.chars ≤ m := by omega
    refine (hall.trans hmin).trans ⟨fun hcounted => ?_, fun hsends => ?_⟩
    · have hsends := le_count_imp hterminated htext (fun i hi => (hbefore i hi).2) hend hcounted
      refine ⟨hsends, (le_count_iff hterminated htext buffer.chars_pos (fun hmulti => ?_) (fun i hi => (hbefore i hi).1)
        hend).1 hcounted⟩
      simpa [CountsWithin, hmulti] using hsends
    · refine (le_count_iff hterminated htext buffer.chars_pos (fun hmulti => ?_)
        (fun i hi => (hbefore i hi).1) hend).2 hsends.2
      simpa [CountsWithin, hmulti] using hsends.1
  · rw [Source.readAnsi_none h.nothingHeld htext buffer.two_le hnone]
    simp only [map_none, reduceCtorEq, false_and, exists_false, false_iff]
    rintro ⟨-, hsends, -⟩
    unfold CountsWithin at hsends
    split_ifs at hsends with hmulti
    · exact hfeed hmulti (hterminated.mem hmulti)
    · omega

theorem Between.unicode_iff (h : Between cp true text d) (hpending : d.source.handle.isInputPending) :
    (∃ d', d.deliver cp true buffer = some d' ∧ d'.InOrder cp true text) ↔
      d.source.handle.Whole buffer.bytes.length := by
  have hterminated := h.terminated hpending
  have hread : d.source.readPendingInput cp true buffer.bytes = d.source.readUnicode buffer.bytes := by
    rw [Source.readPendingInput, if_neg (by have := buffer.two_le; omega), if_pos rfl]
  rw [deliver, if_pos hpending, hread]
  by_cases hwhole : d.source.handle.Whole buffer.bytes.length
  · rw [Source.readUnicode_eq hterminated hwhole rfl]
    refine iff_of_true ⟨_, rfl, (h.inOrder_step hpending _).2 ?_⟩ hwhole
    simp only [encode, if_pos]
    rw [← flatMap_append, take_append_drop]
  · refine iff_of_false ?_ hwhole
    rintro ⟨d', hdeliver, hinOrder⟩
    obtain ⟨⟨src', bytes⟩, hread, rfl⟩ := map_eq_some_iff.1 hdeliver
    obtain ⟨hhandle, hbytes⟩ := Source.readUnicode_cut hterminated hwhole hread
    have hcut := hterminated.available_le
    unfold Whole at hwhole
    refine h.not_inOrder_cut hpending ?_ hhandle ?_ hinOrder
    · omega
    · rw [encode, if_pos rfl, length_wcharBytes, length_take_of_le (by omega), if_pos rfl]
      dsimp only
      omega

theorem Between.step_iff (h : Between cp unicode text d) :
    (∃ d', d.deliver cp unicode buffer = some d' ∧ d'.InOrder cp unicode text) ↔ d.Sends cp unicode buffer := by
  by_cases hpending : d.source.handle.isInputPending
  · cases unicode with
    | false => simpa [Sends, hpending] using h.ansi_iff hpending
    | true => simpa [Sends, hpending] using h.unicode_iff hpending
  · exact iff_of_true ⟨d, by rw [deliver, if_neg hpending], h.inOrder⟩ fun h => absurd h hpending

theorem Between.source_eq (h : Between cp unicode text d) (hpending : d.source.handle.isInputPending)
    (hsends : d.Sends cp unicode buffer) (hdeliver : d.deliver cp unicode buffer = some d') :
    d'.source = ⟨d.source.handle.dropped (d.source.handle.taken buffer.chars), none⟩ := by
  have hterminated := h.terminated hpending
  obtain ⟨hwhole, hansi⟩ := hsends hpending
  rw [deliver, if_pos hpending, Source.readPendingInput, if_neg (by have := buffer.two_le; omega)] at hdeliver
  obtain ⟨⟨src', bytes⟩, hread, rfl⟩ := map_eq_some_iff.1 hdeliver
  cases unicode with
  | true =>
    rw [Source.readUnicode_eq hterminated hwhole rfl, h.nothingHeld] at hread
    exact (congrArg Prod.fst (some.inj hread)).symm
  | false =>
    have htext : d.source.handle.buffer ≠ [] := by
      intro htext
      have hwithin := (hansi rfl).1
      unfold CountsWithin at hwithin
      split_ifs at hwithin with hmulti
      · simpa [htext] using hterminated.mem hmulti
      · exact hwithin.1 htext
    rcases countBytes_spec cp d.source.handle.isMultilineInput (2 * d.source.handle.buffer.length) buffer.chars
      d.source.handle.buffer 0 with ⟨m, -, hcount, -⟩ | ⟨hnone, -⟩
    · rw [Nat.zero_add] at hcount
      rw [Source.readAnsi_eq hterminated h.nothingHeld htext buffer.two_le hwhole rfl hcount] at hread
      exact (congrArg Prod.fst (some.inj hread)).symm
    · rw [Source.readAnsi_none h.nothingHeld htext buffer.two_le hnone] at hread
      exact absurd hread (by simp)

def left (d : Delivery) : Nat := if d.source.handle.isInputPending then max d.source.handle.buffer.length 1 else 0

theorem Between.step (h : Between cp unicode text d) (hsends : d.Sends cp unicode buffer)
    (hdeliver : d.deliver cp unicode buffer = some d') : Between cp unicode text d' ∧ d'.left ≤ d.left - 1 := by
  obtain ⟨d'', hsame, hinOrder⟩ := h.step_iff.2 hsends
  obtain rfl : d' = d'' := some.inj (hdeliver.symm.trans hsame)
  by_cases hpending : d.source.handle.isInputPending
  swap
  · obtain rfl : d = d' := by simpa [deliver, hpending] using hdeliver
    exact ⟨h, by simp [left, hpending]⟩
  have hterminated := h.terminated hpending
  have hsource := h.source_eq hpending hsends hdeliver
  have hle : d.source.handle.taken buffer.chars ≤ d.source.handle.buffer.length := hterminated.taken_le
  refine ⟨⟨by rw [hsource], fun _ => by rw [hsource]; exact hterminated.dropped hle, hinOrder⟩, ?_⟩
  unfold left
  rw [hsource]
  unfold dropped
  split_ifs with hall hrest hrest
  · simp [completePending] at hrest
  · exact Nat.zero_le _
  · have htext : d.source.handle.buffer ≠ [] := by
      intro htext
      rw [htext, length_nil] at hall hle
      omega
    have hpos := taken_pos buffer.chars_pos htext
    simp only [updatePending, length_drop]
    omega
  · exact Nat.zero_le _

def start (handle : InputReadHandleData) : Delivery := ⟨⟨handle, none⟩, []⟩

theorem between_start {handle : InputReadHandleData} (hpending : handle.isInputPending)
    (hterminated : handle.Terminated) : Between cp unicode handle.buffer (start handle) where
  nothingHeld := rfl
  terminated _ := hterminated
  inOrder := by simp [InOrder, start, pending, hpending]

theorem Between.delivered (h : Between cp unicode text d) (hdone : d.left = 0) :
    d.source.handle.isInputPending = false ∧ d.returned = encode cp unicode text := by
  have hnotPending : d.source.handle.isInputPending = false := by
    by_contra hpending
    rw [Bool.not_eq_false] at hpending
    unfold left at hdone
    rw [if_pos hpending] at hdone
    omega
  exact ⟨hnotPending, by simpa [InOrder, pending, hnotPending, encode] using h.inOrder⟩

/-- The text is delivered in order just if each read sends what it takes. -/
theorem inOrder_iff_sends (cp : CodePage) (unicode : Bool) (handle : InputReadHandleData)
    (hpending : handle.isInputPending)
    (hterminated : handle.Terminated) (buffers : List ClientBuffer) :
    ((∀ reads, reads <+: buffers → ∃ d, Steps.run (deliver cp unicode) (start handle) reads = some d ∧
        d.InOrder cp unicode handle.buffer) ↔
      Steps.Along (deliver cp unicode) (Sends cp unicode) (start handle) buffers) ∧
    (Steps.Along (deliver cp unicode) (Sends cp unicode) (start handle) buffers →
      max handle.buffer.length 1 ≤ buffers.length →
      ∃ d, Steps.run (deliver cp unicode) (start handle) buffers = some d ∧ d.source.handle.isInputPending = false ∧
        d.returned = encode cp unicode handle.buffer) := by
  have hstart := @between_start cp unicode handle hpending hterminated
  have hiff : (∀ reads, reads <+: buffers → ∃ d, Steps.run (deliver cp unicode) (start handle) reads = some d ∧
        d.InOrder cp unicode handle.buffer) ↔
      Steps.Along (deliver cp unicode) (Sends cp unicode) (start handle) buffers := by
    rw [Steps.forall_prefix_iff, and_iff_right hstart.inOrder]
    exact Steps.along_congr_of_keeps (fun d buffer d' h hsends hdeliver => (h.step hsends hdeliver).1)
      (fun d buffer h => h.step_iff) hstart
  refine ⟨hiff, fun hsends hlong => ?_⟩
  obtain ⟨d, hrun, -⟩ := hiff.2 hsends buffers (prefix_refl _)
  have hbetween := Steps.run_keeps (fun d buffer d' h hsends hdeliver => (h.step hsends hdeliver).1) hstart hsends hrun
  have hless := Steps.run_measure (fun d buffer d' (h : Between cp unicode handle.buffer d) hsends hdeliver =>
    h.step hsends hdeliver) hstart hsends hrun
  have hleft : (start handle).left = max handle.buffer.length 1 := if_pos hpending
  exact ⟨d, hrun, hbetween.delivered (by omega)⟩

/-- Shift-JIS in outline: full-width from U+3000 on. -/
def shiftJis : CodePage where
  fullWidth wch := decide (0x3000 ≤ wch)
  convertToOem wch := if 0x3000 ≤ wch then [0x81, wch.setWidth 8] else [wch.setWidth 8]
  isDBCSLeadByte byte := byte == 0x81
  length_convertToOem wch := by by_cases h : 0x3000#16 ≤ wch <;> simp [h]
  isDBCSLeadByte_head wch h := by simp_all

def clientBuffer (n : Nat) : ClientBuffer := ⟨List.replicate (n + 2) 0, by simp⟩

theorem inOrder_iff_sends_narrow : ∃ d, Steps.run (deliver shiftJis false) (start ⟨true, false, replicate 6 0x61⟩)
        [clientBuffer 6, clientBuffer 2, clientBuffer 0, clientBuffer 0, clientBuffer 0, clientBuffer 0] = some d ∧
      d.source.handle.isInputPending = false ∧ d.returned = replicate 6 0x61 :=
  (inOrder_iff_sends shiftJis false ⟨true, false, replicate 6 0x61⟩ rfl (by simp [Terminated]) _).2
    (by decide +kernel) (by decide)

/-- One read loses the line feed, another runs past the end. -/
theorem not_inOrder_ansi :
    (∃ d, Steps.run (deliver shiftJis false) (start ⟨true, true, [0x32, 0x0D, 0x0A]⟩) [clientBuffer 6] = some d ∧
      d.source.handle.isInputPending = false ∧ d.returned = [0x32, 0x0D] ∧
      encode shiftJis false [0x32, 0x0D, 0x0A] = [0x32, 0x0D, 0x0A]) ∧
    Steps.run (deliver shiftJis false) (start ⟨true, false, [0x32]⟩) [clientBuffer 2] = none := by
  refine ⟨⟨⟨⟨.completePending, none⟩, [0x32, 0x0D]⟩, ?_⟩, ?_⟩ <;> decide +kernel

end Delivery

end Terminal.Host
