import Terminal.Host.CookedRead
import Terminal.Lib.Steps

/-!
# A cooked read stays inside of its line buffer

The pointer, the insertion point and the byte count agree, and nothing is stored outside of the
buffer, as long as the last command and the text of a popup fit where they are copied.
-/

namespace Terminal.Host.CookedReadData

open Terminal.Parser (Wchar)
open List Option

structure Line (s : CookedReadData) : Prop where
  length : s.buffer.length = s.bufferSize / 2
  even_size : 2 ∣ s.bufferSize
  even : 2 ∣ s.bytesRead
  pointer : s.bufPtr = s.currentPosition
  inserted : s.currentPosition * 2 ≤ s.bytesRead
  bound : s.bytesRead ≤ s.bufferSize

structure HasRoom (s : CookedReadData) : Prop extends s.Line where
  room : s.bytesRead < s.bufferSize

def Edits (s : CookedReadData) (result : Option CookedReadData) : Prop :=
  ∃ s', result = some s' ∧ s'.Line ∧ s'.phase = s.phase

variable {s : CookedReadData}

theorem Line.update (h : s.Line) {buffer : List Wchar} {bytesRead ptr position : Nat}
    (hbuffer : buffer.length = s.buffer.length) (heven : 2 ∣ bytesRead) (hptr : ptr = position)
    (hposition : position * 2 ≤ bytesRead) (hbound : bytesRead ≤ s.bufferSize) :
    { s with buffer, bytesRead, bufPtr := ptr, currentPosition := position }.Line :=
  ⟨hbuffer.trans h.length, h.even_size, heven, hptr, hposition, hbound⟩

theorem edits_map {result : Option (List Wchar)} {buffer : List Wchar} {f : List Wchar → CookedReadData}
    (hresult : result = some buffer) (hline : (f buffer).Line) (hphase : (f buffer).phase = s.phase) :
    s.Edits (result.map f) := ⟨f buffer, by rw [hresult, map_some], hline, hphase⟩

theorem Line.edits (h : s.Line) : s.Edits (some s) := ⟨s, rfl, h, rfl⟩

theorem Line.moveCursorTo (h : s.Line) {position : Nat} (hposition : position * 2 ≤ s.bytesRead) :
    (s.moveCursorTo position).Line := h.update rfl h.even rfl hposition h.bound

theorem Line.erase (h : s.Line) : s.erase.Line := h.update rfl (Nat.dvd_zero 2) rfl (by simp) (Nat.zero_le _)

theorem Line.with_history (h : s.Line) (history : Option CommandHistory) : { s with commandHistory := history }.Line :=
  { h with }

theorem Line.with_insertMode (h : s.Line) (insertMode : Bool) : { s with insertMode }.Line := { h with }

/-! ## Characters -/

theorem HasRoom.ptr_lt (h : s.HasRoom) : s.bufPtr + 1 ≤ s.buffer.length := by
  have := h.room
  have := h.inserted
  have := h.even_size
  rw [h.length, h.pointer]
  omega

theorem HasRoom.storeNext (h : s.HasRoom) (wch : Wchar) : s.Edits (s.storeNext wch) := by
  have hfits : s.bufPtr + [wch].length ≤ s.buffer.length := h.ptr_lt
  obtain ⟨buffer, hwrite, hlength⟩ := Span.exists_write hfits
  have hroom := h.room
  have heven := h.even
  have hsize := h.even_size
  have hinserted := h.inserted
  exact edits_map hwrite (h.update hlength (by omega) (by rw [h.pointer]) (by omega) (by omega)) rfl

/-- `turn` gives up the character to the left of the insertion point. -/
def ErasesOne (turn : CookedReadData → Option CookedReadData) : Prop :=
  ∀ s : CookedReadData, s.HasRoom → 0 < s.bufPtr →
    ∃ s', turn s = some s' ∧ s'.HasRoom ∧ s'.bufPtr = s.bufPtr - 1 ∧ s'.phase = s.phase

theorem erasesOne_eraseAtEnd : ErasesOne eraseAtEnd := by
  intro s h hptr
  have hfits : s.bufPtr + [SPACE].length ≤ s.buffer.length := h.ptr_lt
  obtain ⟨buffer, hwrite, hlength⟩ := Span.exists_write hfits
  have hpointer := h.pointer
  have hroom := h.room
  have heven := h.even
  have hinserted := h.inserted
  have hline := h.update hlength (show 2 ∣ s.bytesRead - 2 by omega)
    (show s.bufPtr - 1 = s.currentPosition - 1 by omega) (by omega) (by omega)
  exact ⟨_, by rw [eraseAtEnd, hwrite, map_some], ⟨hline, by dsimp only; omega⟩, rfl, rfl⟩

theorem exists_closeUp (h : s.Line) {ptr : Nat} (hptr : ptr * 2 + 2 ≤ s.bytesRead) :
    ∃ buffer, s.closeUp ptr ptr = some buffer ∧ buffer.length = s.buffer.length := by
  have hlength := h.length
  have hbound := h.bound
  obtain ⟨moved, hmove, hmoved⟩ :
    ∃ moved, Span.move (ptr + 1) (ptr + 1 + (s.bytesRead - 2 - ptr * 2) / 2) ptr s.buffer =
      some moved ∧ moved.length = s.buffer.length := Span.exists_move (by omega) (by omega) (by omega)
  have hfits : (s.bytesRead - 2) / 2 + [SPACE].length ≤ moved.length := by
    rw [length_singleton]
    omega
  obtain ⟨buffer, hwrite, hbuffer⟩ := Span.exists_write hfits
  exact ⟨buffer, by rw [closeUp, hmove, bind_some, hwrite], hbuffer.trans hmoved⟩

theorem erasesOne_eraseInMiddle : ErasesOne eraseInMiddle := by
  intro s h hptr
  have hpointer := h.pointer
  have hroom := h.room
  have heven := h.even
  have hinserted := h.inserted
  obtain ⟨buffer, hclose, hlength⟩ : ∃ buffer, s.closeUp (s.bufPtr - 1) (s.bufPtr - 1) = some buffer ∧
      buffer.length = s.buffer.length := exists_closeUp h.toLine (by omega)
  have hline := h.update hlength (show 2 ∣ s.bytesRead - 2 by omega) (show s.bufPtr - 1 = s.bufPtr - 1 from rfl)
    (by omega) (by omega)
  exact ⟨_, by rw [eraseInMiddle, ← hpointer, hclose, map_some], ⟨hline, by dsimp only; omega⟩, rfl, rfl⟩

theorem exists_eraseLoop {turn : CookedReadData → Option CookedReadData} {again : CookedReadData → Bool}
    (hturn : ErasesOne turn) (hagain : ∀ s, again s → s.bufPtr ≠ 0) {n : Nat} (h : s.HasRoom) (hn : s.bufPtr = n)
    (hpos : 0 < n) : s.Edits (eraseLoop turn again n s) := by
  induction n generalizing s with
  | zero => omega
  | succ n ih =>
    obtain ⟨s₁, hone, h₁, hptr, hphase⟩ := hturn s h (by omega)
    rw [eraseLoop, hone, bind_some]
    by_cases hmore : again s₁
    · rw [if_pos hmore]
      have hne := hagain s₁ hmore
      obtain ⟨s₂, hrest, h₂, hphase₂⟩ := ih h₁ (by omega) (by omega)
      exact ⟨s₂, hrest, h₂, hphase₂.trans hphase⟩
    · rw [if_neg hmore]
      exact ⟨s₁, rfl, h₁.toLine, hphase⟩

theorem HasRoom.eraseWith (h : s.HasRoom) (g : Globals) (wchOrig : Wchar)
    {turn : CookedReadData → Option CookedReadData}
    (hturn : ErasesOne turn) (hptr : s.bufPtr ≠ 0) : s.Edits (s.eraseWith g wchOrig turn) := by
  refine exists_eraseLoop hturn ?_ h rfl (Nat.pos_of_ne_zero hptr)
  intro s hagain
  simp only [Bool.and_eq_true, bne_iff_ne] at hagain
  exact hagain.1.2

theorem HasRoom.processAtEol (h : s.HasRoom) (g : Globals) (wchOrig wch : Wchar) :
    s.Edits (s.processAtEol g wchOrig wch) := by
  unfold CookedReadData.processAtEol
  split_ifs with hstart herase
  · exact h.toLine.edits
  · exact h.eraseWith g wchOrig erasesOne_eraseAtEnd fun hptr => hstart ⟨herase.1, hptr⟩
  · exact h.storeNext wch

theorem HasRoom.exists_openGap (h : s.HasRoom) : ∃ buffer bytesRead, s.openGap = some { s with buffer, bytesRead } ∧
    buffer.length = s.buffer.length ∧ 2 ∣ bytesRead ∧ s.bytesRead ≤ bytesRead ∧ bytesRead ≤ s.bufferSize := by
  have hpointer := h.pointer
  have hlength := h.length
  have heven := h.even
  have hsize := h.even_size
  have hroom := h.room
  have hinserted := h.inserted
  unfold openGap
  split_ifs
  · obtain ⟨buffer, hmove, hbuffer⟩ : ∃ buffer, Span.move s.bufPtr
        (s.bufPtr + (s.bytesRead - s.currentPosition * 2) / 2) (s.bufPtr + 1) s.buffer = some buffer ∧
        buffer.length = s.buffer.length := Span.exists_move (by omega) (by omega) (by omega)
    exact ⟨buffer, s.bytesRead + 2, by rw [hmove, map_some], hbuffer, by omega, by omega, by omega⟩
  · exact ⟨s.buffer, s.bytesRead, rfl, rfl, heven, Nat.le_refl _, Nat.le_of_lt hroom⟩

theorem HasRoom.storeInMiddle (h : s.HasRoom) (hmiddle : s.currentPosition * 2 < s.bytesRead) (wch : Wchar) :
    s.Edits (s.storeInMiddle wch) := by
  obtain ⟨opened, bytesRead, hgap, hopened, heven, hle, hbound⟩ := h.exists_openGap
  have hfits : s.bufPtr + [wch].length ≤ opened.length := by
    rw [hopened]
    exact h.ptr_lt
  obtain ⟨buffer, hwrite, hbuffer⟩ := Span.exists_write hfits
  have hline : { s with buffer, bytesRead, bufPtr := s.bufPtr + 1, currentPosition := s.currentPosition + 1 }.Line :=
    h.update (hbuffer.trans hopened) heven (by rw [h.pointer]) (by omega) hbound
  rw [CookedReadData.storeInMiddle, hgap]
  exact edits_map hwrite hline rfl

/-! ## The end of a read -/

structure Sound (s : CookedReadData) : Prop where
  length : s.buffer.length = s.bufferSize / 2
  even : 2 ∣ s.bytesRead
  bound : s.bytesRead ≤ s.bufferSize
  line : s.phase = .reading ∨ s.phase = .woken → s.Line

def Stays (result : Option CookedReadData) : Prop := ∃ s', result = some s' ∧ s'.Sound

theorem Line.sound (h : s.Line) : s.Sound := { h with line := fun _ => h }

theorem Edits.stays {result : Option CookedReadData} (h : s.Edits result) : Stays result := by
  obtain ⟨s', hresult, hline, -⟩ := h
  exact ⟨s', hresult, hline.sound⟩

theorem Line.rewrite (h : s.Line) (echoed : Bool) : (s.rewrite echoed).Sound := by
  unfold CookedReadData.rewrite
  split_ifs
  · exact ⟨h.length, Nat.dvd_zero 2, Nat.zero_le _, by simp⟩
  · exact h.sound

theorem Edits.rewrite {result : Option CookedReadData} (h : s.Edits result) (echoed : Bool) :
    Stays (result.map (CookedReadData.rewrite · echoed)) := by
  obtain ⟨s', rfl, hline, -⟩ := h
  exact ⟨_, rfl, hline.rewrite echoed⟩

structure AtEnd (s : CookedReadData) : Prop where
  length : s.buffer.length = s.bufferSize / 2
  even_size : 2 ∣ s.bufferSize
  pointer : s.bufPtr * 2 = s.bytesRead
  bound : s.bytesRead ≤ s.bufferSize

theorem AtEnd.exists_write (h : s.AtEnd) (hroom : s.bytesRead < s.bufferSize) (wch : Wchar) :
    ∃ buffer, Span.write s.bufPtr [wch] s.buffer = some buffer ∧ buffer.length = s.buffer.length := by
  have hlength := h.length
  have hsize := h.even_size
  have hpointer := h.pointer
  exact Span.exists_write (by rw [length_singleton]; omega)

theorem AtEnd.storeNext (h : s.AtEnd) (hroom : s.bytesRead < s.bufferSize) (wch : Wchar) :
    ∃ s', s.storeNext wch = some s' ∧ s'.AtEnd ∧ s'.phase = s.phase := by
  obtain ⟨buffer, hwrite, hlength⟩ := h.exists_write hroom wch
  have hsize := h.even_size
  have hpointer := h.pointer
  have hatEnd : { s with
      buffer, bytesRead := s.bytesRead + 2, bufPtr := s.bufPtr + 1, currentPosition := s.currentPosition + 1 }.AtEnd :=
    ⟨hlength.trans h.length, hsize, by dsimp only; omega, by dsimp only; omega⟩
  exact ⟨_, by rw [CookedReadData.storeNext, hwrite, map_some], hatEnd, rfl⟩

theorem AtEnd.completeReturn (h : s.AtEnd) (g : Globals) : Stays (s.completeReturn g) := by
  have hstays : ∀ s' : CookedReadData, s'.AtEnd →
    Stays (some { s' with insertMode := g.insertMode, phase := .returned }) :=
    fun s' h' => ⟨_, rfl, h'.length, h'.pointer ▸ Nat.dvd_mul_left 2 _, h'.bound, by simp⟩
  unfold CookedReadData.completeReturn
  split_ifs with hfeed
  · obtain ⟨s', hstore, hend, -⟩ := h.storeNext hfeed.2 LINEFEED
    rw [hstore]
    exact hstays s' hend
  · exact hstays s h

theorem HasRoom.storeReturn (h : s.HasRoom) : ∃ s', s.storeReturn = some s' ∧ s'.AtEnd ∧ s'.phase = s.phase := by
  have hlength := h.length
  have hsize := h.even_size
  have heven := h.even
  have hroom := h.room
  have hfits : s.bytesRead / 2 + [CARRIAGERETURN].length ≤ s.buffer.length := by
    rw [length_singleton]
    omega
  obtain ⟨buffer, hwrite, hbuffer⟩ := Span.exists_write hfits
  have hatEnd : { s with
      buffer, bufPtr := s.bytesRead / 2 + 1, bytesRead := s.bytesRead + 2, currentPosition :=
        s.currentPosition + 1 }.AtEnd :=
    ⟨hbuffer.trans hlength, hsize, by dsimp only; omega, by dsimp only; omega⟩
  exact ⟨_, by rw [CookedReadData.storeReturn, hwrite, map_some], hatEnd, rfl⟩

theorem completeIfReturn_stays {g : Globals} {wch : Wchar} (hend : s.phase = .reading → wch = CARRIAGERETURN → s.AtEnd)
    (hsound : s.phase ≠ .reading ∨ wch ≠ CARRIAGERETURN → s.Sound) : Stays (s.completeIfReturn g wch) := by
  unfold completeIfReturn
  split_ifs with hreturn
  · exact (hend hreturn.1 hreturn.2).completeReturn g
  · exact ⟨s, rfl, hsound (not_and_or.1 hreturn)⟩

theorem HasRoom.completeAtEol (h : s.HasRoom) (hphase : s.phase = .reading) (hend : s.atEol) (g : Globals)
    (wchOrig wch : Wchar) : Stays ((s.processAtEol g wchOrig wch).bind (completeIfReturn · g wch)) := by
  by_cases hreturn : wch = CARRIAGERETURN
  · subst hreturn
    have hatEnd : s.AtEnd := by
      refine { h with pointer := ?_ }
      rw [h.pointer]
      exact (beq_iff_eq.1 hend).symm
    obtain ⟨s', hstore, hatEnd', hphase'⟩ := hatEnd.storeNext h.room CARRIAGERETURN
    rw [CookedReadData.processAtEol, hstore]
    exact completeIfReturn_stays (fun _ _ => hatEnd') (by simp [hphase', hphase])
  · obtain ⟨s', hstored, hline, -⟩ := h.processAtEol g wchOrig wch
    rw [hstored]
    exact completeIfReturn_stays (fun _ hwch => absurd hwch hreturn) fun _ => hline.sound

theorem HasRoom.processInMiddle (h : s.HasRoom) (hmiddle : s.currentPosition * 2 < s.bytesRead) (g : Globals)
    (wchOrig : Wchar) {wch : Wchar} (hwch : wch ≠ CARRIAGERETURN) (echoed : Bool) :
    Stays (s.processInMiddle g wchOrig wch echoed) := by
  unfold CookedReadData.processInMiddle
  split_ifs with herase hstart
  · exact h.toLine.edits.stays
  · exact (h.eraseWith g wchOrig erasesOne_eraseInMiddle hstart).rewrite echoed
  · exact (h.storeInMiddle hmiddle wch).rewrite echoed

theorem HasRoom.completeInMiddle (h : s.HasRoom) (hphase : s.phase = .reading)
    (hmiddle : s.currentPosition * 2 < s.bytesRead) (g : Globals) (wchOrig wch : Wchar) (echoed : Bool) :
    Stays ((s.processInMiddle g wchOrig wch echoed).bind (completeIfReturn · g wch)) := by
  by_cases hreturn : wch = CARRIAGERETURN
  · subst hreturn
    have hne : CARRIAGERETURN ≠ BACKSPACE := by decide
    obtain ⟨s', hstore, hatEnd, hphase'⟩ := h.storeReturn
    rw [CookedReadData.processInMiddle, if_neg fun hb => hne hb.1, if_pos rfl, hstore, map_some, bind_some,
      CookedReadData.rewrite]
    split_ifs
    · exact completeIfReturn_stays (by simp) fun _ => ⟨hatEnd.length, Nat.dvd_zero 2, Nat.zero_le _, by simp⟩
    · exact completeIfReturn_stays (fun _ _ => hatEnd) (by simp [hphase', hphase])
  · obtain ⟨s', hstored, hsound⟩ := h.processInMiddle hmiddle g wchOrig hreturn echoed
    rw [hstored]
    exact completeIfReturn_stays (fun _ hwch => absurd hwch hreturn) fun _ => hsound

theorem HasRoom.processInput (h : s.HasRoom) (hphase : s.phase = .reading) (g : Globals)
    (wchOrig : Wchar) (echoed : Bool) :
    Stays (s.processInput g wchOrig echoed) := by
  rw [CookedReadData.processInput]
  by_cases hfull : s.bytesRead ≥ s.bufferSize - 2 * 2 ∧ wchOrig ≠ CARRIAGERETURN ∧ wchOrig ≠ BACKSPACE
  · rw [if_pos hfull]
    exact h.toLine.edits.stays
  rw [if_neg hfull]
  by_cases hwake : s.isWakeup wchOrig
  · obtain ⟨s', hstore, hline, -⟩ := h.storeNext wchOrig
    rw [if_pos hwake, hstore]
    have hwoken : { s' with phase := .woken }.Line := { hline with }
    exact ⟨_, rfl, hwoken.sound⟩
  rw [if_neg hwake]
  by_cases hend : s.atEol
  · rw [if_pos hend]
    exact h.completeAtEol hphase hend g wchOrig _
  · have hmiddle : s.currentPosition * 2 < s.bytesRead := by
      have hne : s.bytesRead ≠ s.currentPosition * 2 := by simpa [atEol] using hend
      have := h.inserted
      omega
    rw [if_neg hend]
    exact h.completeInMiddle hphase hmiddle g wchOrig _ echoed

/-! ## Deleting and moving -/

theorem Line.atEol_iff (h : s.Line) : s.atEol = false ↔ s.currentPosition * 2 < s.bytesRead := by
  have := h.inserted
  simp only [atEol, beq_eq_false_iff_ne]
  omega

theorem Line.deletePromptAfterCursor (h : s.Line) : s.deletePromptAfterCursor.Line := by
  have hinserted := h.inserted
  have hbound := h.bound
  exact h.update rfl (Nat.dvd_mul_left 2 _) h.pointer (Nat.le_refl _) (by omega)

theorem Line.deletePromptBeforeCursor (h : s.Line) : s.Edits s.deletePromptBeforeCursor := by
  have hlength := h.length
  have hpointer := h.pointer
  have heven := h.even
  have hinserted := h.inserted
  have hbound := h.bound
  obtain ⟨buffer, hmove, hbuffer⟩ : ∃ buffer, Span.move s.bufPtr
      (s.bufPtr + (s.bytesRead - s.currentPosition * 2) / 2) 0 s.buffer = some buffer ∧
      buffer.length = s.buffer.length := Span.exists_move (by omega) (by omega) (by omega)
  exact edits_map hmove (h.update hbuffer (by omega) rfl (by omega) (by omega)) rfl

theorem Line.deleteFromRightOfCursor (h : s.Line) : s.Edits s.deleteFromRightOfCursor := by
  unfold CookedReadData.deleteFromRightOfCursor
  split_ifs with hend
  · exact h.edits
  · have hmiddle := h.atEol_iff.1 (by simpa using hend)
    have heven := h.even
    have hbound := h.bound
    obtain ⟨buffer, hclose, hbuffer⟩ := exists_closeUp h (show s.currentPosition * 2 + 2 ≤ s.bytesRead by omega)
    rw [← h.pointer] at hclose
    nth_rewrite 2 [h.pointer] at hclose
    exact edits_map hclose (h.update hbuffer (by omega) h.pointer (by omega) (by omega)) rfl

variable (stop : Wchar → Bool)

theorem skipBack_le (p : Nat) : s.skipBack stop p ≤ p := by
  induction p with
  | zero => exact Nat.le_refl 0
  | succ p ih =>
    unfold skipBack
    split_ifs
    · omega
    · omega

theorem skipBack_lt {p : Nat} (hp : p ≠ 0) : s.skipBack stop p < p := by
  obtain ⟨p, rfl⟩ := Nat.exists_eq_succ_of_ne_zero hp
  have := s.skipBack_le stop p
  unfold skipBack
  split_ifs
  · omega
  · omega

theorem lastWord_le (g : Globals) (p : Nat) : s.lastWord g p ≤ p := by
  have hback := fun stop => @skipBack_le s stop p
  unfold lastWord
  generalize hspaces : (if s.charAt p = SPACE then s.skipBack (· != SPACE) p else p) = q
  have hq : q ≤ p := by
    rw [← hspaces]
    split_ifs
    · exact hback _
    · exact Nat.le_refl p
  by_cases hzero : q = 0
  · simp [hzero]
  · have hlt := fun stop => @skipBack_lt s stop q hzero
    dsimp only
    split_ifs
    · omega
    · have := hlt fun wch => wch == SPACE || !g.isWordDelim wch
      omega
    · omega
    · have := hlt g.isWordDelim
      omega

theorem Line.moveCursorLeftByWord (h : s.Line) (g : Globals) : (s.moveCursorLeftByWord g).Line := by
  have hinserted := h.inserted
  have hpointer := h.pointer
  have hword := @lastWord_le s g (s.bufPtr - 1)
  unfold CookedReadData.moveCursorLeftByWord
  split_ifs
  · exact h
  · exact h.moveCursorTo (by omega)
  · exact h.moveCursorTo (by omega)

theorem Line.moveCursorLeft (h : s.Line) : s.moveCursorLeft.Line := by
  have hinserted := h.inserted
  have hpointer := h.pointer
  unfold CookedReadData.moveCursorLeft
  split_ifs
  · exact h
  · exact h.update rfl h.even (by omega) (by omega) h.bound

theorem skipAhead_le (n p : Nat) : s.skipAhead stop n p ≤ p + n := by
  induction n generalizing p with
  | zero => exact Nat.le_refl p
  | succ n ih =>
    have := ih (p + 1)
    unfold skipAhead
    split_ifs
    · omega
    · omega

theorem skipUpTo_le {last p : Nat} (hp : p ≤ last) : s.skipUpTo stop last p ≤ last := by
  have := s.skipAhead_le stop (last - p) p
  unfold skipUpTo
  omega

theorem nextWord_le (g : Globals) {last p : Nat} (hp : p < last) : s.nextWord g last p ≤ last := by
  unfold nextWord
  split_ifs
  · exact skipUpTo_le _ hp
  · exact skipUpTo_le _ (skipUpTo_le _ hp)

theorem Line.moveCursorRightByWord (h : s.Line) (g : Globals) : (s.moveCursorRightByWord g).Line := by
  unfold CookedReadData.moveCursorRightByWord
  split_ifs with hright
  · have hword := @nextWord_le s g (s.bytesRead / 2) s.bufPtr (by rwa [h.pointer])
    exact h.moveCursorTo (by omega)
  · exact h

/-! ## The history -/

theorem HasRoom.moveCursorRight (h : s.HasRoom) : s.Edits s.moveCursorRight := by
  unfold CookedReadData.moveCursorRight
  split_ifs with hright
  · have hline := h.update rfl h.even (show s.bufPtr + 1 = s.currentPosition + 1 by rw [h.pointer]) (by omega) h.bound
    exact ⟨_, rfl, hline, rfl⟩
  · split
    · next wch _ => exact h.storeNext wch
    · exact h.toLine.edits

theorem Line.fillPromptWithPreviousCommandFragment (h : s.Line) (hfits : 2 * s.lastCommand.length ≤ s.bufferSize) :
    s.Edits s.fillPromptWithPreviousCommandFragment := by
  have hlength := h.length
  have hpointer := h.pointer
  have heven := h.even
  have hbound := h.bound
  unfold CookedReadData.fillPromptWithPreviousCommandFragment
  split_ifs with hlonger
  · have hfragment : s.bufPtr + (s.lastCommand.drop s.currentPosition).length ≤ s.buffer.length := by
      rw [length_drop]
      omega
    obtain ⟨buffer, hwrite, hbuffer⟩ := Span.exists_write hfragment
    refine edits_map hwrite (h.update hbuffer ?_ (by rw [hpointer]) ?_ ?_) rfl
    · omega
    · rw [length_drop]
      omega
    · omega
  · exact h.edits

theorem Line.exists_recall (h : s.Line) {text : List Wchar} (htext : text.length ≤ s.room) :
    ∃ buffer, s.recallCommand text = some { s.erase with
      buffer, bytesRead := 2 * text.length, currentPosition := text.length, bufPtr := text.length } ∧
      buffer.length = s.buffer.length := by
  have hfits : 0 + text.length ≤ s.buffer.length := by
    rw [h.length, Nat.zero_add]
    exact htext
  obtain ⟨buffer, hwrite, hbuffer⟩ := Span.exists_write hfits
  exact ⟨buffer, by rw [CookedReadData.recallCommand, hwrite, map_some], hbuffer⟩

theorem two_mul_le_of_room {n : Nat} (hn : n ≤ s.room) : 2 * n ≤ s.bufferSize := by
  unfold room at hn
  omega

theorem Line.recallCommand (h : s.Line) {text : List Wchar} (htext : text.length ≤ s.room) :
    s.Edits (s.recallCommand text) := by
  obtain ⟨buffer, hrecall, hbuffer⟩ := h.exists_recall htext
  have hline := h.update hbuffer (Nat.dvd_mul_right 2 _) rfl (show text.length * 2 ≤ 2 * text.length by omega)
    (two_mul_le_of_room htext)
  exact ⟨_, hrecall, hline, rfl⟩

theorem Line.recallOrErase (h : s.Line) {retrieved : CommandHistory × Option (List Wchar)}
    (hfits : ∀ text, retrieved.2 = some text → text.length ≤ s.room) : s.Edits (s.recallOrErase retrieved) := by
  unfold CookedReadData.recallOrErase
  split
  · next text htext => exact (h.with_history _).recallCommand (hfits text htext)
  · exact ⟨_, rfl, (h.with_history _).erase, rfl⟩

theorem Line.recallNth (h : s.Line) (history : CommandHistory) (index : Int) :
    s.Edits (s.recallOrErase (history.retrieveNth index s.room)) :=
  h.recallOrErase fun _ => CommandHistory.length_le_of_retrieveNth

theorem Line.processHistoryCycling (h : s.Line) (direction : SearchDirection) :
    s.Edits (s.processHistoryCycling direction) := by
  unfold CookedReadData.processHistoryCycling
  split
  · exact h.edits
  · split_ifs
    · exact h.edits
    · exact h.recallOrErase fun _ => CommandHistory.length_le_of_retrieve

theorem Line.setPromptToOldestCommand (h : s.Line) : s.Edits s.setPromptToOldestCommand := by
  unfold CookedReadData.setPromptToOldestCommand
  split
  · exact h.edits
  · split_ifs
    · exact h.edits
    · exact h.recallNth _ _

theorem Line.setPromptToNewestCommand (h : s.Line) : s.Edits s.setPromptToNewestCommand := by
  unfold CookedReadData.setPromptToNewestCommand
  split
  · exact ⟨_, rfl, h.erase, rfl⟩
  · split_ifs
    · exact ⟨_, rfl, h.erase, rfl⟩
    · exact h.recallNth _ _

theorem Line.cycleMatchingCommandHistoryToPrompt (h : s.Line) : s.Edits s.cycleMatchingCommandHistoryToPrompt := by
  unfold CookedReadData.cycleMatchingCommandHistoryToPrompt
  split
  · exact h.edits
  · split
    · exact ⟨_, rfl, h.with_history _, rfl⟩
    · next history _ found index hfound =>
      split
      · next text htext =>
        have hroom : text.length ≤ s.room := CommandHistory.length_le_of_retrieveNth htext
        obtain ⟨buffer, hrecall, hbuffer⟩ :=
          (h.with_history (some { found with lastDisplayed := index })).exists_recall hroom
        have hposition : s.currentPosition ≤ text.length := by
          obtain ⟨command, hcommand, rfl⟩ := map_eq_some_iff.1 htext
          have hlonger := CommandHistory.length_le_of_findMatchingCommand hfound hcommand
          have hinserted := h.inserted
          have hbound := h.bound
          have hlength := h.length
          rw [length_take] at hlonger
          rw [length_take, room]
          omega
        have hline := (h.with_history (some { found with lastDisplayed := index })).update hbuffer
          (Nat.dvd_mul_right 2 text.length) rfl (show s.currentPosition * 2 ≤
            2 * text.length by omega) (two_mul_le_of_room hroom)
        exact ⟨_, by rw [CookedReadData.recallOrErase, htext]; exact congrArg _ hrecall, hline, rfl⟩
      · exact h.recallNth _ _

theorem Line.setCurrentCommandLine (h : s.Line) {history : CommandHistory} (hhistory : s.commandHistory = some history)
    {index : Nat} (hindex : index < history.commands.length) : s.Edits (s.setCurrentCommandLine index) := by
  have hcommand : history.command index = some (history.commands.get ⟨index, hindex⟩) := by
    simp [CommandHistory.command]
  have htext : (history.retrieveNth index s.room).2 = some ((history.commands.get ⟨index, hindex⟩).take s.room) := by
    rw [CommandHistory.retrieveNth, hcommand, map_some]
  rw [CookedReadData.setCurrentCommandLine, hhistory]
  dsimp only
  rw [htext]
  exact (h.with_history _).recallCommand (CommandHistory.length_le_of_retrieveNth htext)

/-! ## Popups -/

theorem Line.commandNumber (h : s.Line) (number : Nat) : s.Edits (s.commandNumber number) := by
  unfold CookedReadData.commandNumber
  split
  · exact h.edits
  · next history hhistory =>
    split_ifs with hempty
    · exact h.edits
    · have := length_pos_of_ne_nil hempty
      exact h.setCurrentCommandLine hhistory (by omega)

theorem Line.commandList (h : s.Line) (index : Nat) : s.Edits (s.commandList index) := by
  unfold CookedReadData.commandList
  split
  · exact h.edits
  · next history hhistory =>
    split_ifs with hindex
    · exact h.setCurrentCommandLine hhistory hindex
    · exact h.edits

theorem Line.deleteTurns (h : s.Line) (turns : List Nat) :
    s.Edits (turns.foldlM (fun s _ => CookedReadData.deleteFromRightOfCursor s) s) := by
  induction turns generalizing s with
  | nil => exact h.edits
  | cons turn turns ih =>
    obtain ⟨s₁, hone, hline, hphase⟩ := h.deleteFromRightOfCursor
    obtain ⟨s₂, hrest, hline₂, hphase₂⟩ := ih hline
    rw [foldlM_cons, hone]
    exact ⟨s₂, hrest, hline₂, hphase₂.trans hphase⟩

theorem Line.copyFromChar (h : s.Line) (wch : Wchar) : s.Edits (s.copyFromChar wch) := by
  unfold CookedReadData.copyFromChar
  split_ifs
  · exact h.edits
  · split
    · exact ⟨_, rfl, h.deletePromptAfterCursor, rfl⟩
    · exact h.deleteTurns _

theorem Line.exists_write (h : s.Line) (text : List Wchar) : ∃ buffer, s.write text = some { s with
      buffer
      currentPosition := s.currentPosition + min text.length (s.room - s.currentPosition)
      bytesRead := s.bytesRead + 2 * min text.length (s.room - s.currentPosition)
      bufPtr := s.bufPtr + min text.length (s.room - s.currentPosition) } ∧ buffer.length = s.buffer.length := by
  have hlength := h.length
  have hpointer := h.pointer
  have hinserted := h.inserted
  have hbound := h.bound
  have hfits : s.bufPtr + (text.take (s.room - s.bufPtr)).length ≤ s.buffer.length := by
    rw [length_take, room]
    omega
  obtain ⟨buffer, hwrite, hbuffer⟩ := Span.exists_write hfits
  refine ⟨buffer, ?_, hbuffer⟩
  rw [CookedReadData.write, ← room, hwrite, map_some, length_take, hpointer, Nat.min_comm]

/-! ## Every key -/

/-- The last command fits where F3 and F2 copy it. -/
def Fits (s : CookedReadData) : Key → Prop
  | .f2 copyTo =>
    s.TakesKeys → s.bytesRead + 2 * min (s.textToChar copyTo).length (s.room - s.currentPosition) ≤ s.bufferSize
  | .f3 => s.TakesKeys → 2 * s.lastCommand.length ≤ s.bufferSize
  | _ => True

instance (s : CookedReadData) : DecidablePred s.Fits
  | .f2 _ => inferInstanceAs (Decidable (_ → _))
  | .f3 => inferInstanceAs (Decidable (_ → _))
  | .char .. | .escape | .up | .down | .prior | .next | .toEnd _ | .home _ | .left _ | .right _ |
      .insert | .delete | .f1
  | .f4 _ | .f6 | .f7 _ | .altF7 | .f8 | .f9 _ | .arrangeHistory _ => inferInstanceAs (Decidable True)

theorem Line.copyToChar (h : s.Line) {copyTo : Wchar}
    (hfits : s.bytesRead + 2 * min (s.textToChar copyTo).length (s.room - s.currentPosition) ≤ s.bufferSize) :
    s.Edits (s.copyToChar copyTo) := by
  unfold CookedReadData.copyToChar
  split_ifs
  · exact h.edits
  · obtain ⟨buffer, hwrite, hbuffer⟩ := h.exists_write (s.textToChar copyTo)
    have heven := h.even
    have hinserted := h.inserted
    generalize min (s.textToChar copyTo).length (s.room - s.currentPosition) = n at hwrite hfits
    have hline := h.update hbuffer (show 2 ∣ s.bytesRead + 2 * n by omega)
      (show s.bufPtr + n = s.currentPosition + n by rw [h.pointer]) (by omega) hfits
    exact ⟨_, hwrite, hline, rfl⟩

theorem HasRoom.processKey (h : s.HasRoom) (hphase : s.phase = .reading) (g : Globals) (key : Key)
    (hfits : s.Fits key) :
    Stays (s.processKey g key) := by
  have htakes : s.TakesKeys := ⟨hphase, h.room⟩
  have hline := h.toLine
  cases key with
  | char wch echoed => exact h.processInput hphase g wch echoed
  | escape => exact ⟨_, rfl, hline.erase.sound⟩
  | up => exact (hline.processHistoryCycling .previous).stays
  | down => exact (hline.processHistoryCycling .next).stays
  | prior => exact hline.setPromptToOldestCommand.stays
  | next => exact hline.setPromptToNewestCommand.stays
  | toEnd ctrl =>
    cases ctrl with
    | true => exact ⟨_, rfl, hline.deletePromptAfterCursor.sound⟩
    | false => exact ⟨_, rfl, (hline.moveCursorTo (by omega)).sound⟩
  | home ctrl =>
    cases ctrl with
    | true => exact hline.deletePromptBeforeCursor.stays
    | false => exact ⟨_, rfl, (hline.moveCursorTo (by omega)).sound⟩
  | left ctrl =>
    cases ctrl with
    | true => exact ⟨_, rfl, (hline.moveCursorLeftByWord g).sound⟩
    | false => exact ⟨_, rfl, hline.moveCursorLeft.sound⟩
  | right ctrl =>
    cases ctrl with
    | true => exact ⟨_, rfl, (hline.moveCursorRightByWord g).sound⟩
    | false => exact h.moveCursorRight.stays
  | insert => exact ⟨_, rfl, (hline.with_insertMode _).sound⟩
  | delete => exact hline.deleteFromRightOfCursor.stays
  | f1 => exact h.moveCursorRight.stays
  | f2 copyTo => exact (hline.copyToChar (hfits htakes)).stays
  | f3 => exact (hline.fillPromptWithPreviousCommandFragment (hfits htakes)).stays
  | f4 copyFrom => exact (hline.copyFromChar copyFrom).stays
  | f6 => exact (h.storeNext CTRLZ).stays
  | f7 index => exact (hline.commandList index).stays
  | altF7 => exact ⟨_, rfl, (hline.with_history _).sound⟩
  | f8 => exact hline.cycleMatchingCommandHistoryToPrompt.stays
  | f9 number => exact (hline.commandNumber number).stays
  | arrangeHistory history => exact ⟨_, rfl, (hline.with_history _).sound⟩

theorem Sound.readKey (h : s.Sound) (g : Globals) {key : Key} (hfits : s.Fits key) : Stays (s.readKey g key) := by
  unfold CookedReadData.readKey
  split_ifs with htakes
  · exact HasRoom.processKey ⟨h.line (.inl htakes.1), htakes.2⟩ htakes.1 g key hfits
  · exact ⟨s, rfl, h⟩

/-! ## Every run -/

/-- The pointer is at the insertion point, inside of the line and the buffer. -/
structure Inside (s : CookedReadData) : Prop where
  pointer : s.phase = .reading ∨ s.phase = .woken → s.bufPtr = s.currentPosition
  inserted : s.phase = .reading ∨ s.phase = .woken → 2 * s.currentPosition ≤ s.bytesRead
  bound : s.bytesRead ≤ s.bufferSize

theorem Sound.inside (h : s.Sound) : s.Inside := by
  refine ⟨fun hphase => (h.line hphase).pointer, fun hphase => ?_, h.bound⟩
  have := (h.line hphase).inserted
  omega

/-- No key stores outside of the buffer, and the line is inside of it. -/
def StaysInside (g : Globals) (s : CookedReadData) (keys : List Key) : Prop :=
  ∀ handled, handled <+: keys → ∃ s', Steps.run (readKey g) s handled = some s' ∧ s'.Inside

theorem Sound.fits_of_inside (h : s.Sound) {g : Globals} {key : Key} {s' : CookedReadData}
    (hread : s.readKey g key = some s') (hinside : s'.Inside) : s.Fits key := by
  cases key with
  | f2 copyTo =>
    intro htakes
    have hline := h.line (.inl htakes.1)
    rw [CookedReadData.readKey, processKey, CookedReadData.copyToChar] at hread
    split_ifs at hread with hnone
    · simpa [hnone] using hline.bound
    · obtain ⟨buffer, hwrite, -⟩ := hline.exists_write (s.textToChar copyTo)
      obtain rfl := some.inj (hwrite.symm.trans hread)
      exact hinside.bound
  | f3 =>
    intro htakes
    have hline := h.line (.inl htakes.1)
    have hlength := hline.length
    have hpointer := hline.pointer
    have hinserted := hline.inserted
    have hbound := hline.bound
    rw [CookedReadData.readKey, processKey, CookedReadData.fillPromptWithPreviousCommandFragment] at hread
    split_ifs at hread with hlonger
    · obtain ⟨buffer, hwrite, -⟩ := map_eq_some_iff.1 hread
      unfold Span.write at hwrite
      split_ifs at hwrite with hfits
      rw [length_drop] at hfits
      omega
    · omega
  | _ => trivial

theorem Sound.staysInside_iff (h : s.Sound) (g : Globals) (keys : List Key) :
    s.StaysInside g keys ↔ Steps.Along (CookedReadData.readKey g) Fits s keys := by
  rw [StaysInside, Steps.forall_prefix_iff, and_iff_right h.inside]
  refine Steps.along_congr_of_keeps ?_ ?_ h
  · intro s key s' hs hfits hread
    obtain ⟨s₁, hread₁, hs₁⟩ := hs.readKey g hfits
    obtain rfl := some.inj (hread₁.symm.trans hread)
    exact hs₁
  · intro s key hs
    constructor
    · rintro ⟨s', hread, hinside⟩
      exact hs.fits_of_inside hread hinside
    · intro hfits
      obtain ⟨s', hread, hs'⟩ := hs.readKey g hfits
      exact ⟨s', hread, hs'.inside⟩

theorem exists_sound_create {g : Globals} {r : Request} (hsize : 2 ∣ max r.userBufferSize LINE_INPUT_BUFFER_SIZE)
    (hdata : 2 * r.initialData.length ≤ r.userBufferSize) : ∃ s, create g r = some s ∧ s.Sound := by
  have hfits : 0 + r.initialData.length ≤
    (replicate (max r.userBufferSize LINE_INPUT_BUFFER_SIZE / 2) SPACE).length := by
    rw [length_replicate]
    omega
  obtain ⟨buffer, hwrite, hlength⟩ := Span.exists_write hfits
  rw [length_replicate] at hlength
  refine ⟨_, by rw [create, hwrite, map_some], Line.sound ⟨hlength, hsize, Nat.dvd_mul_right 2 _, rfl, ?_, ?_⟩⟩
  · dsimp only
    omega
  · dsimp only
    omega

/-- A cooked read stays in its buffer as long as every key fits. -/
theorem staysInside_iff_fits (g : Globals) (r : Request) (hsize : 2 ∣ max r.userBufferSize LINE_INPUT_BUFFER_SIZE)
    (hdata : 2 * r.initialData.length ≤ r.userBufferSize) (keys : List Key) :
    ∃ s, create g r = some s ∧ (s.StaysInside g keys ↔ Steps.Along (readKey g) Fits s keys) := by
  obtain ⟨s, hcreate, hsound⟩ := exists_sound_create hsize hdata
  exact ⟨s, hcreate, hsound.staysInside_iff g keys⟩

theorem staysInside_recalled : ∃ s,
    create {} ⟨80, 0, [], [], true, true,
      some ⟨[[0x64, 0x69, 0x72, 0x20, 0x63], [0x64, 0x69, 0x72]], 50, 0, false⟩⟩ = some s ∧
      s.StaysInside {} [.char 0x64 true, .f3, .left true, .char 0x62 true, .home true,
        .char BACKSPACE true, .up, .f2 0x72,
        .toEnd false, .char CARRIAGERETURN true] := by
  obtain ⟨s, hcreate, hiff⟩ := staysInside_iff_fits {}
    ⟨80, 0, [], [], true, true, some ⟨[[0x64, 0x69, 0x72, 0x20, 0x63], [0x64, 0x69, 0x72]], 50, 0, false⟩⟩ (by decide)
    (by decide) [.char 0x64 true, .f3, .left true, .char 0x62 true, .home true, .char BACKSPACE true, .up, .f2 0x72,
      .toEnd false, .char CARRIAGERETURN true]
  have hfits : ∀ s ∈ create {} ⟨80, 0, [], [], true, true,
      some ⟨[[0x64, 0x69, 0x72, 0x20, 0x63], [0x64, 0x69, 0x72]], 50, 0, false⟩⟩, Steps.Along (readKey {}) Fits s
      [.char 0x64 true, .f3, .left true, .char 0x62 true, .home true, .char BACKSPACE true, .up, .f2 0x72, .toEnd false,
        .char CARRIAGERETURN true] := by
    decide +kernel
  exact ⟨s, hcreate, hiff.2 (hfits s hcreate)⟩

theorem exists_not_staysInside {g : Globals} {r : Request} (hsize : 2 ∣ max r.userBufferSize LINE_INPUT_BUFFER_SIZE)
    (hdata : 2 * r.initialData.length ≤ r.userBufferSize) {keys : List Key}
    (hfits : ∀ s ∈ create g r, ¬ Steps.Along (readKey g) Fits s keys) :
    ∃ s, create g r = some s ∧ ¬ s.StaysInside g keys := by
  obtain ⟨s, hcreate, hsound⟩ := exists_sound_create hsize hdata
  exact ⟨s, hcreate, fun h => hfits s hcreate ((hsound.staysInside_iff g keys).1 h)⟩

/-- F3 copies 257 characters into a buffer of 256; F2 counts 20 characters twice. -/
theorem not_staysInside :
    (∃ s, create {} ⟨2, 0, [], [], true, true, some ⟨[replicate 257 0x61], 50, 0, false⟩⟩ = some s ∧
      ¬ s.StaysInside {} [.f3]) ∧
    ∃ s, create {} ⟨512, 0, [], replicate 250 0x61, true, true,
        some ⟨[replicate 20 0x61 ++ [0x62]], 50, 0, false⟩⟩ = some s ∧
      ¬ s.StaysInside {} [.home false, .f2 0x62] := by
  constructor
  · exact exists_not_staysInside (by decide) (by decide) (by decide +kernel)
  · exact exists_not_staysInside (by decide) (by decide +kernel) (by decide +kernel)

end Terminal.Host.CookedReadData
