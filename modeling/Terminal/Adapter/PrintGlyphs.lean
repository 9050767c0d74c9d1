import Terminal.Adapter.PrintLoop

/-!
# Which code points printing writes

With wrapping, the loop stops between code points only. Without it, what has no room is skipped
by one code unit, which cuts a surrogate pair.
-/

namespace Terminal.Adapter

open Terminal.Parser (Wchar)
open Terminal.Buffer (RowEdit OutputCellIterator unicodeSpace)
open Terminal.Types (Point Size)
open Terminal.Til List

def Calls.Writes (chars : List Wchar) (s : Calls) : Prop :=
  ∃ row edits, .writeRow row edits ∈ s.calls ∧ ∃ column width, .replaceCharacters column width chars ∈ edits

/-- Every cell written holds a code point of the string or a space. -/
def Calls.Complete (string : List Wchar) (s : Calls) : Prop :=
  ∀ chars, s.Writes chars → chars ∈ codePoints string ∨ chars = [unicodeSpace]

namespace Printer

section

variable {fullWidth : List Wchar → Bool} {f : Feeds} {settings : PrintSettings} {p : Printer Calls}
  {string chars : List Wchar}

theorem writes_makeSpace {it : OutputCellIterator} :
    (p.makeSpace fullWidth f.display settings it).Writes chars ↔ p.screen.Writes chars := by
  unfold makeSpace
  split_ifs
  · simp [Feeds.display, Calls.Writes]
  · rfl

theorem writes_written (h : (p.written fullWidth f settings).Writes chars) :
    p.screen.Writes chars ∨ chars ∈ p.taken fullWidth f ∨ chars = [unicodeSpace] := by
  unfold written at h
  unfold taken
  split_ifs at * with hin
  · obtain ⟨row, edits, hcall, column, width, hedit⟩ := h
    rcases mem_append.1 hcall with hcall | hcall
    · exact .inl (writes_makeSpace.1 ⟨row, edits, hcall, column, width, hedit⟩)
    · obtain ⟨_, rfl⟩ : _ ∧ edits = _ := by simpa using hcall
      exact .inr (Buffer.mem_textEdits hedit)
  · exact .inl (writes_makeSpace.1 h)

theorem complete_written (hscreen : p.screen.Complete string)
    (htaken : ∀ glyph ∈ p.taken fullWidth f, glyph ∈ codePoints string) :
    (p.written fullWidth f settings).Complete string := by
  intro chars h
  rcases writes_written h with h | h | h
  · exact hscreen chars h
  · exact .inl (htaken chars h)
  · exact .inr h

variable (fullWidth f p) in
theorem taken_eq_take : ∃ n, p.taken fullWidth f = (codePoints p.text).take n := by
  unfold taken
  split_ifs
  · exact Buffer.fitting_eq_take ..
  · exact ⟨0, rfl⟩

theorem mem_of_mem_taken {glyph : List Wchar} (h : glyph ∈ p.taken fullWidth f) : glyph ∈ codePoints p.text := by
  obtain ⟨n, hn⟩ := taken_eq_take fullWidth f p
  rw [hn] at h
  exact mem_of_mem_take h

theorem codePoints_drop_taken :
    codePoints (p.text.drop (p.taken fullWidth f).flatten.length) = (codePoints p.text).drop
      (p.taken fullWidth f).length := by
  obtain ⟨n, hn⟩ := taken_eq_take fullWidth f p
  rw [hn, codePoints_drop, length_take]
  rcases Nat.le_total n (codePoints p.text).length with h | h
  · rw [Nat.min_eq_left h]
  · rw [Nat.min_eq_right h, drop_length, drop_eq_nil_of_le h]

/-! ## With wrapping -/

structure Whole (string : List Wchar) (f : Feeds) (p : Printer Calls) : Prop where
  onLine : p.OnLine f
  complete : p.screen.Complete string
  codePoints : ∀ glyph ∈ codePoints p.text, glyph ∈ Til.codePoints string

theorem Whole.wrapDelayed (h : p.Whole string f) : (p.wrapDelayed f.display settings).Whole string f := by
  refine ⟨h.onLine.wrapDelayed settings, ?_, by simpa using h.codePoints⟩
  obtain ⟨_, hq, _⟩ | ⟨_, _, hq⟩ := wrapDelayed_cases (f := f) settings p <;> rw [hq] <;> exact h.complete

theorem Whole.printLine (hwrap : settings.wrapAtEOL = true) (h : p.Whole string f) :
    (p.printLine fullWidth f.display settings).Whole string f := by
  rw [printLine_eq h.onLine]
  refine ⟨h.onLine.moveOn feeds_written, ?_, ?_⟩
  · rw [screen_moveOn]
    exact complete_written h.complete fun glyph hglyph => h.codePoints glyph (mem_of_mem_taken hglyph)
  · rw [text_moveOn, if_neg (by simp [hwrap]), codePoints_drop_taken]
    exact fun glyph hglyph => h.codePoints glyph (mem_of_mem_drop hglyph)

theorem Whole.step (hwrap : settings.wrapAtEOL = true) (h : p.Whole string f) :
    (p.step fullWidth f.display settings).Whole string f := by
  unfold Printer.step
  split_ifs
  · exact h
  · exact h.wrapDelayed.printLine hwrap

/-! ## Without wrapping -/

theorem wrapDelayed_of_not_wrap (hwrap : settings.wrapAtEOL = false) : p.wrapDelayed f.display settings = p := by
  unfold wrapDelayed
  split <;> simp [hwrap]

structure AtMargin (f : Feeds) (p : Printer Calls) : Prop where
  onLine : p.OnLine f
  inBounds : f.size.IsInBounds p.cursor.position
  x_eq : p.cursor.position.x + 1 = p.lineWidth

theorem AtMargin.taken_eq (h : p.AtMargin f) (htext : p.text ≠ []) :
    p.taken fullWidth f = if fullWidth (utf16Next p.text) then [] else [utf16Next p.text] := by
  have hroom : p.lineWidth.toNat - p.cursor.position.x.toNat = 1 := by
    have := h.x_eq
    have := h.inBounds.1
    omega
  rw [taken, if_pos h.inBounds, hroom, codePoints_eq htext, Buffer.fitting, Buffer.glyphWidth]
  split_ifs with hwide
  · simp at *
  · rfl
  · simp [Buffer.fitting_zero]
  · simp at *

theorem OnLine.atMargin {screen : Calls} {units cells : Nat} (hp : p.OnLine f)
    (hin : f.size.IsInBounds p.cursor.position)
    (hline : 1 ≤ p.lineWidth) (hfeeds : screen.feeds = p.screen.feeds)
    (hx : units = 0 ∨ p.lineWidth ≤ p.cursor.position.x + cells + 1) :
    (p.moveOn settings screen units cells).AtMargin f := by
  have hlast : (p.moveOn settings screen units cells).cursor.position.x + 1 = p.lineWidth := by
    rw [cursor_moveOn, clampCursor_x]
    split_ifs with hunits
    · omega
    · omega
  have hy : (p.moveOn settings screen units cells).cursor.position.y = p.cursor.position.y := by
    rw [cursor_moveOn, clampCursor_y]
  have := hp.le_width
  refine ⟨hp.moveOn hfeeds, ⟨by omega, by omega, ?_⟩, by rw [lineWidth_moveOn, hlast]⟩
  rw [hy]
  exact hin.2.2

theorem AtMargin.one_le (h : p.AtMargin f) : 1 ≤ p.lineWidth := by
  have := h.inBounds.1
  have := h.x_eq
  omega

theorem AtMargin.step (hwrap : settings.wrapAtEOL = false) (h : p.AtMargin f) :
    (p.step fullWidth f.display settings).AtMargin f := by
  unfold Printer.step
  split_ifs with htext
  · exact h
  rw [wrapDelayed_of_not_wrap hwrap, printLine_eq h.onLine]
  apply h.onLine.atMargin h.inBounds h.one_le feeds_written
  have := h.x_eq
  omega

theorem AtMargin.text_step (hwrap : settings.wrapAtEOL = false) (h : p.AtMargin f) (htext : p.text ≠ []) :
    (p.step fullWidth f.display settings).text =
      p.text.drop (if fullWidth (utf16Next p.text) then 1 else (utf16Next p.text).length) := by
  have hpos := length_utf16Next_pos p.text
  rw [Printer.step, if_neg htext, wrapDelayed_of_not_wrap hwrap, printLine_eq h.onLine, text_moveOn, h.taken_eq htext]
  by_cases hwide : fullWidth (utf16Next p.text)
  · simp [hwide, hwrap]
  · have hflat : [utf16Next p.text].flatten.length = (utf16Next p.text).length := by simp
    rw [if_neg hwide, if_neg hwide, hflat, if_neg (fun hzero => hpos.ne' hzero.1)]

variable (fullWidth) in
theorem AtMargin.codePoints_step (hwrap : settings.wrapAtEOL = false) (h : p.AtMargin f) (htext : p.text ≠ []) :
    codePoints (p.step fullWidth f.display settings).text =
      (if fullWidth (utf16Next p.text) ∧ (utf16Next p.text).length = 2 then [[unicodeReplacement]] else []) ++
        (codePoints p.text).tail := by
  rw [h.text_step hwrap htext, codePoints_eq htext, tail_cons]
  rcases length_utf16Next p.text with hlength | hlength
  · simp [hlength]
  · by_cases hwide : fullWidth (utf16Next p.text)
    · rw [if_pos hwide, if_pos ⟨hwide, hlength⟩, codePoints_tail_of_pair hlength, hlength]
      rfl
    · simp [hlength, hwide]

variable (fullWidth) in
/-- A wide U+FFFD never has room, and one of the string may be written. -/
def Harmless (string : List Wchar) : Prop :=
  fullWidth [unicodeReplacement] = true ∨ [unicodeReplacement] ∈ codePoints string

variable (fullWidth) in
structure Kept (string : List Wchar) (f : Feeds) (p : Printer Calls) : Prop where
  complete : p.screen.Complete string
  atMargin : p.text = [] ∨ p.AtMargin f
  codePoints : ∀ glyph ∈ codePoints p.text,
    glyph ∈ Til.codePoints string ∨ glyph = [unicodeReplacement] ∧ fullWidth glyph = true
  narrow : Harmless fullWidth string ∨ ∀ glyph ∈ Til.codePoints p.text, ¬ (fullWidth glyph ∧ glyph.length = 2)

theorem Harmless.replacement (h : Harmless fullWidth string) : [unicodeReplacement] ∈ codePoints string ∨
      [unicodeReplacement] = [unicodeReplacement] ∧ fullWidth [unicodeReplacement] = true :=
  h.elim (fun hwide => .inr ⟨rfl, hwide⟩) .inl

theorem Kept.step (hwrap : settings.wrapAtEOL = false) (h : p.Kept fullWidth string f) :
    (p.step fullWidth f.display settings).Kept fullWidth string f := by
  by_cases htext : p.text = []
  · rwa [Printer.step, if_pos htext]
  have hmargin := h.atMargin.resolve_left htext
  have hnext := hmargin.codePoints_step fullWidth hwrap htext
  have hfirst : utf16Next p.text ∈ Til.codePoints p.text := by rw [codePoints_eq htext]; exact mem_cons_self
  have hscreen : (p.step fullWidth f.display settings).screen = p.written fullWidth f settings := by
    rw [Printer.step, if_neg htext, wrapDelayed_of_not_wrap hwrap, printLine_eq hmargin.onLine, screen_moveOn]
  refine ⟨?_, .inr (hmargin.step hwrap), ?_, ?_⟩
  · rw [hscreen]
    apply complete_written h.complete
    intro glyph hglyph
    rw [hmargin.taken_eq htext] at hglyph
    split_ifs at hglyph with hwide
    · simp at hglyph
    · obtain rfl := mem_singleton.1 hglyph
      exact (h.codePoints _ hfirst).resolve_right fun hnot => hwide hnot.2
  · rw [hnext]
    intro glyph hglyph
    rcases mem_append.1 hglyph with hglyph | hglyph
    · split_ifs at hglyph with hpair
      · obtain rfl := mem_singleton.1 hglyph
        exact (h.narrow.resolve_right fun hno => hno _ hfirst hpair).replacement
      · simp at hglyph
    · exact h.codePoints glyph (mem_of_mem_tail hglyph)
  · refine h.narrow.imp_right fun hno => ?_
    rw [hnext, if_neg (hno _ hfirst)]
    exact fun glyph hglyph => hno glyph (mem_of_mem_tail hglyph)

/-- At column `x` the wide surrogate pairs have room. -/
def LeavesRoom (fullWidth : List Wchar → Bool) (x lineWidth : Int) (string : List Wchar) : Prop :=
  (x < lineWidth ∨ (utf16Next string).length = 1) ∧
    ∀ n glyph, (codePoints string)[n]? = some glyph → (fullWidth glyph ∧ glyph.length = 2) →
      x + Buffer.textWidth fullWidth ((codePoints string).take (n + 1)) ≤ lineWidth

/-! ### The first round -/

theorem taken_eq_fitting (hin : f.size.IsInBounds p.cursor.position) : p.taken fullWidth f =
    Buffer.fitting fullWidth (p.lineWidth.toNat - p.cursor.position.x.toNat) (codePoints p.text) := if_pos hin

theorem lt_length_taken {n : Nat} (hin : f.size.IsInBounds p.cursor.position) (hn : n < (codePoints p.text).length) :
    n < (p.taken fullWidth f).length ↔
      p.cursor.position.x + Buffer.textWidth fullWidth ((codePoints p.text).take (n + 1)) ≤ p.lineWidth := by
  have hpos : 0 < Buffer.textWidth fullWidth ((codePoints p.text).take (n + 1)) := by
    obtain ⟨glyph, glyphs, h⟩ := exists_cons_of_length_pos (Nat.zero_lt_of_lt hn)
    rw [h, take_succ_cons, Buffer.textWidth, map_cons, sum_cons, Buffer.glyphWidth]
    split_ifs <;> omega
  have hx := hin.1
  rw [taken_eq_fitting hin, Buffer.lt_length_fitting hn]
  omega

theorem LeavesRoom.not_cut (h : LeavesRoom fullWidth p.cursor.position.x p.lineWidth p.text)
    (hin : f.size.IsInBounds p.cursor.position) (htext : p.text ≠ []) (htaken : p.taken fullWidth f = [])
    (hlength : (utf16Next p.text).length = 2) : False := by
  have hglyphs := codePoints_eq htext
  have hnone : ¬ 0 < (p.taken fullWidth f).length := by simp [htaken]
  rw [lt_length_taken hin (by simp [hglyphs])] at hnone
  by_cases hwide : fullWidth (utf16Next p.text)
  · exact hnone (h.2 0 (utf16Next p.text) (by simp [hglyphs]) ⟨hwide, hlength⟩)
  · have hx := h.1.resolve_right (by omega)
    rw [hglyphs] at hnone
    simp [Buffer.textWidth, Buffer.glyphWidth, hwide] at hnone
    omega

section

variable (hwrap : settings.wrapAtEOL = false) (hp : p.OnLine f)
  (hin : f.size.IsInBounds p.cursor.position) (htext : p.text ≠ [])

include hwrap hp htext

theorem screen_step : (p.step fullWidth f.display settings).screen = p.written fullWidth f settings := by
  rw [Printer.step, if_neg htext, wrapDelayed_of_not_wrap hwrap, printLine_eq hp, screen_moveOn]

variable (fullWidth) in
theorem codePoints_step : codePoints (p.step fullWidth f.display settings).text =
      if p.taken fullWidth f = [] then
        (if (utf16Next p.text).length = 2 then [[unicodeReplacement]] else []) ++ (codePoints p.text).tail
      else (codePoints p.text).drop (p.taken fullWidth f).length := by
  rw [Printer.step, if_neg htext, wrapDelayed_of_not_wrap hwrap, printLine_eq hp, text_moveOn]
  by_cases htaken : p.taken fullWidth f = []
  · rw [if_pos ⟨by simp [htaken], hwrap⟩, if_pos htaken, codePoints_eq htext, tail_cons]
    rcases length_utf16Next p.text with hlength | hlength
    · simp [hlength]
    · rw [codePoints_tail_of_pair hlength, hlength]
      rfl
  · rw [if_neg fun hunits => htaken (taken_eq_nil hunits.1), if_neg htaken]
    exact codePoints_drop_taken

include hin

variable (fullWidth) in
theorem atMargin_step (hline : 1 ≤ p.lineWidth) :
    (p.step fullWidth f.display settings).text = [] ∨ (p.step fullWidth f.display settings).AtMargin f := by
  by_cases hend : (p.step fullWidth f.display settings).text = []
  · exact .inl hend
  right
  have hrest := codePoints_step fullWidth hwrap hp htext
  rw [Printer.step, if_neg htext, wrapDelayed_of_not_wrap hwrap, printLine_eq hp]
  apply hp.atMargin hin hline feeds_written
  by_cases htaken : p.taken fullWidth f = []
  · left
    simp [htaken]
  · right
    rw [if_neg htaken] at hrest
    have hless : (p.taken fullWidth f).length < (codePoints p.text).length := by
      by_contra hge
      rw [drop_eq_nil_of_le (by omega), codePoints_eq_nil] at hrest
      exact hend hrest
    rw [taken_eq_fitting hin] at hless ⊢
    have := Buffer.le_textWidth_fitting hless
    have := hin.1
    omega

theorem kept_step (hline : 1 ≤ p.lineWidth) (hscreen : p.screen.Complete p.text)
    (hroom : Harmless fullWidth p.text ∨ LeavesRoom fullWidth p.cursor.position.x p.lineWidth p.text) :
    (p.step fullWidth f.display settings).Kept fullWidth p.text f := by
  -- A surrogate pair among the glyphs that were not taken is narrow.
  have hpairs : Harmless fullWidth p.text ∨ ∀ n ≥ (p.taken fullWidth f).length, ∀ glyph,
      (codePoints p.text)[n]? = some glyph → ¬ (fullWidth glyph ∧ glyph.length = 2) := by
    refine hroom.imp_right fun hroom n hn glyph hglyph hpair => ?_
    obtain ⟨hlt, _⟩ := List.getElem?_eq_some_iff.1 hglyph
    exact absurd ((lt_length_taken hin hlt).2 (hroom.2 n glyph hglyph hpair)) (not_lt.2 hn)
  have hdrop (glyph : List Wchar) (hglyph : glyph ∈ (codePoints p.text).drop (p.taken fullWidth f).length) :
      ∃ n ≥ (p.taken fullWidth f).length, (codePoints p.text)[n]? = some glyph := by
    obtain ⟨n, hn⟩ := List.mem_iff_getElem?.1 hglyph
    rw [List.getElem?_drop] at hn
    exact ⟨_, Nat.le_add_right _ _, hn⟩
  have hrest := codePoints_step fullWidth hwrap hp htext
  -- So what is left of the string has no other code points, unless they do no harm.
  have hleft : ∀ glyph ∈ codePoints (p.step fullWidth f.display settings).text,
      glyph = [unicodeReplacement] ∧ Harmless fullWidth p.text ∨
        ∃ n ≥ (p.taken fullWidth f).length, (codePoints p.text)[n]? = some glyph := by
    intro glyph hglyph
    rw [hrest] at hglyph
    split_ifs at hglyph with htaken hlength
    · rcases List.mem_cons.1 hglyph with rfl | hglyph
      · exact .inl ⟨rfl, hroom.resolve_right fun hroom => hroom.not_cut hin htext htaken hlength⟩
      · exact .inr (hdrop glyph (by simpa [htaken] using List.mem_of_mem_tail hglyph))
    · exact .inr (hdrop glyph (by simpa [htaken] using List.mem_of_mem_tail hglyph))
    · exact .inr (hdrop glyph hglyph)
  refine ⟨?_, atMargin_step fullWidth hwrap hp hin htext hline, ?_, ?_⟩
  · rw [screen_step hwrap hp htext]
    exact complete_written hscreen fun glyph => mem_of_mem_taken
  · intro glyph hglyph
    rcases hleft glyph hglyph with ⟨rfl, hharmless⟩ | ⟨n, _, hn⟩
    · exact hharmless.replacement
    · exact .inl (List.mem_of_getElem? hn)
  · by_cases hharmless : Harmless fullWidth p.text
    · exact .inl hharmless
    · refine .inr fun glyph hglyph => ?_
      obtain ⟨n, hn, hglyph⟩ := (hleft glyph hglyph).resolve_left fun h => hharmless h.2
      exact hpairs.resolve_left hharmless n hn glyph hglyph

end

/-! ### Cut surrogate pairs -/

theorem AtMargin.writes_replacement (hwrap : settings.wrapAtEOL = false) (h : p.AtMargin f) (htext : p.text ≠ [])
    (hnarrow : fullWidth [unicodeReplacement] = false) (hnext : utf16Next p.text = [unicodeReplacement]) :
    (p.step fullWidth f.display settings).screen.Writes [unicodeReplacement] := by
  rw [screen_step hwrap h.onLine htext, written, if_pos h.inBounds]
  refine ⟨p.cursor.position.y,
    p.lineEdits fullWidth settings, by simp [Feeds.display], p.cursor.position.x.toNat, 1, ?_⟩
  have hfull : ¬ p.lineWidth.toNat ≤ p.cursor.position.x.toNat := by
    have := h.x_eq
    have := h.inBounds.1
    omega
  simp [lineEdits, Buffer.textEdits, codePoints_eq htext, hnext, Buffer.glyphEdits, hfull, hnarrow]

theorem AtMargin.writes_of_pair (hwrap : settings.wrapAtEOL = false) (hnarrow : fullWidth [unicodeReplacement] = false)
    (glyphs : List (List Wchar)) {glyph : List Wchar} (h : p.AtMargin f)
    (hglyphs : codePoints p.text = glyphs) (hmem : glyph ∈ glyphs)
    (hpair : fullWidth glyph ∧ glyph.length = 2) :
    ∃ n, ((Printer.step fullWidth f.display settings)^[n] p).screen.Writes [unicodeReplacement] := by
  induction glyphs generalizing p with
  | nil => simp at hmem
  | cons first glyphs ih =>
    have htext : p.text ≠ [] := fun hnil => by simp [hnil, codePoints] at hglyphs
    have hfirst : utf16Next p.text = first := by
      rw [codePoints_eq htext] at hglyphs
      exact (cons.inj hglyphs).1
    have hstep := h.codePoints_step fullWidth hwrap htext
    rw [hglyphs, hfirst] at hstep
    by_cases hcut : fullWidth first ∧ first.length = 2
    · rw [if_pos hcut] at hstep
      have htext' : (p.step fullWidth f.display settings).text ≠ [] := fun hnil => by simp [hnil, codePoints] at hstep
      rw [codePoints_eq htext'] at hstep
      exact ⟨2, (h.step hwrap).writes_replacement hwrap htext' hnarrow (cons.inj hstep).1⟩
    · rw [if_neg hcut] at hstep
      obtain rfl | hmem := mem_cons.1 hmem
      · exact absurd hpair hcut
      · obtain ⟨n, hn⟩ := ih (h.step hwrap) hstep hmem
        exact ⟨n + 1, hn⟩

theorem writes_of_not_leavesRoom (hwrap : settings.wrapAtEOL = false) (hp : p.OnLine f)
    (hin : f.size.IsInBounds p.cursor.position) (htext : p.text ≠ []) (hline : 1 ≤ p.lineWidth)
    (hnarrow : fullWidth [unicodeReplacement] = false)
    (hroom : ¬ LeavesRoom fullWidth p.cursor.position.x p.lineWidth p.text) :
    ∃ n, ((step fullWidth f.display settings)^[n] p).screen.Writes [unicodeReplacement] := by
  have hrest := codePoints_step fullWidth hwrap hp htext
  have hglyphs := codePoints_eq htext
  -- The printer is at the margin once there is something left.
  have hmargin := (atMargin_step fullWidth hwrap hp hin htext hline).resolve_left
  by_cases hcut : p.taken fullWidth f = [] ∧ (utf16Next p.text).length = 2
  · rw [if_pos hcut.1, if_pos hcut.2] at hrest
    have hsome : (p.step fullWidth f.display settings).text ≠ [] := fun hnil => by simp [hnil, codePoints] at hrest
    rw [codePoints_eq hsome] at hrest
    exact ⟨2, (hmargin hsome).writes_replacement hwrap hsome hnarrow (List.cons.inj hrest).1⟩
  · have hcursor : p.cursor.position.x < p.lineWidth ∨ (utf16Next p.text).length = 1 := by
      by_contra hno
      push Not at hno
      refine hcut ⟨?_, (length_utf16Next p.text).resolve_left hno.2⟩
      rw [taken_eq_fitting hin, Nat.sub_eq_zero_of_le (by omega), Buffer.fitting_zero]
    rw [LeavesRoom, not_and] at hroom
    have hpair := hroom hcursor
    push Not at hpair
    obtain ⟨n, glyph, hglyph, hpair, hfar⟩ := hpair
    obtain ⟨hn, _⟩ := List.getElem?_eq_some_iff.1 hglyph
    have hleft : (p.taken fullWidth f).length ≤ n := by
      by_contra hlt
      have := (lt_length_taken hin hn).1 (not_le.1 hlt)
      omega
    have hmem : glyph ∈ codePoints (p.step fullWidth f.display settings).text := by
      rw [hrest]
      split_ifs with htaken hlength
      · exact absurd ⟨htaken, hlength⟩ hcut
      · cases n with
        | zero =>
          rw [hglyphs] at hglyph
          obtain rfl : utf16Next p.text = glyph := by simpa using hglyph
          exact absurd hpair.2 hlength
        | succ n =>
          rw [List.nil_append]
          exact List.mem_of_getElem? (by rw [List.getElem?_tail]; exact hglyph)
      · obtain ⟨k, rfl⟩ := Nat.exists_eq_add_of_le hleft
        exact List.mem_of_getElem? (by rw [List.getElem?_drop]; exact hglyph)
    have hsome : (p.step fullWidth f.display settings).text ≠ [] := fun hnil => by simp [hnil, codePoints] at hmem
    obtain ⟨n, hn⟩ := (hmargin hsome).writes_of_pair hwrap hnarrow _ rfl hmem hpair
    exact ⟨n + 1, hn⟩

end

end Printer

/-- Only code points of the string and spaces are written, unless a surrogate pair lacks room. -/
theorem writeToBuffer_complete_iff (fullWidth : List Wchar → Bool) (f : Feeds) (hwidth : 2 ≤ f.size.width)
    (settings : PrintSettings) (cursor : Cursor) (hcursor : f.size.IsInBounds cursor.position) (string : List Wchar) :
    (∀ rounds, ((Printer.step fullWidth f.display settings)^[rounds]
      (.start f.display string cursor {})).screen.Complete string) ↔
      settings.wrapAtEOL = true ∨ Printer.Harmless fullWidth string ∨
        Printer.LeavesRoom fullWidth cursor.position.x (f.display.getLineWidth cursor.position.y {}) string := by
  have hline := Printer.onLine_start (f := f) string cursor {} rfl
  have hone : 1 ≤ f.display.getLineWidth cursor.position.y {} := by
    change 1 ≤ if f.doubleWidth 0 cursor.position.y then f.size.width / 2 else f.size.width
    split_ifs <;> omega
  have hempty : ({} : Calls).Complete string := by
    rintro chars ⟨row, edits, hcall, _⟩
    simp at hcall
  constructor
  · intro h
    by_contra hno
    push Not at hno
    obtain ⟨hwrap, hharm, hroom⟩ := hno
    rw [Printer.Harmless, not_or] at hharm
    have htext : string ≠ [] := by
      rintro rfl
      exact hroom ⟨.inr rfl, by simp [codePoints]⟩
    obtain ⟨n, hn⟩ := Printer.writes_of_not_leavesRoom (p := .start f.display string cursor {})
      (by simpa using hwrap) hline hcursor htext hone (by simpa using hharm.1) hroom
    rcases h n _ hn with hmem | hspace
    · exact hharm.2 hmem
    · exact absurd hspace (by decide)
  · intro h rounds
    cases hwrap : settings.wrapAtEOL with
    | true =>
      exact (Function.Iterate.rec (Printer.Whole string f) ⟨hline, hempty, fun _ => id⟩
        (fun _ hp => hp.step hwrap) rounds).complete
    | false =>
      have hroom := h.resolve_left (by simp [hwrap])
      by_cases htext : string = []
      · have hkept : Printer.Kept fullWidth string f (.start f.display string cursor {}) :=
          ⟨hempty, .inl htext, fun _ => .inl, .inr (by simp [Printer.start, htext, codePoints])⟩
        exact (Function.Iterate.rec (Printer.Kept fullWidth string f) hkept (fun _ hp => hp.step hwrap) rounds).complete
      · cases rounds with
        | zero => exact hempty
        | succ rounds =>
          have hkept := Printer.kept_step (p := .start f.display string cursor {}) hwrap hline
            hcursor htext hone hempty hroom
          exact (Function.Iterate.rec (Printer.Kept fullWidth string f) hkept
            (fun _ hp => hp.step hwrap) rounds).complete

theorem writeToBuffer_complete_wide :
    ((Printer.step (fun glyph => glyph = [0xD83D, 0xDE00]) (oneRow 2 (by decide)).display ⟨false, false, {}⟩)^[2]
      (.start (oneRow 2 (by decide)).display [0xD83D, 0xDE00] { position := ⟨0, 0⟩ }
        {})).screen.Complete [0xD83D, 0xDE00] := by
  apply (writeToBuffer_complete_iff _ (oneRow 2 (by decide)) (by decide) _ _ (by decide) _).2
  refine .inr (.inr ⟨.inl (by decide), fun n glyph hglyph hpair => ?_⟩)
  obtain ⟨hn, _⟩ := List.getElem?_eq_some_iff.1 hglyph
  obtain rfl : n = 0 := Nat.lt_one_iff.1 hn
  decide

/-- A wide surrogate pair in the last column, without wrapping. -/
theorem writeToBuffer_cuts_pair :
    ¬ ((Printer.step (fun glyph => glyph = [0xD83D, 0xDE00]) (oneRow 2 (by decide)).display ⟨false, false, {}⟩)^[2]
      (.start (oneRow 2 (by decide)).display [0xD83D, 0xDE00] { position := ⟨1, 0⟩ }
        {})).screen.Complete [0xD83D, 0xDE00] := by
  intro h
  have hreplacement := h [unicodeReplacement]
    ⟨0, [.replaceCharacters 1 1 [unicodeReplacement], .setWrapForced false, .replaceAttr 1 2 {}],
      .tail _ (.head _), 1, 1, .head _⟩
  revert hreplacement
  decide

end Terminal.Adapter
