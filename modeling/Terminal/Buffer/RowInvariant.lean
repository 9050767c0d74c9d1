import Terminal.Buffer.RowText

/-!
# Sequences of operations on a row

Every operation that changes the text is an edit of the line shown. So the shape of `charOffsets`
follows for every sequence of operations, while the text stays small enough.
-/

namespace Terminal.Buffer

open Terminal.Parser (Wchar)
open Blocks

/-! ## Operations -/

inductive RowOp
  | reset (attr : TextAttribute)
  | resize (rowWidth : BitVec 16) (fillAttribute : TextAttribute)
  | replaceCharacters (columnBegin width : Int) (chars : List Wchar)
  | clearCell (column : Int)
deriving DecidableEq, Repr

def RowOp.run : RowOp → Row → Except Fault Row
  | .reset attr, row => .ok (row.reset attr)
  | .resize rowWidth fillAttribute, row => row.resize rowWidth fillAttribute
  | .replaceCharacters columnBegin width chars, row => row.replaceCharacters columnBegin width chars
  | .clearCell column, row => row.clearCell column

def RowOp.step (op : RowOp) (row : Row) : Option Row :=
  match op.run row with
  | .ok row' => some row'
  | .error .exception => some row
  | .error .undefined => none

def Row.runOps : Row → List RowOp → Option Row
  | row, [] => some row
  | row, op :: ops => do
    let row ← op.step row
    row.runOps ops

/-! ## Edits of the line -/

/-- Puts a glyph over columns of the line. Text without a size is refused. -/
def Line.put (columnBegin columns : Int) (chars : List Wchar) (line : Line) : Line :=
  let start := clampedUint16 columnBegin
  let stop := clampedUint16 (columnBegin + columns)
  if h : start < stop ∧ stop ≤ width line ∧ chars ≠ [] then
    let line' := replace blankText start stop ⟨chars, h.2.2⟩ h.1 line
    if (Line.text line').length < 2 ^ 16 then line' else line
  else line

def RowOp.edit : RowOp → Line → Line
  | .reset _, line => blankLine (width line)
  | .resize rowWidth _, line => before blankText rowWidth.toNat line
  | .replaceCharacters columnBegin columns chars, line => line.put columnBegin columns chars
  | .clearCell column, line => line.put column 1 [unicodeSpace]

def Line.editAll (line : Line) (ops : List RowOp) : Line := ops.foldl (fun line op => op.edit line) line

def Line.StaysSmall : Line → List RowOp → Prop
  | line, [] => line.text.length ≤ 0x7fff
  | line, op :: ops => line.text.length ≤ 0x7fff ∧ StaysSmall (op.edit line) ops

instance decidableStaysSmall : (line : Line) → (ops : List RowOp) → Decidable (line.StaysSmall ops)
  | line, [] => inferInstanceAs (Decidable (line.text.length ≤ 0x7fff))
  | line, op :: ops =>
    have := decidableStaysSmall (op.edit line) ops
    inferInstanceAs (Decidable (line.text.length ≤ 0x7fff ∧ Line.StaysSmall (op.edit line) ops))

/-! ## One operation -/

section

variable {row : Row} {line : Line}

structure Row.Holds (row : Row) (line : Line) : Prop where
  attr : row.AttrFull
  text : row.Shows line ∨ row.Unallocated ∧ line = []

theorem Row.Holds.width_eq (h : row.Holds line) : width line = row.columnCount := by
  rcases h.text with hshows | ⟨hnone, rfl⟩
  · exact hshows.columns.symm
  · exact hnone.columnCount.symm

theorem Row.Holds.reset (h : row.Holds line) (attr : TextAttribute) (hsmall : row.columnCount ≤ 0x7fff) :
    (row.reset attr).Holds (blankLine row.columnCount) := by
  have hattr : (row.reset attr).AttrFull := ⟨Til.Rle.wellFormed_ofLength (by omega) attr, rfl⟩
  refine ⟨hattr, ?_⟩
  rcases h.text with hshows | ⟨hnone, rfl⟩
  · refine .inl (Row.shows_blank hshows.hasBuffer hsmall ?_)
    simp [hshows.offsets, hshows.columns, Line.entries]
  · refine .inr ⟨⟨hnone.hasBuffer, ?_, ?_, hnone.columnCount⟩, ?_⟩
    · simp [Row.reset, Row.init, hnone.columnCount, spaces]
    · simp [Row.reset, Row.init, hnone.charOffsets, iota]
    · simp [hnone.columnCount]

theorem Row.Holds.resize (h : row.Holds line) (rowWidth : BitVec 16) (fill : TextAttribute)
    (hsmall : (Line.text (before blankText rowWidth.toNat line)).length ≤ 0x7fff) :
    ∃ row', row.resize rowWidth fill = .ok row' ∧ row'.Holds (before blankText rowWidth.toNat line) := by
  rcases h.text with hshows | ⟨hnone, rfl⟩
  · obtain ⟨row', hrun, hshows', hattr'⟩ := hshows.resize h.attr rowWidth fill hsmall
    exact ⟨row', hrun, hattr', .inl hshows'⟩
  · obtain ⟨row', hrun, hshows', hattr'⟩ := hnone.resize h.attr rowWidth fill (by simpa [before] using hsmall)
    exact ⟨row', hrun, hattr', .inl hshows'⟩

theorem Row.Holds.replaceCharacters (h : row.Holds line) (begin columns : Int) (chars : List Wchar)
    (hsmall : (line.put begin columns chars).text.length ≤ 0x7fff) :
    (∃ row', row.replaceCharacters begin columns chars = .ok row' ∧ row'.Holds (line.put begin columns chars) ∧
        row' = { row with chars := row'.chars, charOffsets := row'.charOffsets }) ∨
      row.replaceCharacters begin columns chars = .error .exception ∧ line.put begin columns chars = line := by
  have hwidth := h.width_eq
  by_cases hrange : clampedUint16 begin < clampedUint16 (begin + columns) ∧
      clampedUint16 (begin + columns) ≤ width line ∧ chars ≠ []
  · have hrun : row.replaceCharacters begin columns chars =
        row.replaceRange (clampedUint16 begin) (clampedUint16 (begin + columns)) chars := by
      refine if_neg ?_
      rintro (hle | hgt | hnil)
      · omega
      · omega
      · exact hrange.2.2 hnil
    have hshows : row.Shows line := by
      rcases h.text with hshows | ⟨-, rfl⟩
      · exact hshows
      · have hstop := hrange.2.1
        simp at hstop
        omega
    have hstop : clampedUint16 (begin + columns) ≤ row.columnCount := hwidth ▸ hrange.2.1
    rw [hrun]
    simp only [Line.put] at hsmall ⊢
    split_ifs at hsmall ⊢ with hlength
    · left
      obtain ⟨chars', charOffsets, hreplace, hshows'⟩ :=
        Row.replaceRange_shows ⟨chars, hrange.2.2⟩ hshows hrange.1 hstop hsmall
      exact ⟨_, hreplace, ⟨⟨h.attr.wellFormed, h.attr.total⟩, .inl hshows'⟩, rfl⟩
    · right
      exact ⟨Row.replaceRange_exception ⟨chars, hrange.2.2⟩ hshows hrange.1 hstop (by omega), rfl⟩
  · left
    have hrun : row.replaceCharacters begin columns chars = .ok row := by
      refine if_pos ?_
      by_contra hguard
      push Not at hguard
      exact hrange ⟨hguard.1, hwidth ▸ hguard.2.1, hguard.2.2⟩
    refine ⟨row, hrun, ?_, rfl⟩
    rwa [Line.put, dif_neg hrange]

theorem RowOp.step_holds (op : RowOp) (h : row.Holds line) (hsmall : (op.edit line).text.length ≤ 0x7fff) :
    ∃ row', op.step row = some row' ∧ row'.Holds (op.edit line) := by
  cases op with
  | reset attr =>
    have hreset := h.reset attr (by simpa [edit, h.width_eq] using hsmall)
    exact ⟨_, rfl, by simpa only [edit, h.width_eq] using hreset⟩
  | resize rowWidth fill =>
    obtain ⟨row', hrun, hholds⟩ := h.resize rowWidth fill hsmall
    exact ⟨row', by simp only [step, run, hrun], hholds⟩
  | replaceCharacters begin columns chars =>
    rcases h.replaceCharacters begin columns chars hsmall with ⟨row', hrun, hholds, -⟩ | ⟨hrun, hedit⟩
    · exact ⟨row', by simp only [step, run, hrun], hholds⟩
    · exact ⟨row, by simp only [step, run, hrun], by rwa [edit, hedit]⟩
  | clearCell column =>
    rcases h.replaceCharacters column 1 [unicodeSpace] hsmall with ⟨row', hrun, hholds, -⟩ | ⟨hrun, hedit⟩
    · exact ⟨row', by simp only [step, run, Row.clearCell, hrun], hholds⟩
    · exact ⟨row, by simp only [step, run, Row.clearCell, hrun], by rwa [edit, hedit]⟩

/-! ## Sequences -/

theorem Row.Holds.runOps (h : row.Holds line) {ops : List RowOp} (hsmall : line.StaysSmall ops) :
    ∃ row', row.runOps ops = some row' ∧ row'.Holds (line.editAll ops) := by
  induction ops generalizing row line with
  | nil => exact ⟨row, rfl, h⟩
  | cons op ops ih =>
    have hnext : (op.edit line).StaysSmall ops := hsmall.2
    have hsmall' : (op.edit line).text.length ≤ 0x7fff := by
      cases ops with
      | nil => exact hnext
      | cons op' ops => exact hnext.1
    obtain ⟨row', hstep, hholds⟩ := op.step_holds h hsmall'
    obtain ⟨row'', hrun, hholds'⟩ := ih hholds hnext
    exact ⟨row'', by rw [Row.runOps, hstep]; exact hrun, hholds'⟩

/-! ## The shape of the offsets -/

structure Row.Stores (row : Row) (text : List Wchar) : Prop where
  entries : row.charOffsets.length = row.columnCount + 1
  first : ∃ offset, row.charOffsets[0]? = some offset ∧ offset &&& charOffsetsMask = 0 ∧ isTrailer offset = false
  trailer : ∀ {col : Nat} {offset offset' : BitVec 16}, row.charOffsets[col]? = some offset →
    row.charOffsets[col + 1]? = some offset' → isTrailer offset' = true →
    offset' &&& charOffsetsMask = offset &&& charOffsetsMask
  lead : ∀ {col col' : Nat} {offset offset' : BitVec 16}, col < col' → row.charOffsets[col]? = some offset →
    row.charOffsets[col']? = some offset' → isTrailer offset = false → isTrailer offset' = false →
    (offset &&& charOffsetsMask).toNat < (offset' &&& charOffsetsMask).toNat
  last : ∃ offset, row.charOffsets[row.columnCount]? = some offset ∧ isTrailer offset = false ∧
    offset.toNat = text.length
  fits : text.length ≤ row.chars.length
  text : row.getText = .ok text

theorem Line.length_text_pos {line : Line} (h : line ≠ []) : 0 < line.text.length := by
  cases line with
  | nil => exact absurd rfl h
  | cons glyph line =>
    have := List.length_pos_of_ne_nil glyph.value.2
    simp only [text_cons, List.length_append]
    omega

theorem Row.Shows.offset_eq (h : row.Shows line) {col : Nat} {offset : BitVec 16}
    (hget : row.charOffsets[col]? = some offset) :
    ∃ pre rest j, line = pre ++ rest ∧ width pre + j = col ∧ Inside j rest ∧
      row.charOffsets = Line.offsets 0 pre ++ Line.entries (Line.text pre).length rest ∧
      (Line.text pre).length ≤ 0x7fff ∧
      offset &&& charOffsetsMask = BitVec.ofNat 16 (Line.text pre).length ∧ isTrailer offset = decide (j ≠ 0) := by
  have hcol : col ≤ row.columnCount := by
    obtain ⟨hlt, -⟩ := List.getElem?_eq_some_iff.mp hget
    rw [h.offsets] at hlt
    simp [Line.entries, ← h.columns] at hlt
    omega
  obtain ⟨pre, rest, j, hline, hwidth, hj, hoffsets, hsmall⟩ := h.column hcol
  obtain ⟨offset', hget', hmask, htrailer⟩ := getElem?_charOffsets hoffsets hsmall hj
  rw [Line.length_offsets, hwidth, hget, Option.some.injEq] at hget'
  subst hget'
  exact ⟨pre, rest, j, hline, hwidth, hj, hoffsets, hsmall, hmask, htrailer⟩

theorem Row.Shows.trailer_eq (h : row.Shows line) {col : Nat} {offset offset' : BitVec 16}
    (hget : row.charOffsets[col]? = some offset) (hget' : row.charOffsets[col + 1]? = some offset')
    (htrailer' : isTrailer offset' = true) : offset' &&& charOffsetsMask = offset &&& charOffsetsMask := by
  obtain ⟨pre, rest, j, -, hwidth, hj, hoffsets, hpre, hmask', htrailer⟩ := h.offset_eq hget'
  rw [htrailer, decide_eq_true_iff] at htrailer'
  obtain ⟨i, rfl⟩ := Nat.exists_eq_succ_of_ne_zero htrailer'
  -- The column to the left belongs to the same glyph.
  obtain ⟨offset'', hget'', hmask, -⟩ := getElem?_charOffsets hoffsets hpre hj.of_succ
  rw [Line.length_offsets, show width pre + i = col by omega, hget, Option.some.injEq] at hget''
  rw [hmask', hget'', hmask]

theorem Row.Shows.lead_lt (h : row.Shows line) {col col' : Nat} {offset offset' : BitVec 16} (hlt : col < col')
    (hget : row.charOffsets[col]? = some offset) (hget' : row.charOffsets[col']? = some offset')
    (_ : isTrailer offset = false) (hlead' : isTrailer offset' = false) :
    (offset &&& charOffsetsMask).toNat < (offset' &&& charOffsetsMask).toNat := by
  obtain ⟨pre, rest, j, hline, hwidth, -, -, hpre, hmask, htrailer⟩ := h.offset_eq hget
  obtain ⟨pre', rest', j', hline', hwidth', -, -, hpre', hmask', htrailer'⟩ := h.offset_eq hget'
  have hj' : j' = 0 := by simpa [htrailer'] using hlead'
  rw [hmask, hmask', toNat_ofNat hpre, toNat_ofNat hpre']
  rcases List.append_eq_append_iff.mp (hline.symm.trans hline') with ⟨more, rfl, -⟩ | ⟨more, rfl, -⟩
  · have hmore : more ≠ [] := by
      rintro rfl
      simp at hwidth'
      omega
    have := Line.length_text_pos hmore
    rw [Line.text_append, List.length_append]
    omega
  · simp only [width_append] at hwidth
    omega

theorem Row.Shows.getText_eq (h : row.Shows line) : row.getText = .ok line.text := by
  obtain ⟨spare, hchars⟩ := h.chars
  have hread : Span.read 0 line.text.length row.chars = some line.text := by
    rw [hchars]
    exact Span.read_append [] _ _ rfl (by simp)
  simp only [getText, h.charSize_eq, ok_bind, toNat_ofNat h.small, hread, orFault_some]

theorem Row.Shows.stores (h : row.Shows line) : row.Stores line.text := by
  refine ⟨?_, ?_, h.trailer_eq, h.lead_lt, ?_, ?_, h.getText_eq⟩
  · simp [h.offsets, h.columns, Line.entries]
  · refine ⟨BitVec.ofNat 16 0, ?_, by decide, by decide⟩
    rw [h.offsets, ← List.head?_eq_getElem?, Line.head?_entries]
  · refine ⟨BitVec.ofNat 16 line.text.length, ?_, isTrailer_ofNat h.small, toNat_ofNat h.small⟩
    simp [h.offsets, h.columns, Line.entries]
  · obtain ⟨spare, hchars⟩ := h.chars
    simp [hchars]

inductive Row.Made : Row → Line → Prop
  | default : Made {} []
  | withBuffer (rowWidth : BitVec 16) (fillAttribute : TextAttribute) :
    Made (Row.make rowWidth fillAttribute) (blankLine rowWidth.toNat)

theorem Row.Made.holds (h : Row.Made row line) (hsmall : line.text.length ≤ 0x7fff) : row.Holds line := by
  cases h with
  | default =>
    exact ⟨⟨⟨RunList.canonical_nil, rfl, by decide⟩, rfl⟩, .inr ⟨⟨rfl, rfl, rfl, rfl⟩, rfl⟩⟩
  | withBuffer rowWidth fill =>
    refine ⟨⟨Til.Rle.wellFormed_ofLength rowWidth.isLt fill, rfl⟩, .inl (Row.shows_blank rfl ?_ ?_)⟩
    · simpa using hsmall
    · simp

/-- Over every sequence of operations the text is stored in the same way. -/
theorem Row.runOps_stores {ops : List RowOp} (hmade : Row.Made row line) (hsmall : line.StaysSmall ops) :
    ∃ row', row.runOps ops = some row' ∧ (row'.hasBuffer = true → row'.Stores (line.editAll ops).text) := by
  have hline : line.text.length ≤ 0x7fff := by
    cases ops with
    | nil => exact hsmall
    | cons op ops => exact hsmall.1
  obtain ⟨row', hrun, hholds⟩ := (hmade.holds hline).runOps hsmall
  refine ⟨row', hrun, ?_⟩
  intro hbuffer
  rcases hholds.text with hshows | ⟨hnone, -⟩
  · exact hshows.stores
  · simp [hnone.hasBuffer] at hbuffer

theorem Row.runOps_stores_overlap :
    let ops : List RowOp := [.resize 6 {}, .replaceCharacters 0 2 [0x78], .replaceCharacters 2 2 [0xD83D, 0xDE00],
      .replaceCharacters 1 2 [0x732B], .clearCell 5, .resize 5 {}]
    Line.StaysSmall [] ops ∧ ∃ row', Row.runOps {} ops = some row' ∧
      (row'.hasBuffer = true → row'.Stores [0x20, 0x732B, 0x20, 0x20]) := by
  intro ops
  have hsmall : Line.StaysSmall [] ops := by decide
  have htext : (Line.editAll [] ops).text = [0x20, 0x732B, 0x20, 0x20] := by decide
  exact ⟨hsmall, htext ▸ Row.runOps_stores Row.Made.default hsmall⟩

end

end Terminal.Buffer
