import Terminal.Buffer.OutputCells
import Terminal.Buffer.RowInvariant

/-!
# Rows of glyphs

To the code that reads and writes cells, a row is a line of glyphs and an attribute per column.
-/

namespace Terminal.Buffer

open Terminal.Parser (Wchar)
open Blocks List

structure TextRow where
  line : Line
  attr : Nat → TextAttribute := fun _ => {}
  lineRendition : LineRendition := .singleWidth
  wrapForced : Bool := false
  doubleBytePadded : Bool := false

def RowEdit.edit (row : TextRow) : RowEdit → TextRow
  | .replaceCharacters columnBegin width chars => { row with line := row.line.put columnBegin width chars }
  | .replaceAttr columnBegin columnEnd attr =>
    { row with attr := fun x => if columnBegin ≤ x ∧ x < columnEnd then attr else row.attr x }
  | .setDoubleBytePadded padded => { row with doubleBytePadded := padded }
  | .setWrapForced wrap => { row with wrapForced := wrap }

/-! ## Cells -/

/-- The columns of a glyph, as `GlyphAt` and `DbcsAttrAt` read them. -/
def glyphCells (glyph : Glyph) : List (List Wchar × DbcsAttribute) :=
  if glyph.width = 1 then [(glyph.value.1, .single)]
  else (glyph.value.1, .leading) :: List.replicate (glyph.width - 1) (glyph.value.1, .trailing)

def Line.cells (line : Line) : List (List Wchar × DbcsAttribute) := line.flatMap glyphCells

def TextRow.cellAt (row : TextRow) (x : Nat) : Option OutputCellView :=
  row.line.cells[x]?.map fun cell => ⟨cell.1, cell.2, row.attr x, .stored⟩

def Line.Widths (k : Nat) (line : Line) : Prop := ∀ glyph ∈ line, glyph.width ≤ k

section

variable {line : Line} {k columns : Nat} {b : Int} {chars : List Wchar}

theorem length_glyphCells (glyph : Glyph) : (glyphCells glyph).length = glyph.width := by
  have hpos := glyph.width_pos
  unfold glyphCells
  split_ifs with h
  · exact h.symm
  · rw [length_cons, length_replicate]
    omega

@[simp] theorem Line.length_cells (line : Line) : line.cells.length = width line := by
  induction line with
  | nil => rfl
  | cons glyph line ih => simpa [Line.cells, length_glyphCells] using ih

theorem Line.cells_append (xs ys : Line) : Line.cells (xs ++ ys) = xs.cells ++ ys.cells := flatMap_append

theorem Line.Widths.inside (h : line.Widths k) {j : Nat} (hj : Inside j line) (hne : line ≠ []) : j < k := by
  rcases hj with rfl | ⟨glyph, rest, rfl, hlt⟩
  · obtain ⟨glyph, rest, rfl⟩ := exists_cons_of_ne_nil hne
    exact Nat.lt_of_lt_of_le glyph.width_pos (h glyph (mem_cons_self ..))
  · exact Nat.lt_of_lt_of_le hlt (h glyph (mem_cons_self ..))

theorem TextRow.cellAt_congr {row row' : TextRow} {x : Nat} (hcells : row'.line.cells[x]? = row.line.cells[x]?)
    (hattr : row'.attr x = row.attr x) : row'.cellAt x = row.cellAt x := by
  rw [TextRow.cellAt, TextRow.cellAt, hcells, hattr]

structure IsCellOf (line : Line) (view : OutputCellView) : Prop where
  stored : view.textAttrBehavior = .stored
  glyph : ∃ glyph ∈ line, (view.chars, view.dbcsAttr) ∈ glyphCells glyph

theorem TextRow.isCellOf {row : TextRow} {x : Nat} {view : OutputCellView} (h : row.cellAt x = some view) :
    IsCellOf row.line view := by
  obtain ⟨cell, hcell, rfl⟩ := Option.map_eq_some_iff.1 h
  exact ⟨rfl, mem_flatMap.1 (mem_of_getElem? hcell)⟩

theorem IsCellOf.wide {view : OutputCellView} (h : IsCellOf line view) (hk : line.Widths (k + 1))
    (hwide : view.dbcsAttr ≠ .single) : 1 ≤ k := by
  obtain ⟨glyph, hmem, hcell⟩ := h.glyph
  by_contra hzero
  have hone : glyph.width = 1 := by
    have := glyph.width_pos
    have := hk glyph hmem
    omega
  rw [glyphCells, if_pos hone, mem_singleton] at hcell
  exact hwide (congrArg Prod.snd hcell)

theorem Line.put_cases (line : Line) (hb : 0 ≤ b) (columns : Nat) (chars : List Wchar) :
    line.put b columns chars = line ∨
      ∃ (pre mid post : Line) (j i : Nat) (glyph : Glyph), line = pre ++ (mid ++ post) ∧ (width pre + j : Int) = b ∧
        width pre + width mid = width pre + j + glyph.width + i ∧ glyph.width ≤ columns ∧ glyph.value.1 = chars ∧
        line.put b columns chars = pre ++ (blankLine j ++ glyph :: (blankLine i ++ post)) ∧
        Inside j (mid ++ post) ∧ InsideLast i mid := by
  unfold Line.put
  dsimp only
  split_ifs with h hsmall
  · obtain ⟨pre, mid, post, j, i, hline, hstart, hstop, hreplace, hj, hi⟩ := replace_eq blankText h.1 h.2.1
    have hclamp : clampedUint16 (b + columns) ≤ clampedUint16 b + columns ∧ (clampedUint16 b : Int) = b := by
      have hlt := h.1
      unfold clampedUint16 at hlt ⊢
      omega
    refine .inr ⟨pre, mid, post, j, i, ⟨⟨chars, h.2.2⟩, _, Nat.sub_pos_of_lt h.1⟩, hline, ?_, ?_,
      ?_, rfl, hreplace _, hj, hi⟩
    · rw [← hclamp.2, ← hstart]
      rfl
    · dsimp only
      omega
    · dsimp only
      omega
  · exact .inl rfl
  · exact .inl rfl

theorem Line.width_put (line : Line) (hb : 0 ≤ b) (columns : Nat) (chars : List Wchar) :
    width (line.put b columns chars) = width line := by
  rcases line.put_cases hb columns chars with heq | ⟨pre, mid, post, j, i, glyph, rfl, -, hmid, -, -, heq, -, -⟩
  · rw [heq]
  · rw [heq]
    simp
    omega

theorem Line.Widths.put (h : line.Widths k) (hb : 0 ≤ b) (hcolumns : columns ≤ k) :
    (line.put b columns chars).Widths k := by
  rcases line.put_cases hb columns chars with heq | ⟨pre, mid, post, j, i, glyph, rfl, -, -, hglyph, -, heq, -, -⟩
  · rw [heq]
    exact h
  · rw [heq]
    have hblank : ∀ n, ∀ g ∈ blankLine n, g.width ≤ k := by
      intro n g hg
      rw [eq_of_mem_replicate hg]
      exact Nat.le_trans glyph.width_pos (Nat.le_trans hglyph hcolumns)
    intro g hg
    simp only [mem_append, mem_cons] at hg
    rcases hg with hg | hg | rfl | hg | hg
    · exact h g (mem_append_left _ hg)
    · exact hblank j g hg
    · exact Nat.le_trans hglyph hcolumns
    · exact hblank i g hg
    · exact h g (mem_append_right _ (mem_append_right _ hg))

theorem Line.Widths.cells_put (h : line.Widths k) (hb : 0 ≤ b) {x : Nat}
    (hx : x + k ≤ b ∨ b + columns + k ≤ x + 1) : (line.put b columns chars).cells[x]? = line.cells[x]? := by
  rcases line.put_cases hb columns chars with heq | ⟨pre, mid, post, j, i, glyph, rfl, hpre, hmid,
    hglyph, -, heq, hj, hi⟩
  · rw [heq]
  · have hrest : mid ++ post ≠ [] := by
      intro hnil
      have hpos := glyph.width_pos
      simp [(append_eq_nil_iff.1 hnil).1] at hmid
      omega
    have hjk := Widths.inside (fun g hg => h g (mem_append_right _ hg)) hj hrest
    have hik : i < k := by
      rcases hi with rfl | ⟨front, last, rfl, hlt⟩
      · omega
      · exact Nat.lt_of_lt_of_le hlt (h last (by simp))
    rw [heq]
    simp only [Line.cells_append]
    rcases hx with hx | hx
    · have hlt : x < (Line.cells pre).length := by
        rw [Line.length_cells]
        omega
      rw [getElem?_append_left hlt, getElem?_append_left hlt]
    · have hcells : Line.cells (glyph :: (blankLine i ++ post)) = glyphCells glyph ++
        (Line.cells (blankLine i) ++ post.cells) := by
        rw [← Line.cells_append]
        rfl
      rw [hcells]
      simp only [← append_assoc]
      rw [getElem?_append_right (by simp [length_glyphCells]; omega), getElem?_append_right (by simp; omega)]
      congr 1
      simp [length_glyphCells]
      omega

/-! ## Narrow glyphs -/

def Line.Narrow (line : Line) : Prop := ∀ glyph ∈ line, glyph.width = 1 ∧ glyph.value.1.length ≤ 2

theorem Line.Narrow.cells_eq (h : line.Narrow) : line.cells = line.map fun glyph => (glyph.value.1, .single) := by
  induction line with
  | nil => rfl
  | cons glyph line ih =>
    have hline := ih fun g hg => h g (mem_cons_of_mem _ hg)
    rw [Line.cells, flatMap_cons, glyphCells, if_pos (h glyph (mem_cons_self ..)).1, map_cons, ← hline]
    rfl

theorem Line.Narrow.width_eq (h : line.Narrow) : width line = line.length := by
  rw [← Line.length_cells, h.cells_eq, length_map]

theorem Line.Narrow.length_text_le (h : line.Narrow) : line.text.length ≤ 2 * line.length := by
  induction line with
  | nil => exact Nat.le_refl 0
  | cons glyph line ih =>
    have hglyph := h glyph (mem_cons_self ..)
    have hline := ih fun g hg => h g (mem_cons_of_mem _ hg)
    simp only [Line.text_cons, length_append, length_cons]
    omega

theorem Line.Narrow.put (h : line.Narrow) (hsmall : width line ≤ 0x7fff) {x : Nat} (hx : x < width line)
    (hne : chars ≠ []) (hchars : chars.length ≤ 2) :
    (line.put x 1 chars).Narrow ∧ (line.put x 1 chars).cells = line.cells.set x (chars, .single) := by
  have hlength := h.width_eq
  have hstart : clampedUint16 x = x := by unfold clampedUint16; omega
  have hstop : clampedUint16 ((x : Int) + 1) = x + 1 := by unfold clampedUint16; omega
  obtain ⟨pre, mid, post, j, i, rfl, hpre, hmid, hreplace, hj, hi⟩ :=
    replace_eq blankText (show x < x + 1 by omega) (show x + 1 ≤ width line from hx)
  have hnarrow : Line.Narrow (pre ++ ⟨⟨chars, hne⟩, 1, Nat.one_pos⟩ :: post) := by
    intro g hg
    rcases mem_append.1 hg with hg | hg
    · exact h g (mem_append_left _ hg)
    · rcases mem_cons.1 hg with rfl | hg
      · exact ⟨rfl, hchars⟩
      · exact h g (mem_append_right _ (mem_append_right _ hg))
  have hj : j = 0 := by
    rcases hj with hj | ⟨glyph, rest, hrest, hlt⟩
    · exact hj
    · have := (h glyph (mem_append_right _ (hrest ▸ mem_cons_self ..))).1
      omega
  have hi : i = 0 := by
    rcases hi with hi | ⟨front, last, rfl, hlt⟩
    · exact hi
    · have := (h last (by simp)).1
      omega
  subst hj hi
  have hput : Line.put x 1 chars (pre ++ (mid ++ post)) = pre ++ ⟨⟨chars, hne⟩, 1, Nat.one_pos⟩ :: post := by
    have hreplaced := hreplace ⟨chars, hne⟩
    have htext := hnarrow.length_text_le
    simp only [blanks_zero, nil_append, Nat.add_sub_cancel_left] at hreplaced
    unfold Line.put
    simp only [hstart, hstop]
    rw [dif_pos ⟨Nat.lt_succ_self x, hx, hne⟩, hreplaced, if_pos]
    have hcount : mid.length = 1 := by
      rw [← Line.Narrow.width_eq fun g hg => h g (by simp [hg])]
      omega
    simp only [length_append, length_cons] at htext hlength
    omega
  have hmid1 : (Line.cells mid).length = 1 := by
    rw [Line.length_cells]
    omega
  obtain ⟨cell, hcell⟩ := length_eq_one_iff.1 hmid1
  rw [hput]
  refine ⟨hnarrow, ?_⟩
  have hlen : (Line.cells pre).length = x := by
    rw [Line.length_cells]
    omega
  simp only [Line.cells_append, hcell]
  rw [set_append, if_neg (by omega), hlen, Nat.sub_self]
  rfl

end

/-! ## The rows of the buffer -/

structure Row.ShowsText (row : Row) (text : TextRow) : Prop where
  holds : row.Holds text.line
  attr : ∀ x < row.columnCount, (RunList.decode row.attr.runs)[x]? = some (text.attr x)
  flags : (row.lineRendition, row.wrapForced, row.doubleBytePadded) =
    (text.lineRendition, text.wrapForced, text.doubleBytePadded)

theorem Row.Holds.of_text {row row' : Row} {line : Line} (h : row.Holds line) (hattr : row'.AttrFull)
    (hsame : (row'.hasBuffer, row'.chars, row'.charOffsets, row'.columnCount) =
      (row.hasBuffer, row.chars, row.charOffsets, row.columnCount)) : row'.Holds line := by
  simp only [Prod.mk.injEq] at hsame
  obtain ⟨hbuffer, hchars, hoffsets, hcount⟩ := hsame
  refine ⟨hattr, ?_⟩
  rcases h.text with ⟨h1, h2, h3, h4, h5, h6⟩ | ⟨⟨h1, h2, h3, h4⟩, hnil⟩
  · exact .inl ⟨hbuffer ▸ h1, hcount ▸ h2, hoffsets ▸ h3, hchars ▸ h4, h5, hchars ▸ h6⟩
  · exact .inr ⟨⟨hbuffer ▸ h1, hchars ▸ h2, hoffsets ▸ h3, hcount ▸ h4⟩, hnil⟩

/-- An edit does to the row what it does to the glyphs, or changes nothing. -/
theorem RowEdit.apply_showsText {row : Row} {text : TextRow} (h : row.ShowsText text) (edit : RowEdit)
    (hsmall : (edit.edit text).line.text.length ≤ 0x7fff)
    (hrange : ∀ start stop attr, edit = .replaceAttr start stop attr → start < stop ∧ stop ≤ row.columnCount) :
    (∃ row', edit.apply row = .ok row' ∧ row'.ShowsText (edit.edit text)) ∨
      edit.apply row = .error .exception ∧ edit.edit text = text := by
  obtain ⟨hholds, hattr, hflags⟩ := h
  cases edit with
  | replaceCharacters columnBegin width chars =>
    rcases hholds.replaceCharacters columnBegin width chars hsmall with ⟨row', hrun, hholds', hrow⟩ | ⟨hrun, hput⟩
    · refine .inl ⟨row', hrun, hholds', ?_, ?_⟩
      · rw [hrow]
        exact hattr
      · rw [hrow]
        exact hflags
    · refine .inr ⟨hrun, ?_⟩
      rw [RowEdit.edit, hput]
  | replaceAttr start stop attr =>
    obtain ⟨hlt, hstop⟩ := hrange start stop attr rfl
    obtain ⟨rle, hrle, hwell, htotal, hdecode⟩ :=
      Til.replaceValue_eq hholds.attr.wellFormed hlt (hholds.attr.total ▸ hstop) attr
    refine .inl ⟨{ row with attr := rle }, ?_, hholds.of_text ⟨hwell, htotal.trans hholds.attr.total⟩ rfl, ?_, hflags⟩
    · rw [RowEdit.apply, hrle]
      rfl
    · intro x hx
      change (RunList.decode rle.runs)[x]? = some (if start ≤ x ∧ x < stop then attr else text.attr x)
      grind
  | setDoubleBytePadded padded =>
    refine .inl ⟨_, rfl, hholds.of_text ⟨hholds.attr.wellFormed, hholds.attr.total⟩ rfl, hattr, ?_⟩
    simp_all [RowEdit.edit]
  | setWrapForced wrap =>
    refine .inl ⟨_, rfl, hholds.of_text ⟨hholds.attr.wellFormed, hholds.attr.total⟩ rfl, hattr, ?_⟩
    simp_all [RowEdit.edit]

theorem RowEdit.apply_showsText_wide :
    let edit := RowEdit.replaceCharacters 0 2 [0x3042]
    let text : TextRow := { line := blankLine 2 }
    (∃ row', edit.apply (Row.make 2 {}) = .ok row' ∧ row'.ShowsText (edit.edit text)) ∨
      edit.apply (Row.make 2 {}) = .error .exception ∧ edit.edit text = text := by
  intro edit text
  have hholds : (Row.make 2 {}).Holds text.line :=
    ⟨⟨Til.Rle.wellFormed_ofLength (by decide) _, rfl⟩, .inl (Row.shows_blank rfl (by decide) rfl)⟩
  exact apply_showsText ⟨hholds, by decide, rfl⟩ edit (by decide) (by simp [edit])

end Terminal.Buffer
