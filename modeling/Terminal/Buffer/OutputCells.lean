import Terminal.Buffer.TextBuffer
import Terminal.Til.Unicode

/-!
# Writing cells to a row (`OutputCellIterator.cpp`, `ROW::WriteCells`)

The loop never looks at the row: what it does is a list of edits. Iterators over legacy
attributes and `CHAR_INFO`s are left out.
-/

namespace Terminal.Buffer

open Terminal.Parser (Wchar)
open Terminal.Til List

/-! ## The cells to write -/

inductive TextAttributeBehavior where
  | stored
  | current
  | storedOnly
deriving DecidableEq, Repr

structure OutputCellView where
  chars : List Wchar
  dbcsAttr : DbcsAttribute
  textAttr : TextAttribute
  textAttrBehavior : TextAttributeBehavior
deriving DecidableEq, Repr

inductive OutputRun where
  | loose (text : List Wchar) (attr : TextAttribute)
  | looseTextOnly (text : List Wchar)
  | fill (fillLimit : Nat)
  | cells (cells : List OutputCellView)
deriving DecidableEq, Repr

structure OutputCellIterator where
  run : OutputRun
  currentView : OutputCellView
  pos : Nat := 0
  distance : Nat := 0
deriving DecidableEq, Repr

namespace OutputCellIterator

variable (fullWidth : List Wchar → Bool)

def generateView (text : List Wchar) (attr : TextAttribute) (behavior : TextAttributeBehavior) : OutputCellView :=
  ⟨utf16Next text, if fullWidth (utf16Next text) then .leading else .single, attr, behavior⟩

def ofText (text : List Wchar) (attr : TextAttribute) : OutputCellIterator :=
  { run := .loose text attr, currentView := generateView fullWidth text attr .stored }

def ofCells (cell : OutputCellView) (cells : List OutputCellView) : OutputCellIterator :=
  { run := .cells (cell :: cells), currentView := cell }

def isValid (it : OutputCellIterator) : Bool :=
  match it.run with
  | .loose text _ => it.pos < text.length
  | .looseTextOnly text => it.pos < text.length
  | .fill fillLimit => fillLimit = 0 || it.pos < fillLimit
  | .cells cells => it.pos < cells.length

def nextView (text : List Wchar) (pos : Nat) (attr : TextAttribute)
    (behavior : TextAttributeBehavior) (view : OutputCellView) : OutputCellView :=
  if pos < text.length then generateView fullWidth (text.drop pos) attr behavior else view

def advance (it : OutputCellIterator) : OutputCellIterator :=
  let distance := it.distance + 1
  let view := it.currentView
  match it.run with
  | .loose text attr =>
    if view.dbcsAttr = .leading then { it with distance, currentView := { view with dbcsAttr := .trailing } }
    else
      let pos := it.pos + view.chars.length
      { it with distance, pos, currentView := nextView fullWidth text pos attr .stored view }
  | .looseTextOnly text =>
    if view.dbcsAttr = .leading then { it with distance, currentView := { view with dbcsAttr := .trailing } }
    else
      let pos := it.pos + view.chars.length
      { it with distance, pos, currentView := nextView fullWidth text pos {} .current view }
  | .fill fillLimit =>
    if view.dbcsAttr = .leading then { it with distance, currentView := { view with dbcsAttr := .trailing } }
    else
      { it with
        distance
        currentView := if view.dbcsAttr = .trailing then { view with dbcsAttr := .leading } else view
        pos := if fillLimit > 0 then it.pos + 1 else it.pos }
  | .cells cells => { it with distance, pos := it.pos + 1, currentView := cells.getD (it.pos + 1) view }

def getInputDistance (it other : OutputCellIterator) : Int := it.pos - other.pos

def getCellDistance (it other : OutputCellIterator) : Int := it.distance - other.distance

end OutputCellIterator

/-! ## Edits of a row -/

inductive RowEdit where
  | replaceCharacters (columnBegin width : Int) (chars : List Wchar)
  | replaceAttr (columnBegin columnEnd : Nat) (attr : TextAttribute)
  | setDoubleBytePadded (padded : Bool)
  | setWrapForced (wrap : Bool)
deriving DecidableEq, Repr

def RowEdit.clearCell (column : Nat) : RowEdit := .replaceCharacters column 1 [unicodeSpace]

def RowEdit.apply (row : Row) : RowEdit → Except Fault Row
  | .replaceCharacters columnBegin width chars => row.replaceCharacters columnBegin width chars
  | .replaceAttr columnBegin columnEnd attr => do
    let attr ← orFault .undefined (Til.replaceValue 16 columnBegin columnEnd attr row.attr)
    return { row with attr }
  | .setDoubleBytePadded padded => return { row with doubleBytePadded := padded }
  | .setWrapForced wrap => return { row with wrapForced := wrap }

structure CellWriter where
  it : OutputCellIterator
  currentIndex : Nat
  currentColor : TextAttribute
  colorUses : Nat
  colorStarts : Nat
  edits : List RowEdit

namespace CellWriter

variable (fullWidth : List Wchar → Bool)

def fillColor (w : CellWriter) : CellWriter :=
  let view := w.it.currentView
  if view.textAttrBehavior = .current then w
  else if w.currentColor = view.textAttr then { w with colorUses := w.colorUses + 1 }
  else
    { w with
      edits := w.edits ++ [.replaceAttr w.colorStarts w.currentIndex w.currentColor]
      currentColor := view.textAttr
      colorUses := 1
      colorStarts := w.currentIndex }

def edit (edits : List RowEdit) (w : CellWriter) : CellWriter := { w with edits := w.edits ++ edits }

def next (w : CellWriter) : CellWriter := { w with it := w.it.advance fullWidth }

/-- A wide glyph that does not fit stays for the next row. -/
def fillText (fillingLastColumn : Bool) (w : CellWriter) : CellWriter :=
  let chars := w.it.currentView.chars
  match w.it.currentView.dbcsAttr with
  | .leading =>
    if fillingLastColumn then w.edit [.clearCell w.currentIndex, .setDoubleBytePadded true]
    else (w.edit [.replaceCharacters w.currentIndex 2 chars]).next fullWidth
  | .trailing =>
    (w.edit [if w.currentIndex = 0 then .clearCell w.currentIndex else .replaceCharacters
      (w.currentIndex - 1) 2 chars]).next fullWidth
  | .single => (w.edit [.replaceCharacters w.currentIndex 1 chars]).next fullWidth

def fillWrap (wrap : Option Bool) (fillingLastColumn : Bool) (w : CellWriter) : CellWriter :=
  match wrap with
  | some wrap => if fillingLastColumn then w.edit [.setWrapForced wrap] else w
  | none => w

def step (wrap : Option Bool) (finalColumnInRow : Int) (w : CellWriter) : CellWriter :=
  let fillingLastColumn : Bool := w.currentIndex = finalColumnInRow
  let storedOnly := w.it.currentView.textAttrBehavior = .storedOnly
  let w := w.fillColor
  let w :=
    if storedOnly then w.next fullWidth
    else (w.fillText fullWidth fillingLastColumn).fillWrap wrap fillingLastColumn
  { w with currentIndex := w.currentIndex + 1 }

def run (wrap : Option Bool) (finalColumnInRow : Int) : Nat → CellWriter → CellWriter
  | 0, w => w
  | columns + 1, w =>
    if w.it.isValid ∧ w.currentIndex ≤ finalColumnInRow then run wrap finalColumnInRow columns
      (w.step fullWidth wrap finalColumnInRow)
    else w

def allEdits (w : CellWriter) : List RowEdit :=
  if w.colorUses ≠ 0 then w.edits ++ [.replaceAttr w.colorStarts w.currentIndex w.currentColor] else w.edits

end CellWriter

def cellEdits (fullWidth : List Wchar → Bool) (it : OutputCellIterator) (columnBegin : Nat) (wrap : Option Bool)
    (finalColumnInRow : Int) : List RowEdit × OutputCellIterator :=
  let w : CellWriter := ⟨it, columnBegin, it.currentView.textAttr, 0, columnBegin, []⟩
  let w := w.run fullWidth wrap finalColumnInRow (finalColumnInRow + 1 - columnBegin).toNat
  (w.allEdits, w.it)

/-! ## Writing text

The iterator over a text with attributes, up to a limit that it does not reach.
-/

section

variable (fullWidth : List Wchar → Bool)

def glyphWidth (glyph : List Wchar) : Nat := if fullWidth glyph then 2 else 1

def textWidth (glyphs : List (List Wchar)) : Nat := (glyphs.map (glyphWidth fullWidth)).sum

def fitting : Nat → List (List Wchar) → List (List Wchar)
  | _, [] => []
  | room, glyph :: glyphs =>
    if glyphWidth fullWidth glyph ≤ room then glyph :: fitting (room - glyphWidth fullWidth glyph) glyphs
    else []

/-- The wrap flag is set with the last column. -/
def wrapEdits (wrap : Option Bool) (limit column : Nat) : List RowEdit :=
  if column + 1 = limit then wrap.toList.map .setWrapForced else []

def glyphEdits (wrap : Option Bool) (limit : Nat) : Nat → List (List Wchar) → List RowEdit
  | _, [] => []
  | column, glyph :: glyphs =>
    if limit ≤ column then []
    else if fullWidth glyph then
      if column + 1 = limit then [.clearCell column, .setDoubleBytePadded true] ++ wrapEdits wrap limit column
      else [.replaceCharacters column 2 glyph, .replaceCharacters column 2 glyph] ++
        wrapEdits wrap limit (column + 1) ++ glyphEdits wrap limit (column + 2) glyphs
    else [.replaceCharacters column 1 glyph] ++ wrapEdits wrap limit column ++ glyphEdits wrap limit (column + 1) glyphs

end

namespace CellWriter

variable {fullWidth : List Wchar → Bool} {wrap : Option Bool} {limit : Nat}

theorem fillWrap_eq (w : CellWriter) (column : Nat) :
    w.fillWrap wrap (decide ((column : Int) = limit - 1)) = w.edit (wrapEdits wrap limit column) := by
  have hlast : (column : Int) = limit - 1 ↔ column + 1 = limit := by omega
  cases wrap with
  | none => simp [fillWrap, edit, wrapEdits]
  | some wrap => by_cases h : column + 1 = limit <;> simp [fillWrap, edit, wrapEdits, hlast, h]

theorem step_stored {w : CellWriter} (hcolor : w.currentColor = w.it.currentView.textAttr)
    (hstored : w.it.currentView.textAttrBehavior = .stored) :
    w.step fullWidth wrap (limit - 1) =
      let w' := ({ w with colorUses := w.colorUses + 1 }.fillText fullWidth
        (decide (w.currentIndex + 1 = limit))).edit (wrapEdits wrap limit w.currentIndex)
      { w' with currentIndex := w'.currentIndex + 1 } := by
  have hlast : (w.currentIndex : Int) = limit - 1 ↔ w.currentIndex + 1 = limit := by omega
  have hfill : w.fillColor = { w with colorUses := w.colorUses + 1 } := by
    rw [fillColor, if_neg (by rw [hstored]; decide), if_pos hcolor]
  rw [step, hfill, if_neg (by rw [hstored]; decide), fillWrap_eq]
  simp only [hlast]

theorem run_step {w : CellWriter} (hvalid : w.it.isValid = true) (hlt : w.currentIndex < limit) :
    w.run fullWidth wrap (limit - 1) (limit - w.currentIndex) =
      (w.step fullWidth wrap (limit - 1)).run fullWidth wrap (limit - 1) (limit - (w.currentIndex + 1)) := by
  obtain ⟨n, hn⟩ : ∃ n, limit - w.currentIndex = n + 1 := ⟨limit - w.currentIndex - 1, by omega⟩
  rw [hn, run, if_pos ⟨hvalid, by omega⟩]
  congr 1
  omega

theorem run_done {w : CellWriter} (h : w.it.isValid = false ∨ limit ≤ w.currentIndex) (n : Nat) :
    w.run fullWidth wrap (limit - 1) n = w := by
  cases n with
  | zero => rfl
  | succ n =>
    rw [run, if_neg]
    rintro ⟨hvalid, hle⟩
    rcases h with h | h
    · simp [h] at hvalid
    · omega

def onText (text : List Wchar) (attr : TextAttribute) (view : OutputCellView) (pos distance column uses starts : Nat)
    (edits : List RowEdit) : CellWriter :=
  ⟨⟨.loose text attr, view, pos, distance⟩, column, attr, uses, starts, edits⟩

section

variable {text : List Wchar} {attr : TextAttribute} {glyph : List Wchar} {pos distance column uses starts : Nat}
  {edits : List RowEdit}

theorem isValid_onText {view : OutputCellView} :
    (onText text attr view pos distance column uses starts edits).it.isValid = decide (pos < text.length) := rfl

theorem step_single :
    (onText text attr ⟨glyph, .single, attr, .stored⟩ pos distance column uses starts edits).step fullWidth wrap
        (limit - 1) =
      onText text attr
        (OutputCellIterator.nextView fullWidth text (pos + glyph.length) attr .stored ⟨glyph, .single, attr, .stored⟩)
        (pos + glyph.length) (distance + 1) (column + 1) (uses + 1) starts
        (edits ++ ([.replaceCharacters column 1 glyph] ++ wrapEdits wrap limit column)) := by
  rw [step_stored rfl rfl, ← append_assoc]
  rfl

theorem step_leading (h : column + 1 ≠ limit) :
    (onText text attr ⟨glyph, .leading, attr, .stored⟩ pos distance column uses starts edits).step fullWidth wrap
        (limit - 1) =
      onText text attr ⟨glyph, .trailing, attr, .stored⟩ pos (distance + 1) (column + 1) (uses + 1) starts
        (edits ++ [.replaceCharacters column 2 glyph]) := by
  rw [step_stored rfl rfl]
  simp [onText, fillText, h, edit, next, OutputCellIterator.advance, wrapEdits]

theorem step_leading_last (h : column + 1 = limit) :
    (onText text attr ⟨glyph, .leading, attr, .stored⟩ pos distance column uses starts edits).step fullWidth wrap
        (limit - 1) =
      onText text attr ⟨glyph, .leading, attr, .stored⟩ pos distance (column + 1) (uses + 1) starts
        (edits ++ ([.clearCell column, .setDoubleBytePadded true] ++ wrapEdits wrap limit column)) := by
  rw [step_stored rfl rfl]
  simp [onText, fillText, h, edit]

theorem step_trailing :
    (onText text attr ⟨glyph, .trailing, attr, .stored⟩ pos distance (column + 1) uses starts edits).step fullWidth wrap
        (limit - 1) =
      onText text attr
        (OutputCellIterator.nextView fullWidth text (pos + glyph.length) attr .stored ⟨glyph, .trailing, attr, .stored⟩)
        (pos + glyph.length) (distance + 1) (column + 2) (uses + 1) starts
        (edits ++ ([.replaceCharacters column 2 glyph] ++ wrapEdits wrap limit (column + 1))) := by
  rw [step_stored rfl rfl]
  simp [onText, fillText, edit, next, OutputCellIterator.advance]

theorem run_onText_step {view : OutputCellView} (hpos : pos < text.length) (hcolumn : column < limit) :
    (onText text attr view pos distance column uses starts edits).run fullWidth wrap (limit - 1) (limit - column) =
      ((onText text attr view pos distance column uses starts edits).step fullWidth wrap (limit - 1)).run
        fullWidth wrap (limit - 1) (limit - (column + 1)) :=
  run_step (isValid_onText.trans (decide_eq_true hpos)) hcolumn

theorem run_onText (glyphs : List (List Wchar)) (view : OutputCellView) (pos distance column uses :
    Nat) (edits : List RowEdit) (hglyphs : codePoints (text.drop pos) = glyphs)
    (hview : pos < text.length → view = OutputCellIterator.generateView fullWidth (text.drop pos) attr .stored) :
    ∃ view', (onText text attr view pos distance column uses starts edits).run fullWidth wrap (limit - 1)
        (limit - column) =
      onText text attr view' (pos + (fitting fullWidth (limit - column) glyphs).flatten.length)
        (distance + textWidth fullWidth (fitting fullWidth (limit - column) glyphs))
        (column + min (limit - column) (textWidth fullWidth glyphs))
        (uses + min (limit - column) (textWidth fullWidth glyphs)) starts
        (edits ++ glyphEdits fullWidth wrap limit column glyphs) := by
  induction glyphs generalizing view pos distance column uses edits with
  | nil =>
    have hend : text.length ≤ pos := by simpa using hglyphs
    refine ⟨view, ?_⟩
    rw [run_done (Or.inl (isValid_onText.trans (decide_eq_false (Nat.not_lt.2 hend))))]
    simp [fitting, textWidth, glyphEdits]
  | cons glyph glyphs ih =>
    have hne : text.drop pos ≠ [] := fun hnil => by simp [hnil, codePoints] at hglyphs
    have hlt : pos < text.length := by simpa using hne
    rw [codePoints_eq hne, cons.injEq] at hglyphs
    obtain ⟨hglyph, hrest⟩ := hglyphs
    rw [hglyph, drop_drop] at hrest
    have hnext (view : OutputCellView) : pos + glyph.length < text.length →
        OutputCellIterator.nextView fullWidth text (pos + glyph.length) attr .stored view =
          OutputCellIterator.generateView fullWidth (text.drop (pos + glyph.length)) attr .stored :=
      fun h => by rw [OutputCellIterator.nextView, if_pos h]
    by_cases hfull : limit ≤ column
    · refine ⟨view, (run_done (Or.inr hfull) _).trans ?_⟩
      have hroom : limit - column = 0 := by omega
      have hwide : ¬ glyphWidth fullWidth glyph ≤ 0 := by unfold glyphWidth; split_ifs <;> omega
      simp [hroom, fitting, hwide, textWidth, glyphEdits, hfull]
    rw [hview hlt, OutputCellIterator.generateView, hglyph, run_onText_step hlt (by omega)]
    by_cases hwide : fullWidth glyph
    · rw [if_pos hwide]
      by_cases hlast : column + 1 = limit
      · rw [step_leading_last hlast]
        refine ⟨⟨glyph, .leading, attr, .stored⟩, (run_done (Or.inr (Nat.le_of_eq hlast.symm)) _).trans ?_⟩
        have hroom : limit - column = 1 := by omega
        have htwo : glyphWidth fullWidth glyph = 2 := if_pos hwide
        have hmin : min 1 (textWidth fullWidth (glyph :: glyphs)) = 1 := by
          simp only [textWidth, map_cons, sum_cons]; omega
        rw [hroom, hmin, fitting, if_neg (by omega), glyphEdits, if_neg hfull, if_pos hwide, if_pos hlast]
        rfl
      · rw [step_leading hlast, run_onText_step hlt (by omega), step_trailing]
        obtain ⟨view', h⟩ := ih _ _ (distance + 1 + 1) (column + 2) (uses + 1 + 1) _ hrest (hnext _)
        refine ⟨view', h.trans ?_⟩
        have htwo : glyphWidth fullWidth glyph = 2 := if_pos hwide
        have hroom : limit - (column + 2) = limit - column - 2 := by omega
        rw [fitting, htwo, if_pos (by omega), glyphEdits, if_neg hfull, if_pos hwide, if_neg hlast, hroom]
        simp only [textWidth, map_cons, sum_cons, flatten_cons, length_append, append_assoc]
        congr 1 <;> omega
    · rw [if_neg hwide, step_single]
      obtain ⟨view', h⟩ := ih _ _ (distance + 1) (column + 1) (uses + 1) _ hrest (hnext _)
      refine ⟨view', h.trans ?_⟩
      have hone : glyphWidth fullWidth glyph = 1 := if_neg hwide
      have hroom : limit - (column + 1) = limit - column - 1 := by omega
      rw [fitting, if_pos (by omega), glyphEdits, if_neg hfull, if_neg hwide, hroom]
      simp only [textWidth, map_cons, sum_cons, hone, flatten_cons, length_append, append_assoc]
      congr 1 <;> omega

end

end CellWriter

section

variable {fullWidth : List Wchar → Bool}

def textEdits (fullWidth : List Wchar → Bool) (attr : TextAttribute) (wrap : Option Bool) (limit column : Nat)
    (glyphs : List (List Wchar)) : List RowEdit :=
  let columns := min (limit - column) (textWidth fullWidth glyphs)
  glyphEdits fullWidth wrap limit column glyphs ++
    if columns = 0 then [] else [.replaceAttr column (column + columns) attr]

variable (fullWidth) in
theorem cellEdits_ofText (text : List Wchar) (attr : TextAttribute) (column : Nat) (wrap : Option Bool) (limit : Nat) :
    ∃ view, cellEdits fullWidth (.ofText fullWidth text attr) column wrap (limit - 1) =
      (textEdits fullWidth attr wrap limit column (codePoints text),
        { run := .loose text attr
          currentView := view
          pos := (fitting fullWidth (limit - column) (codePoints text)).flatten.length
          distance := textWidth fullWidth (fitting fullWidth (limit - column) (codePoints text)) }) := by
  obtain ⟨view, h⟩ := @CellWriter.run_onText fullWidth wrap limit text attr column (codePoints text)
    (OutputCellIterator.generateView fullWidth text attr .stored) 0 0 column 0 [] rfl (fun _ => rfl)
  have hfuel : ((limit : Int) - 1 + 1 - column).toNat = limit - column := by omega
  refine ⟨view, ?_⟩
  change ((CellWriter.onText text attr (OutputCellIterator.generateView fullWidth text attr .stored) 0 0 column 0
    column []).run fullWidth wrap (limit - 1) _ |> fun w => (w.allEdits, w.it)) = _
  rw [hfuel, h]
  simp only [CellWriter.onText, CellWriter.allEdits, textEdits, Nat.zero_add, nil_append, ne_eq, ite_not]
  by_cases hzero : min (limit - column) (textWidth fullWidth (codePoints text)) = 0
  · rw [if_pos hzero, if_pos hzero, append_nil]
  · rw [if_neg hzero, if_neg hzero]

variable (fullWidth) in
theorem fitting_eq_take (room : Nat) (glyphs : List (List Wchar)) :
    ∃ n, fitting fullWidth room glyphs = glyphs.take n := by
  induction glyphs generalizing room with
  | nil => exact ⟨0, rfl⟩
  | cons glyph glyphs ih =>
    obtain ⟨n, hn⟩ := ih (room - glyphWidth fullWidth glyph)
    rw [fitting]
    split_ifs
    · exact ⟨n + 1, by rw [hn, take_succ_cons]⟩
    · exact ⟨0, rfl⟩

variable (fullWidth) in
theorem textWidth_fitting_le (room : Nat) (glyphs : List (List Wchar)) :
    textWidth fullWidth (fitting fullWidth room glyphs) ≤ room := by
  induction glyphs generalizing room with
  | nil => simp [fitting, textWidth]
  | cons glyph glyphs ih =>
    have := ih (room - glyphWidth fullWidth glyph)
    rw [fitting]
    split_ifs
    · simp only [textWidth, map_cons, sum_cons] at *
      omega
    · simp [textWidth]

theorem fitting_zero (glyphs : List (List Wchar)) : fitting fullWidth 0 glyphs = [] := by
  cases glyphs with
  | nil => rfl
  | cons glyph glyphs =>
    rw [fitting, if_neg]
    unfold glyphWidth
    split_ifs <;> omega

variable {room : Nat} {glyphs : List (List Wchar)}

theorem le_textWidth_fitting (h : (fitting fullWidth room glyphs).length < glyphs.length) :
    room ≤ textWidth fullWidth (fitting fullWidth room glyphs) + 1 := by
  induction glyphs generalizing room with
  | nil => simp at h
  | cons glyph glyphs ih =>
    rw [fitting] at *
    split_ifs at * with hfits
    · have := ih (by simpa using h)
      simp only [textWidth, map_cons, sum_cons] at *
      omega
    · unfold glyphWidth at hfits
      split_ifs at hfits <;> omega

theorem lt_length_fitting {room n : Nat} (hn : n < glyphs.length) :
    n < (fitting fullWidth room glyphs).length ↔ textWidth fullWidth (glyphs.take (n + 1)) ≤ room := by
  induction glyphs generalizing room n with
  | nil => simp at hn
  | cons glyph glyphs ih =>
    simp only [textWidth, take_succ_cons, map_cons, sum_cons] at ih ⊢
    rw [fitting]
    split_ifs with hfits
    · cases n with
      | zero => simp [hfits]
      | succ n =>
        rw [length_cons, Nat.succ_lt_succ_iff, ih (by simpa using hn)]
        omega
    · simp only [length_nil]
      omega

theorem mem_glyphEdits {wrap : Option Bool} {limit column : Nat} {columnBegin width : Int}
    {chars : List Wchar} (h : .replaceCharacters columnBegin width chars ∈ glyphEdits fullWidth wrap
      limit column glyphs) :
    chars ∈ fitting fullWidth (limit - column) glyphs ∨ chars = [unicodeSpace] := by
  have hwrap (column : Nat) : .replaceCharacters columnBegin width chars ∉ wrapEdits wrap limit column := by
    unfold wrapEdits
    split_ifs <;> simp
  induction glyphs generalizing column with
  | nil => simp [glyphEdits] at h
  | cons glyph glyphs ih =>
    rw [glyphEdits] at h
    rw [fitting]
    by_cases hfull : limit ≤ column
    · simp [hfull] at h
    rw [if_neg hfull] at h
    by_cases hwide : fullWidth glyph
    · rw [if_pos hwide] at h
      by_cases hlast : column + 1 = limit
      · rw [if_pos hlast] at h
        simp [hwrap, RowEdit.clearCell] at h
        exact .inr h.2.2
      · rw [if_neg hlast] at h
        have hwidth : glyphWidth fullWidth glyph = 2 := if_pos hwide
        rw [hwidth, if_pos (by omega), mem_cons, or_assoc]
        simp [hwrap] at h
        exact h.imp (fun h => h.2.2) ih
    · rw [if_neg hwide] at h
      have hwidth : glyphWidth fullWidth glyph = 1 := if_neg hwide
      rw [hwidth, if_pos (by omega), mem_cons, or_assoc]
      simp [hwrap] at h
      exact h.imp (fun h => h.2.2) ih

theorem mem_textEdits {attr : TextAttribute} {wrap : Option Bool} {limit column : Nat}
    {columnBegin width : Int} {chars : List Wchar}
    (h : .replaceCharacters columnBegin width chars ∈ textEdits fullWidth attr wrap limit column glyphs) :
    chars ∈ fitting fullWidth (limit - column) glyphs ∨ chars = [unicodeSpace] := by
  rw [textEdits, mem_append] at h
  apply mem_glyphEdits (h.resolve_right _)
  split_ifs <;> simp

theorem flatten_fitting_eq_nil {text : List Wchar} :
    (fitting fullWidth room (codePoints text)).flatten.length = 0 ↔ fitting fullWidth room (codePoints text) = [] := by
  obtain ⟨n, hn⟩ := fitting_eq_take fullWidth room (codePoints text)
  rw [hn, length_eq_zero_iff, flatten_eq_nil_iff]
  constructor
  · intro h
    apply eq_nil_iff_forall_not_mem.2
    intro glyph hglyph
    have := length_pos_of_mem_codePoints (mem_of_mem_take hglyph)
    simp [h glyph hglyph] at this
  · intro h
    simp [h]

end

end Terminal.Buffer
