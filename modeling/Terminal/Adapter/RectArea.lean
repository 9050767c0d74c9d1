import Terminal.Buffer.TextRow
import Terminal.Types.WalkCopy

/-!
# Copying a rectangular area (DECCRA)

Coordinates are clamped to the page, and no cell is overwritten before it has been read, as long
as each takes one column.
-/

namespace Terminal.Adapter

open Terminal.Parser (Wchar)
open Terminal.Buffer hiding Point Size
open Terminal.Types InPlace Viewport CellWriter

/-! ## The page -/

structure Page where
  viewport : Rect
  bufferSize : Size
  scrollMargins : Int × Int := (0, 0)
  originMode : Bool := false
  width_pos : 0 < bufferSize.width
  width_le : bufferSize.width ≤ 0x7fff
  top_nonneg : 0 ≤ viewport.top
  top_lt_bottom : viewport.top < viewport.bottom
  bottom_le : viewport.bottom ≤ bufferSize.height
  margins_nonneg : 0 ≤ scrollMargins.1

namespace Page

variable (page : Page)

/-- Margins out of range are not reset: they are found to be so again. -/
def getVerticalMargins : Int × Int :=
  let bottommostRow := page.viewport.bottom - page.viewport.top - 1
  let margins := if page.scrollMargins.1 ≥ bottommostRow then (0, 0) else page.scrollMargins
  let marginsSet := margins.1 < margins.2
  (if marginsSet then margins.1 else 0, min (if marginsSet then margins.2 else bottommostRow) bottommostRow)

def yOffset : Int := if page.originMode then page.getVerticalMargins.1 else 0

def yMaximum : Int :=
  if page.originMode then page.getVerticalMargins.2 + 1 else page.viewport.bottom - page.viewport.top

def calculateRectArea (top left bottom right : Int) : Rect :=
  let xMaximum := page.bufferSize.width
  let fillRight := if right ≠ 0 then right else xMaximum
  let fillBottom := if bottom ≠ 0 then bottom + page.yOffset else page.yMaximum
  { left := min left xMaximum - 1
    right := min fillRight xMaximum - 1 + 1
    top := min (top + page.yOffset) page.yMaximum - 1 + page.viewport.top
    bottom := min fillBottom page.yMaximum - 1 + page.viewport.top + 1 }

/-! ## The buffer -/

def getCellDataAt (rows : Int → TextRow) (pos : Point) : Option OutputCellView :=
  if page.bufferSize.IsInBounds pos then (rows pos.y).cellAt pos.x.toNat else none

def getLineWidth (rows : Int → TextRow) (y : Int) : Int :=
  if (rows y).lineRendition ≠ .singleWidth then page.bufferSize.width / 2 else page.bufferSize.width

def writeLine (fullWidth : List Wchar → Bool) (page : Page) (it : OutputCellIterator) (target : Point)
    (rows : Int → TextRow) : Int → TextRow :=
  if page.bufferSize.IsInBounds target then
    let edits := (cellEdits fullWidth it target.x.toNat none (page.bufferSize.width - 1)).1
    Function.update rows target.y (edits.foldl RowEdit.edit (rows target.y))
  else rows

end Page

def Page.OnScreen (page : Page) (rows : Int → TextRow) (pos : Point) : Prop := pos.x < page.getLineWidth rows pos.y

instance (page : Page) (rows : Int → TextRow) (pos : Point) : Decidable (page.OnScreen rows pos) :=
  inferInstanceAs (Decidable (_ < _))

structure Copying where
  rows : Int → TextRow
  next : OutputCellView
  srcPos : Point
  dstPos : Point

/-- A turn of the loop; `none` is the exception for a cell that the buffer does not have. -/
def Copying.turn (fullWidth : List Wchar → Bool) (page : Page) (srcView dstView : Types.Viewport) (s : Copying) :
    Option (Copying × Bool) := do
  let walkDirection := determineWalkDirection srcView dstView
  let current := s.next
  let srcPos := (srcView.walkInBounds s.srcPos walkDirection).1
  let next ← page.getCellDataAt s.rows srcPos
  let rows :=
    if srcPos.x < page.getLineWidth s.rows srcPos.y then
      page.writeLine fullWidth (.ofCells current []) s.dstPos s.rows
    else s.rows
  let (dstPos, more) := dstView.walkInBounds s.dstPos walkDirection
  return (⟨rows, next, srcPos, dstPos⟩, more)

def copyCells (fullWidth : List Wchar → Bool) (page : Page) (srcView dstView : Types.Viewport) (rows : Int → TextRow) :
    Option (Int → TextRow) := do
  let walkDirection := determineWalkDirection srcView dstView
  let srcPos := srcView.getWalkOrigin walkDirection
  let next ← page.getCellDataAt rows srcPos
  (tryWhile (Copying.turn fullWidth page srcView dstView) dstView.area
    ⟨rows, next, srcPos, dstView.getWalkOrigin walkDirection⟩).map (·.rows)

def Page.destination (page : Page) (src : Rect) (dstTop dstLeft : Int) : Rect :=
  page.calculateRectArea dstTop dstLeft (dstTop + src.size.height - 1) (dstLeft + src.size.width - 1)

def copyRectangularArea (fullWidth : List Wchar → Bool) (page : Page) (top left bottom right dstTop dstLeft : Int)
    (rows : Int → TextRow) : Option (Int → TextRow) :=
  let srcRect := page.calculateRectArea top left bottom right
  let dstRect := page.destination srcRect dstTop dstLeft
  if dstRect.IsNonempty ∧ dstRect.origin ≠ srcRect.origin then
    copyCells fullWidth page (.fromDimensions srcRect.origin dstRect.size)
      (.fromDimensions dstRect.origin dstRect.size) rows
  else some rows

/-! ## One cell -/

def oneCellEdits (view : OutputCellView) (x width : Nat) : List RowEdit :=
  match view.dbcsAttr with
  | .leading =>
    if x + 1 = width then [.clearCell x, .setDoubleBytePadded true] else [.replaceCharacters x 2 view.chars]
  | .trailing => [if x = 0 then .clearCell x else .replaceCharacters (x - 1) 2 view.chars]
  | .single => [.replaceCharacters x 1 view.chars]

section

variable {fullWidth : List Wchar → Bool} {page : Page} {rows : Int → TextRow} {view : OutputCellView} {x width k : Nat}

theorem cellEdits_ofCell (hstored : view.textAttrBehavior = .stored) (hx : x < width) :
    (cellEdits fullWidth (.ofCells view []) x none (width - 1)).1 =
      oneCellEdits view x width ++ [.replaceAttr x (x + 1) view.textAttr] := by
  have hfuel : ((width : Int) - 1 + 1 - x).toNat = width - x := by omega
  have hrun := @run_step fullWidth none width ⟨.ofCells view [], x, view.textAttr, 0, x, []⟩ rfl hx
  rw [step_stored rfl hstored] at hrun
  unfold cellEdits
  rw [hfuel]
  refine (congrArg allEdits hrun).trans ?_
  cases hd : view.dbcsAttr with
  | leading =>
    by_cases hlast : x + 1 = width
    · rw [run_done (.inr (by simp [fillText, edit, OutputCellIterator.ofCells, hd, hlast]))]
      simp [fillText, edit, allEdits, oneCellEdits, wrapEdits, hd, hlast, OutputCellIterator.ofCells]
    · rw [run_done (.inl (by
        simp [fillText, edit, next, OutputCellIterator.ofCells, hd, hlast,
          OutputCellIterator.advance, OutputCellIterator.isValid]))]
      simp [fillText, edit, next, allEdits, oneCellEdits, wrapEdits, hd, hlast, OutputCellIterator.ofCells]
  | _ =>
    rw [run_done (.inl (by
      simp [fillText, edit, next, OutputCellIterator.ofCells, hd, OutputCellIterator.advance,
        OutputCellIterator.isValid]))]
    simp [fillText, edit, next, allEdits, oneCellEdits, wrapEdits, hd, OutputCellIterator.ofCells]

/-! ## The frame -/

theorem foldl_oneCellEdits {row : TextRow} (h : row.line.Widths (k + 1)) (hk : view.dbcsAttr ≠ .single → 1 ≤ k) :
    let row' := (oneCellEdits view x width ++ [RowEdit.replaceAttr x (x + 1) view.textAttr]).foldl RowEdit.edit row
    row'.line.Widths (k + 1) ∧ Blocks.width row'.line = Blocks.width row.line ∧
      ∀ x', x' + 2 * k < x ∨ x + 2 * k < x' → row'.cellAt x' = row.cellAt x' := by
  -- Every case puts one glyph of at most two columns, and the attribute, over the column.
  have hput : ∀ (b : Int) (columns : Nat) (chars : List Wchar) (row' : TextRow), 0 ≤ b → columns ≤ k + 1 →
      row'.line = row.line.put b columns chars → (∀ x', x' ≠ x → row'.attr x' = row.attr x') →
      (∀ x' : Nat, x' + 2 * k < x ∨ x + 2 * k < x' → x' + (k + 1) ≤ b ∨ b + columns + (k + 1) ≤ x' + 1) →
      row'.line.Widths (k + 1) ∧ Blocks.width row'.line = Blocks.width row.line ∧
        ∀ x', x' + 2 * k < x ∨ x + 2 * k < x' → row'.cellAt x' = row.cellAt x' := by
    intro b columns chars row' hb hcolumns hline hattr hfar
    refine ⟨hline ▸ h.put hb hcolumns, hline ▸ row.line.width_put hb columns chars,
      fun x' hx' => TextRow.cellAt_congr ?_ (hattr x' (by omega))⟩
    rw [hline]
    exact h.cells_put hb (by exact_mod_cast hfar x' hx')
  have hattr : ∀ x', x' ≠ x → (if x ≤ x' ∧ x' < x + 1 then view.textAttr else row.attr x') = row.attr x' :=
    fun x' hx' => if_neg (by omega)
  unfold oneCellEdits
  cases hd : view.dbcsAttr with
  | single => exact hput x 1 _ _ (by omega) (by omega) rfl hattr (by omega)
  | leading =>
    have hone := hk (by simp [hd])
    dsimp only
    split_ifs
    · exact hput x 1 _ _ (by omega) (by omega) rfl hattr (by omega)
    · exact hput x 2 _ _ (by omega) (by omega) rfl hattr (by omega)
  | trailing =>
    have hone := hk (by simp [hd])
    dsimp only
    split_ifs
    · exact hput x 1 _ _ (by omega) (by omega) rfl hattr (by omega)
    · exact hput (x - 1) 2 _ _ (by omega) (by omega) rfl hattr (by omega)

/-- Glyphs take `k` columns at most; rows are as wide as the buffer. -/
def RowsOf (page : Page) (k : Nat) (rows : Int → TextRow) : Prop :=
  ∀ y, (rows y).line.Widths k ∧ (Blocks.width (rows y).line : Int) = page.bufferSize.width

theorem RowsOf.exists_cell (h : RowsOf page k rows) {pos : Point} (hpos : page.bufferSize.IsInBounds pos) :
    ∃ view, page.getCellDataAt rows pos = some view := by
  have hlt : pos.x.toNat < (rows pos.y).line.cells.length := by
    have hwidth := (h pos.y).2
    obtain ⟨hx0, hx, -⟩ := hpos
    rw [Line.length_cells]
    omega
  rw [Page.getCellDataAt, if_pos hpos, TextRow.cellAt, List.getElem?_eq_getElem hlt]
  exact ⟨_, rfl⟩

theorem getCellDataAt_isCellOf {pos : Point} (h : page.getCellDataAt rows pos = some view) :
    IsCellOf (rows pos.y).line view := by
  unfold Page.getCellDataAt at h
  split_ifs at h
  exact TextRow.isCellOf h

theorem writeLine_frame (h : RowsOf page (k + 1) rows) {target : Point} (hstored : view.textAttrBehavior = .stored)
    (hk : view.dbcsAttr ≠ .single → 1 ≤ k) :
    let rows' := page.writeLine fullWidth (.ofCells view []) target rows
    RowsOf page (k + 1) rows' ∧ ∀ pos, page.getCellDataAt rows' pos ≠ page.getCellDataAt rows pos →
      pos.y = target.y ∧ target.x - 2 * k ≤ pos.x ∧ pos.x ≤ target.x + 2 * k := by
  unfold Page.writeLine
  split_ifs with hin
  · obtain ⟨hx0, hx, -⟩ := hin
    have hwidth := (h target.y).2
    rw [← hwidth, cellEdits_ofCell hstored (by omega)]
    obtain ⟨hwidths, hkeeps, hsame⟩ :=
      @foldl_oneCellEdits view target.x.toNat (Blocks.width (rows target.y).line) k _ (h target.y).1 hk
    refine ⟨fun y => ?_, fun pos hne => ?_⟩
    · by_cases hy : y = target.y
      · rw [hy, Function.update_self]
        exact ⟨hwidths, (congrArg Int.ofNat hkeeps).trans hwidth⟩
      · rw [Function.update_of_ne hy]
        exact h y
    · by_contra hfar
      apply hne
      unfold Page.getCellDataAt
      split_ifs with hpos
      · by_cases hy : pos.y = target.y
        · rw [hy, Function.update_self]
          obtain ⟨hpos0, -⟩ := hpos
          exact hsame _ (by omega)
        · rw [Function.update_of_ne hy]
      · rfl
  · exact ⟨h, fun pos hne => absurd rfl hne⟩

def Near (vp : Types.Viewport) (n : Int) (pos : Point) : Prop :=
  vp.left - n ≤ pos.x ∧ pos.x ≤ vp.rightInclusive + n ∧ vp.top ≤ pos.y ∧ pos.y ≤ vp.bottomInclusive

def ChangesNear (page : Page) (vp : Types.Viewport) (n : Int) (rows rows' : Int → TextRow) : Prop :=
  ∀ pos, page.getCellDataAt rows' pos ≠ page.getCellDataAt rows pos → Near vp n pos

theorem ChangesNear.trans {vp : Types.Viewport} {n : Int} {rows' rows'' : Int → TextRow}
    (h : ChangesNear page vp n rows rows')
    (h' : ChangesNear page vp n rows' rows'') : ChangesNear page vp n rows rows'' := by
  intro pos hne
  by_cases hsame : page.getCellDataAt rows' pos = page.getCellDataAt rows pos
  · exact h' pos (hsame ▸ hne)
  · exact h pos hsame

structure Copying.Framed (page : Page) (srcView dstView : Types.Viewport) (dir : WalkDir) (k : Nat)
    (rows : Int → TextRow) (i : Nat) (s : Copying) : Prop where
  widths : RowsOf page (k + 1) s.rows
  stored : s.next.textAttrBehavior = .stored
  wide : s.next.dbcsAttr ≠ .single → 1 ≤ k
  srcPos : s.srcPos = srcView.walkStop dir i
  dstPos : s.dstPos = dstView.walkStop dir i
  frame : ChangesNear page dstView (2 * k) rows s.rows

theorem contains_walkStop {vp : Types.Viewport} (hvalid : vp.isValid) (dir : WalkDir) (i : Nat) :
    vp.Contains (vp.walkStop dir i) := by
  refine (mem_walk hvalid dir).1 (List.mem_map.2 ⟨min i (vp.area - 1), List.mem_range.2 ?_, rfl⟩)
  have := hvalid.area_pos
  omega

section

variable {src dst : Types.Viewport} (hsrc : src.isValid) (hdst : dst.isValid)
  (hsize : dst.dimensions = src.dimensions)
  (hsrcIn : ∀ pos, src.Contains pos → page.bufferSize.IsInBounds pos)

include hsrc hdst hsize in
theorem Copying.turn_eq {dir : WalkDir} (hdir : determineWalkDirection src dst = dir) {i : Nat} (hi : i < dst.area)
    {s : Copying} (hsrcPos : s.srcPos = src.walkStop dir i) (hdstPos : s.dstPos = dst.walkStop dir i)
    {next : OutputCellView} (hnext : page.getCellDataAt s.rows (src.walkStop dir (i + 1)) = some next) :
    s.turn fullWidth page src dst = some (
      ⟨if page.OnScreen s.rows (src.walkStop dir (i + 1)) then
          page.writeLine fullWidth (.ofCells s.next []) (dst.walkStop dir i) s.rows
        else s.rows, next, src.walkStop dir (i + 1), dst.walkStop dir (i + 1)⟩, decide (i + 1 < dst.area)) := by
  have hi' : i < src.area := area_eq hsize ▸ hi
  unfold Copying.turn
  dsimp only
  rw [hdir, hsrcPos, hdstPos, walkInBounds_walkStop hsrc dir hi', walkInBounds_walkStop hdst dir hi, hnext]
  rfl

include hsrc hdst hsize hsrcIn

theorem Copying.Framed.turn {dir : WalkDir} (hdir : determineWalkDirection src dst = dir) {i : Nat} (hi : i < dst.area)
    {s : Copying} (hs : s.Framed page src dst dir k rows i) :
    ∃ s' more, s.turn fullWidth page src dst = some (s', more) ∧
      if more = true then i + 1 < dst.area ∧ s'.Framed page src dst dir k rows (i + 1)
      else ChangesNear page dst (2 * k) rows s'.rows := by
  obtain ⟨next, hnext⟩ := hs.widths.exists_cell (hsrcIn _ (contains_walkStop hsrc dir (i + 1)))
  have hcell := getCellDataAt_isCellOf hnext
  obtain ⟨hleft, hright, htop, hbottom⟩ := contains_walkStop hdst dir i
  obtain ⟨hwidths, hframe⟩ := @writeLine_frame fullWidth page s.rows s.next k hs.widths s.dstPos hs.stored hs.wide
  rw [hs.dstPos] at hwidths hframe
  refine ⟨_, _, Copying.turn_eq hsrc hdst hsize hdir hi hs.srcPos hs.dstPos hnext, ?_⟩
  have hrows : ∀ rows', rows' = s.rows ∨
      rows' = page.writeLine fullWidth (.ofCells s.next []) (dst.walkStop dir i) s.rows →
      RowsOf page (k + 1) rows' ∧ ChangesNear page dst (2 * k) rows rows' := by
    rintro rows' (rfl | rfl)
    · exact ⟨hs.widths, hs.frame⟩
    · refine ⟨hwidths, hs.frame.trans fun pos hne => ?_⟩
      obtain ⟨hy, hx, hx'⟩ := hframe pos hne
      unfold rightExclusive at hright
      unfold bottomExclusive at hbottom
      exact ⟨by omega, by omega, by omega, by omega⟩
  obtain ⟨hw, hf⟩ := hrows _ (ite_eq_or_eq (page.OnScreen s.rows (src.walkStop dir (i + 1))) _ _).symm
  split
  · next hmore => exact ⟨of_decide_eq_true hmore, hw, hcell.stored, hcell.wide (hs.widths _).1, rfl, rfl, hf⟩
  · exact hf

theorem copyCells_frame (h : RowsOf page (k + 1) rows) :
    ∃ rows', copyCells fullWidth page src dst rows = some rows' ∧ ChangesNear page dst (2 * k) rows rows' := by
  have hpos := hdst.area_pos
  unfold copyCells
  dsimp only
  rw [← walkPos_zero, ← walkPos_zero, ← walkStop_eq _ hpos, ← walkStop_eq _ hsrc.area_pos]
  obtain ⟨next, hnext⟩ := h.exists_cell (hsrcIn _ (contains_walkStop hsrc (determineWalkDirection src dst) 0))
  have hcell := getCellDataAt_isCellOf hnext
  rw [hnext]
  have hstart : Copying.Framed page src dst (determineWalkDirection src dst) k rows 0
      ⟨rows, next, src.walkStop _ 0, dst.walkStop _ 0⟩ :=
    ⟨h, hcell.stored, hcell.wide (h _).1, rfl, rfl, fun pos hne => absurd rfl hne⟩
  obtain ⟨s', hs', hframe⟩ := tryWhile_rule (Q := fun s : Copying => ChangesNear page dst (2 * k) rows s.rows)
    (fun i hi s (hs : s.Framed page src dst (determineWalkDirection src dst) k rows i) =>
      Copying.Framed.turn hsrc hdst hsize hsrcIn rfl hi hs) hpos
    hstart (Nat.le_add_left _ _)
  exact ⟨s'.rows, congrArg (Option.map Copying.rows) hs', hframe⟩

end

theorem Page.yMaximum_bounds (page : Page) :
    0 ≤ page.yOffset ∧ 1 ≤ page.yMaximum ∧ page.yMaximum ≤ page.viewport.bottom - page.viewport.top := by
  have htop := page.top_lt_bottom
  have hmargins := page.margins_nonneg
  unfold Page.yOffset Page.yMaximum Page.getVerticalMargins
  dsimp only
  split_ifs <;> omega

theorem dimensions_fromDimensions (origin origin' : Point) (size : Size) :
    (fromDimensions origin size).dimensions = (fromDimensions origin' size).dimensions := by
  simp only [dimensions, width, Types.Viewport.height, fromDimensions, rightExclusive, bottomExclusive,
    Types.Size.mk.injEq]
  omega

/-- The cells to copy are in the buffer, also if there are none and the destination was moved. -/
theorem Page.source_view {top left bottom right dstTop left' : Int} (htop : 1 ≤ top) (hleft : 1 ≤ left)
    (hbottom : dstTop + (page.calculateRectArea top left bottom right).size.height - 1 ≠ 0)
    (hright : left' + (page.calculateRectArea top left bottom right).size.width - 1 ≠ 0)
    (hdst : (page.destination (page.calculateRectArea top left bottom right) dstTop left').IsNonempty) :
    let src := page.calculateRectArea top left bottom right
    let srcView := fromDimensions src.origin (page.destination src dstTop left').size
    srcView.isValid ∧ ∀ pos, srcView.Contains pos → page.bufferSize.IsInBounds pos := by
  obtain ⟨hoffset, hmaximum, hheight⟩ := page.yMaximum_bounds
  have hwidth := page.width_pos
  have hpage := page.bottom_le
  have htop' := page.top_nonneg
  obtain ⟨hx, hx', hx''⟩ : 0 ≤ (page.calculateRectArea top left bottom right).left ∧
      (page.calculateRectArea top left bottom right).left < page.bufferSize.width ∧
      (page.calculateRectArea top left bottom right).right ≤ page.bufferSize.width := by
    unfold Page.calculateRectArea
    dsimp only
    omega
  obtain ⟨hy, hy', hy''⟩ : 0 ≤ (page.calculateRectArea top left bottom right).top ∧
      (page.calculateRectArea top left bottom right).top < page.bufferSize.height ∧
      (page.calculateRectArea top left bottom right).bottom ≤ page.bufferSize.height := by
    unfold Page.calculateRectArea
    dsimp only
    omega
  generalize page.calculateRectArea top left bottom right = src at *
  obtain ⟨-, -, hright', hbottom'⟩ := hdst
  simp only [Page.destination, Page.calculateRectArea, if_pos hbottom, if_pos hright] at hright' hbottom' ⊢
  simp only [Rect.size, Rect.origin] at *
  refine ⟨⟨hx, hy, ?_, ?_⟩, ?_⟩
  · simp only [fromDimensions]
    omega
  · simp only [fromDimensions]
    omega
  · rintro pos ⟨hleft, hright, htop, hbottom⟩
    simp only [fromDimensions, rightExclusive, bottomExclusive] at hleft hright htop hbottom
    exact ⟨by omega, by omega, by omega, by omega⟩

def Page.corner (page : Page) (y x : Int) : Point :=
  ⟨min x page.bufferSize.width - 1, min (y + page.yOffset) page.yMaximum - 1 + page.viewport.top⟩

/-- Copying changes only the destination and its wide glyphs. -/
theorem copyRectangularArea_frame (fullWidth : List Wchar → Bool) (page : Page)
    (top left bottom right dstTop left' : Int)
    (h : RowsOf page (k + 1) rows) (htop : 1 ≤ top) (hleft : 1 ≤ left)
    (hbottom : dstTop + (page.calculateRectArea top left bottom right).size.height - 1 ≠ 0)
    (hright : left' + (page.calculateRectArea top left bottom right).size.width - 1 ≠ 0) :
    let src := page.calculateRectArea top left bottom right
    let first := page.corner dstTop left'
    let last := page.corner (dstTop + src.size.height - 1) (left' + src.size.width - 1)
    ∃ rows', copyRectangularArea fullWidth page top left bottom right dstTop left' rows = some rows' ∧
      ∀ pos, page.getCellDataAt rows' pos ≠ page.getCellDataAt rows pos →
        first.x ≤ last.x ∧ first.y ≤ last.y ∧ first.x - 2 * k ≤ pos.x ∧ pos.x ≤ last.x + 2 * k ∧
          first.y ≤ pos.y ∧ pos.y ≤ last.y := by
  have hsource := @Page.source_view page top left bottom right dstTop left' htop hleft hbottom hright
  unfold copyRectangularArea
  dsimp only
  generalize page.calculateRectArea top left bottom right = src at hbottom hright hsource ⊢
  have hdst : page.destination src dstTop left' = ⟨(page.corner dstTop left').x, (page.corner dstTop left').y,
        (page.corner (dstTop + src.size.height - 1) (left' + src.size.width - 1)).x + 1,
        (page.corner (dstTop + src.size.height - 1) (left' + src.size.width - 1)).y + 1⟩ := by
    simp only [Page.destination, Page.calculateRectArea, if_pos hbottom, if_pos hright, Page.corner]
  split_ifs with hcopy
  · obtain ⟨hvalid, hsrcIn⟩ := hsource hcopy.1
    obtain ⟨rows', hrows', hframe⟩ := @copyCells_frame fullWidth _ _ _ _ _ hvalid (isValid_of_isNonempty hcopy.1)
      (dimensions_fromDimensions _ _ _) hsrcIn h
    refine ⟨rows', hrows', fun pos hne => ?_⟩
    obtain ⟨-, -, hx, hy⟩ := hcopy.1
    have hnear := hframe pos hne
    simp only [hdst, Near, fromDimensions, Rect.origin, Rect.size] at hnear hx hy ⊢
    omega
  · exact ⟨rows, rfl, fun pos hne => absurd rfl hne⟩

end

def smallPage : Page where
  viewport := ⟨0, 0, 4, 2⟩
  bufferSize := ⟨4, 2⟩
  width_pos := by decide
  width_le := by decide
  top_nonneg := by decide
  top_lt_bottom := by decide
  bottom_le := by decide
  margins_nonneg := by decide

def smallRows (lineRendition : LineRendition) (y : Int) : TextRow where
  line := (if y = 0 then [0x30, 0x31, 0x32, 0x33] else [0x61, 0x62, 0x63, 0x64]).map fun wch : Wchar =>
    ⟨⟨[wch], List.cons_ne_nil _ _⟩, 1, Nat.one_pos⟩
  lineRendition := if y = 0 then lineRendition else .singleWidth

theorem narrow_smallRows (lineRendition : LineRendition) (y : Int) :
    (smallRows lineRendition y).line.Narrow ∧ Blocks.width (smallRows lineRendition y).line = 4 := by
  refine ⟨fun glyph hglyph => ?_, ?_⟩
  · obtain ⟨wch, -, rfl⟩ := List.mem_map.1 hglyph
    exact ⟨rfl, Nat.le_succ 1⟩
  · by_cases hy : y = 0 <;> simp [smallRows, hy]

theorem copyRectangularArea_frame_digits :
    ∃ rows', copyRectangularArea (fun _ => false) smallPage 1 1 1 2 2 2 (smallRows .singleWidth) = some rows' ∧
      smallPage.getCellDataAt rows' ⟨0, 1⟩ = smallPage.getCellDataAt (smallRows .singleWidth) ⟨0, 1⟩ := by
  obtain ⟨rows', hrows', hframe⟩ := copyRectangularArea_frame (k := 0) (fun _ => false) smallPage 1 1 1 2 2 2
    (fun y => ⟨fun glyph hglyph => Nat.le_of_eq ((narrow_smallRows .singleWidth y).1 glyph hglyph).1,
      congrArg Int.ofNat (narrow_smallRows .singleWidth y).2⟩) (by decide) (by decide) (by decide) (by decide)
  refine ⟨rows', hrows', ?_⟩
  by_contra hne
  exact absurd (hframe _ hne).2.2.1 (by decide)

/-- A destination behind the last column is moved to it. -/
theorem copyRectangularArea_beyond_page :
    ∃ (page : Page) (rows rows' : Int → TextRow) (left' : Int) (pos : Point), page.bufferSize.width < left' ∧
      copyRectangularArea (fun _ => false) page 1 1 1 1 1 left' rows = some rows' ∧
        page.getCellDataAt rows' pos ≠ page.getCellDataAt rows pos :=
  ⟨smallPage, smallRows .singleWidth, _, 5, ⟨3, 0⟩, by decide, rfl, by decide⟩

/-! ## The cells on the screen -/

/-- Every glyph takes one column; rows are as wide as the buffer. -/
def Page.Narrow (page : Page) (rows : Int → TextRow) : Prop :=
  ∀ y, (rows y).line.Narrow ∧ (Blocks.width (rows y).line : Int) = page.bufferSize.width

section

variable {fullWidth : List Wchar → Bool} {page : Page} {rows : Int → TextRow} {view : OutputCellView}

theorem Page.Narrow.exists_cell (h : page.Narrow rows) {pos : Point} (hpos : page.bufferSize.IsInBounds pos) :
    ∃ view, page.getCellDataAt rows pos = some view ∧ view.dbcsAttr = .single ∧ view.textAttrBehavior = .stored ∧
      view.chars ≠ [] ∧ view.chars.length ≤ 2 := by
  obtain ⟨hnarrow, hwidth⟩ := h pos.y
  have hlt : pos.x.toNat < (rows pos.y).line.length := by
    rw [hnarrow.width_eq] at hwidth
    obtain ⟨hx0, hx, -⟩ := hpos
    omega
  rw [Page.getCellDataAt, if_pos hpos, TextRow.cellAt, hnarrow.cells_eq, List.getElem?_map,
    List.getElem?_eq_getElem hlt]
  exact ⟨_, rfl, rfl, rfl, (rows pos.y).line[pos.x.toNat].value.2, (hnarrow _ (List.getElem_mem hlt)).2⟩

theorem Page.Narrow.writeLine (h : page.Narrow rows) {target : Point} (htarget : page.bufferSize.IsInBounds target)
    (hsingle : view.dbcsAttr = .single) (hstored : view.textAttrBehavior = .stored) (hne : view.chars ≠ [])
    (hlength : view.chars.length ≤ 2) :
    let rows' := page.writeLine fullWidth (.ofCells view []) target rows
    page.Narrow rows' ∧ page.getLineWidth rows' = page.getLineWidth rows ∧
      page.getCellDataAt rows' = Function.update (page.getCellDataAt rows) target (some view) := by
  obtain ⟨hnarrow, hwidth⟩ := h target.y
  have hle := page.width_le
  have htarget' := htarget
  obtain ⟨hx0, hx, -⟩ := htarget'
  obtain ⟨hput, hcells⟩ := hnarrow.put (by omega) (show target.x.toNat < _ by omega) hne hlength
  have hwidth' : (Blocks.width ((rows target.y).line.put target.x.toNat 1 view.chars) : Int) =
    page.bufferSize.width := by
    rw [← hwidth, ← Line.length_cells, hcells, List.length_set, Line.length_cells]
  obtain ⟨row', hrow', hline, hattr, hrendition⟩ : ∃ row' : TextRow,
      page.writeLine fullWidth (.ofCells view []) target rows = Function.update rows target.y row' ∧
      row'.line = (rows target.y).line.put target.x.toNat 1 view.chars ∧
      (∀ x, row'.attr x = if target.x.toNat ≤ x ∧ x < target.x.toNat + 1 then view.textAttr else
        (rows target.y).attr x) ∧
      row'.lineRendition = (rows target.y).lineRendition := by
    rw [Page.writeLine, if_pos htarget, ← hwidth, cellEdits_ofCell hstored (by omega), oneCellEdits, hsingle]
    exact ⟨_, rfl, rfl, fun x => rfl, rfl⟩
  rw [hrow']
  refine ⟨fun y => ?_, funext fun y => ?_, funext fun pos => ?_⟩
  · by_cases hy : y = target.y
    · subst hy
      rw [Function.update_self, hline]
      exact ⟨hput, hwidth'⟩
    · rw [Function.update_of_ne hy]
      exact h y
  · by_cases hy : y = target.y
    · subst hy
      rw [Page.getLineWidth, Function.update_self, hrendition, Page.getLineWidth]
    · rw [Page.getLineWidth, Function.update_of_ne hy, Page.getLineWidth]
  · by_cases hpos : page.bufferSize.IsInBounds pos
    · rw [Page.getCellDataAt, if_pos hpos]
      by_cases hy : pos.y = target.y
      · rw [hy, Function.update_self, TextRow.cellAt, hline, hcells, hattr]
        by_cases hx' : pos.x = target.x
        · obtain rfl : pos = target := Point.ext hx' hy
          rw [Function.update_self, List.getElem?_set_self (by rw [Line.length_cells]; omega), if_pos (by omega),
            Option.map_some, ← hsingle, ← hstored]
        · have hcolumn : target.x.toNat ≠ pos.x.toNat := by
            have := hpos.1
            omega
          rw [Function.update_of_ne (fun heq => hx' (congrArg Types.Point.x heq)), List.getElem?_set_ne hcolumn,
            if_neg (by omega), Page.getCellDataAt, if_pos hpos, hy, TextRow.cellAt]
      · rw [Function.update_of_ne hy, Function.update_of_ne
          (fun heq => hy (congrArg Types.Point.y heq)), Page.getCellDataAt, if_pos hpos]
    · rw [Page.getCellDataAt, if_neg hpos, Function.update_of_ne
        (fun heq : pos = target => hpos (heq ▸ htarget)), Page.getCellDataAt, if_neg hpos]

def onScreenMoves (page : Page) (rows : Int → TextRow) (srcView dstView : Types.Viewport)
    (i : Nat) : List (Point × Point) :=
  let dir := determineWalkDirection srcView dstView
  ((List.range i).filter fun j => page.OnScreen rows (srcView.walkStop dir (j + 1))).map fun j =>
    (srcView.walkPos dir j, dstView.walkPos dir j)

structure Copying.Copies (page : Page) (srcView dstView : Types.Viewport) (rows : Int → TextRow)
    (i : Nat) (s : Copying) : Prop where
  narrow : page.Narrow s.rows
  lineWidth : page.getLineWidth s.rows = page.getLineWidth rows
  next : page.getCellDataAt rows (srcView.walkStop (determineWalkDirection srcView dstView) i) = some s.next
  srcPos : s.srcPos = srcView.walkStop (determineWalkDirection srcView dstView) i
  dstPos : s.dstPos = dstView.walkStop (determineWalkDirection srcView dstView) i
  cells : page.getCellDataAt s.rows = copyEach (onScreenMoves page rows srcView dstView i) (page.getCellDataAt rows)

section

variable {src dst : Types.Viewport} (hsrc : src.isValid) (hdst : dst.isValid)
  (hsize : dst.dimensions = src.dimensions)
  (hsrcIn : ∀ pos, src.Contains pos → page.bufferSize.IsInBounds pos)
  (hdstIn : ∀ pos, dst.Contains pos → page.bufferSize.IsInBounds pos)

include hsize in
/-- No earlier turn has written to the cell that is read ahead. -/
theorem copyEach_onScreenMoves_source {i j : Nat} (hij : i ≤ j) :
    copyEach (onScreenMoves page rows src dst i) (page.getCellDataAt rows)
      (src.walkPos (determineWalkDirection src dst) j) =
    page.getCellDataAt rows (src.walkPos (determineWalkDirection src dst) j) := by
  apply copyEach_frame
  intro move hmove
  obtain ⟨n, hn, rfl⟩ := List.mem_map.1 hmove
  have hlt : n < i := List.mem_range.1 (List.mem_filter.1 hn).1
  exact walkPos_target_ne hsize (by omega)

include hsrc hdst hsize hsrcIn hdstIn in
theorem Copying.Copies.turn {i : Nat} (hi : i < dst.area) {s : Copying} (hs : s.Copies page src dst rows i) :
    ∃ s', s.turn fullWidth page src dst = some (s', decide (i + 1 < dst.area)) ∧
      s'.Copies page src dst rows (i + 1) := by
  set dir := determineWalkDirection src dst with hdir
  have hi' : i < src.area := area_eq hsize ▸ hi
  have hread : page.getCellDataAt s.rows (src.walkStop dir (i + 1)) =
      page.getCellDataAt rows (src.walkStop dir (i + 1)) := by
    rw [hs.cells]
    exact copyEach_onScreenMoves_source hsize (by omega)
  obtain ⟨next, hnext, -⟩ := hs.narrow.exists_cell (hsrcIn _ (contains_walkStop hsrc dir (i + 1)))
  obtain ⟨view, hview, hsingle, hstored, hne, hlength⟩ :=
    hs.narrow.exists_cell (hsrcIn _ (contains_walkStop hsrc dir i))
  have hview' : view = s.next := by
    rw [hs.cells, walkStop_eq dir hi', copyEach_onScreenMoves_source hsize (Nat.le_refl i),
      ← walkStop_eq dir hi', hs.next] at hview
    exact (Option.some.inj hview).symm
  subst hview'
  have hmoves : onScreenMoves page rows src dst (i + 1) = onScreenMoves page rows src dst i ++
      if page.OnScreen rows (src.walkStop dir (i + 1)) then [(src.walkPos dir i, dst.walkPos dir i)] else [] := by
    simp only [onScreenMoves, List.range_succ, List.filter_append, List.map_append, ← hdir]
    congr 1
    split_ifs with hon <;> simp [hon]
  refine ⟨_, Copying.turn_eq hsrc hdst hsize rfl hi hs.srcPos hs.dstPos hnext, ?_⟩
  have hon : page.OnScreen s.rows (src.walkStop dir (i + 1)) ↔ page.OnScreen rows (src.walkStop dir (i + 1)) := by
    rw [Page.OnScreen, hs.lineWidth]
    exact Iff.rfl
  simp only [← hdir, hon]
  by_cases hscreen : page.OnScreen rows (src.walkStop dir (i + 1))
  · rw [if_pos hscreen]
    obtain ⟨hnarrow, hwidth, hcells⟩ := @Page.Narrow.writeLine fullWidth page s.rows s.next hs.narrow _
      (hdstIn _ (contains_walkStop hdst dir i)) hsingle hstored hne hlength
    refine ⟨hnarrow, hwidth.trans hs.lineWidth, hread ▸ hnext, rfl, rfl, ?_⟩
    rw [hcells, hmoves, if_pos hscreen, hs.cells, copyEach, copyEach, List.foldl_append, walkStop_eq dir hi]
    congr 1
    rw [← hview, hs.cells, walkStop_eq dir hi']
    rfl
  · rw [if_neg hscreen]
    refine ⟨hs.narrow, hs.lineWidth, hread ▸ hnext, rfl, rfl, ?_⟩
    rw [hmoves, if_neg hscreen, List.append_nil]
    exact hs.cells

include hsrc hdst hsize hsrcIn hdstIn in
theorem copyCells_eq (h : page.Narrow rows) : ∃ rows', copyCells fullWidth page src dst rows = some rows' ∧
      page.getCellDataAt rows' = copyEach (onScreenMoves page rows src dst dst.area) (page.getCellDataAt rows) := by
  have hpos := hdst.area_pos
  unfold copyCells
  dsimp only
  rw [← walkPos_zero, ← walkPos_zero, ← walkStop_eq _ hpos, ← walkStop_eq _ hsrc.area_pos]
  obtain ⟨next, hnext, -⟩ := h.exists_cell (hsrcIn _ (contains_walkStop hsrc _ 0))
  rw [hnext]
  have hstart : Copying.Copies page src dst rows 0
      ⟨rows, next, src.walkStop _ 0, dst.walkStop _ 0⟩ := ⟨h, rfl, hnext, rfl, rfl, rfl⟩
  have hturn : ∀ i < dst.area, ∀ s, Copying.Copies page src dst rows i s → ∃ s' more,
      s.turn fullWidth page src dst = some (s', more) ∧
        if more = true then i + 1 < dst.area ∧ s'.Copies page src dst rows (i + 1)
        else s'.Copies page src dst rows dst.area := by
    intro i hi s hs
    obtain ⟨s', hs', hcopies⟩ := @Copying.Copies.turn fullWidth page rows src dst hsrc hdst hsize
      hsrcIn hdstIn i hi s hs
    refine ⟨s', _, hs', ?_⟩
    split
    · next hmore => exact ⟨of_decide_eq_true hmore, hcopies⟩
    · next hend => exact (show dst.area = i + 1 by simp at hend; omega) ▸ hcopies
  obtain ⟨s', hs', hcopies⟩ := tryWhile_rule hturn hpos hstart (Nat.le_add_left _ _)
  exact ⟨s'.rows, congrArg (Option.map Copying.rows) hs', hcopies.cells⟩

end

end

/-- The destination has what was on the screen; the rest is unchanged. -/
def CopiesOnScreen (page : Page) (srcView dstView : Types.Viewport) (rows rows' : Int → TextRow) : Prop :=
  ∀ pos, dstView.Contains pos →
    let old : Point := ⟨pos.x + (srcView.left - dstView.left), pos.y + (srcView.top - dstView.top)⟩
    page.getCellDataAt rows' pos =
      if page.OnScreen rows old then page.getCellDataAt rows old else page.getCellDataAt rows pos

/-- A source cell is on the screen exactly if the next one is. -/
def AlikeOnScreen (page : Page) (srcView dstView : Types.Viewport) (rows : Int → TextRow) : Prop :=
  let dir := determineWalkDirection srcView dstView
  ∀ i < dstView.area, (page.OnScreen rows (srcView.walkStop dir i) ↔
    page.OnScreen rows (srcView.walkStop dir (i + 1))) ∨
      page.getCellDataAt rows (srcView.walkStop dir i) = page.getCellDataAt rows (dstView.walkStop dir i)

section

variable {page : Page} {rows rows' : Int → TextRow} {src dst : Types.Viewport}

theorem copiesOnScreen_iff (hdst : dst.isValid) (hsize : dst.dimensions = src.dimensions)
    (hcells : page.getCellDataAt rows' = copyEach (onScreenMoves page rows src dst dst.area)
      (page.getCellDataAt rows)) :
    CopiesOnScreen page src dst rows rows' ↔ AlikeOnScreen page src dst rows := by
  set dir := determineWalkDirection src dst with hdir
  have hsafe : Safe (onScreenMoves page rows src dst dst.area) := by
    refine List.Pairwise.map _ (fun i j hij => ?_) (List.Pairwise.filter _ List.pairwise_lt_range)
    exact ⟨walkPos_target_ne hsize hij, walkPos_ne _ hij⟩
  have hwritten : ∀ i < dst.area, page.getCellDataAt rows' (dst.walkPos dir i) =
      if page.OnScreen rows (src.walkStop dir (i + 1)) then page.getCellDataAt rows (src.walkPos dir i)
      else page.getCellDataAt rows (dst.walkPos dir i) := by
    intro i hi
    rw [hcells]
    split_ifs with hon
    · exact copyEach_moved hsafe _ (List.mem_map.2 ⟨i, by simpa [hi] using hon, rfl⟩)
    · refine copyEach_frame _ _ fun move hmove heq => hon ?_
      obtain ⟨j, hj, rfl⟩ := List.mem_map.1 hmove
      obtain rfl : j = i := by
        by_contra hne
        rcases Nat.lt_or_gt_of_ne hne with hlt | hlt
        · exact walkPos_ne dir hlt heq
        · exact walkPos_ne dir hlt heq.symm
      simpa [hi] using hj
  have hcell : ∀ i < dst.area, (page.getCellDataAt rows' (dst.walkPos dir i) =
        if page.OnScreen rows (src.walkPos dir i) then page.getCellDataAt rows (src.walkPos dir i)
        else page.getCellDataAt rows (dst.walkPos dir i)) ↔
      (page.OnScreen rows (src.walkPos dir i) ↔ page.OnScreen rows (src.walkStop dir (i + 1))) ∨
        page.getCellDataAt rows (src.walkPos dir i) = page.getCellDataAt rows (dst.walkPos dir i) := by
    intro i hi
    rw [hwritten i hi]
    by_cases h1 : page.OnScreen rows (src.walkPos dir i) <;>
      by_cases h2 : page.OnScreen rows (src.walkStop dir (i + 1)) <;> simp [h1, h2, eq_comm]
  have hwalk := fun i hi => @walkStop_eq dst dir i hi
  have hwalk' := fun i (hi : i < dst.area) => @walkStop_eq src dir i (area_eq hsize ▸ hi)
  constructor
  · intro hcopies i hi
    have hpos := hcopies _ ((mem_walk hdst dir).1 (List.mem_map.2 ⟨i, List.mem_range.2 hi, rfl⟩))
    rw [← walkPos_shift hsize] at hpos
    rw [hwalk i hi, hwalk' i hi]
    exact (hcell i hi).1 hpos
  · intro halike pos hpos
    obtain ⟨i, hi, rfl⟩ := List.mem_map.1 ((mem_walk hdst dir).2 hpos)
    have hi' := List.mem_range.1 hi
    have hi'' := halike i hi'
    rw [hwalk i hi', hwalk' i hi'] at hi''
    rw [← walkPos_shift hsize]
    exact (hcell i hi').2 hi''

theorem Page.isInBounds_calculateRectArea {top left bottom right : Int} (htop : 1 ≤ top)
    (hleft : 1 ≤ left) {pos : Point}
    (hx : (page.calculateRectArea top left bottom right).left ≤ pos.x)
    (hx' : pos.x < (page.calculateRectArea top left bottom right).right)
    (hy : (page.calculateRectArea top left bottom right).top ≤ pos.y)
    (hy' : pos.y < (page.calculateRectArea top left bottom right).bottom) : page.bufferSize.IsInBounds pos := by
  obtain ⟨hoffset, hmaximum, hheight⟩ := page.yMaximum_bounds
  have hwidth := page.width_pos
  have hpage := page.bottom_le
  have htop' := page.top_nonneg
  unfold Page.calculateRectArea at hx hx' hy hy'
  dsimp only at hx hx' hy hy'
  exact ⟨by omega, by omega, by omega, by omega⟩

theorem Page.destination_isNonempty {src : Rect} (hsrc : src.IsNonempty) {dstTop left' : Int} (hdstTop : 1 ≤ dstTop)
    (hdstLeft : 1 ≤ left') : (page.destination src dstTop left').IsNonempty := by
  obtain ⟨-, -, hx, hy⟩ := hsrc
  obtain ⟨hoffset, hmaximum, hheight⟩ := page.yMaximum_bounds
  have hwidth := page.width_pos
  have htop := page.top_nonneg
  have hbottom : dstTop + src.size.height - 1 ≠ 0 := by
    simp only [Rect.size]
    omega
  simp only [Page.destination, Page.calculateRectArea, if_pos hbottom, Rect.IsNonempty]
  unfold Rect.size
  dsimp only
  omega

/-- A copy is right just if no source cell is told on the screen by the next one. -/
theorem copyRectangularArea_copies_iff (fullWidth : List Wchar → Bool) (h : page.Narrow rows)
    {top left bottom right dstTop left' : Int} (htop : 1 ≤ top) (hleft : 1 ≤ left) (hdstTop : 1 ≤ dstTop)
    (hdstLeft : 1 ≤ left') (hsrc : (page.calculateRectArea top left bottom right).IsNonempty) :
    let src := page.calculateRectArea top left bottom right
    let dst := page.destination src dstTop left'
    let srcView := fromDimensions src.origin dst.size
    let dstView := fromDimensions dst.origin dst.size
    ∃ rows', copyRectangularArea fullWidth page top left bottom right dstTop left' rows = some rows' ∧
      (CopiesOnScreen page srcView dstView rows rows' ↔ AlikeOnScreen page srcView dstView rows) := by
  have hdst := @Page.destination_isNonempty page _ hsrc dstTop left' hdstTop hdstLeft
  obtain ⟨hvalid', hsrcIn'⟩ :=
    Page.source_view htop hleft (by obtain ⟨-, -, hx, hy⟩ := hsrc; simp only [Rect.size]; omega)
    (by obtain ⟨-, -, hx, hy⟩ := hsrc; simp only [Rect.size]; omega) hdst
  unfold copyRectangularArea
  dsimp only
  split_ifs with hcopy
  · have hdstIn' : ∀ pos, (fromDimensions
        (page.destination (page.calculateRectArea top left bottom right) dstTop left').origin
        (page.destination (page.calculateRectArea top left bottom right) dstTop left').size).Contains pos →
        page.bufferSize.IsInBounds pos := by
      rintro pos ⟨hx, hx', hy, hy'⟩
      simp only [fromDimensions, rightExclusive, bottomExclusive, Rect.origin, Rect.size]
        at hx hx' hy hy'
      exact Page.isInBounds_calculateRectArea hdstTop hdstLeft hx (by unfold Page.destination at hx'; omega) hy
        (by unfold Page.destination at hy'; omega)
    have hvalid := isValid_of_isNonempty hdst
    have hsize := dimensions_fromDimensions
      (page.destination (page.calculateRectArea top left bottom right) dstTop left').origin
    obtain ⟨rows', hrows', hcells⟩ := @copyCells_eq fullWidth page rows _ _ hvalid' hvalid (hsize _ _) hsrcIn' hdstIn' h
    exact ⟨rows', hrows', copiesOnScreen_iff hvalid (hsize _ _) hcells⟩
  · obtain horigin := not_ne_iff.1 (not_and.1 hcopy hdst)
    refine ⟨rows, rfl, iff_of_true (fun pos _ => ?_) fun i _ => .inr ?_⟩
    · rw [horigin]
      simp
    · rw [horigin]

end

theorem narrow_smallPage (lineRendition : LineRendition) : smallPage.Narrow (smallRows lineRendition) :=
  fun y => ⟨(narrow_smallRows lineRendition y).1, congrArg Int.ofNat (narrow_smallRows lineRendition y).2⟩

theorem copyRectangularArea_copies_iff_digits :
    ∃ rows', copyRectangularArea (fun _ => false) smallPage 1 1 1 2 2 2 (smallRows .singleWidth) = some rows' ∧
      smallPage.getCellDataAt rows' ⟨1, 1⟩ = smallPage.getCellDataAt (smallRows .singleWidth) ⟨0, 0⟩ := by
  obtain ⟨rows', hrows', hiff⟩ := @copyRectangularArea_copies_iff smallPage (smallRows .singleWidth) (fun _ => false)
    (narrow_smallPage .singleWidth) 1 1 1 2 2 2 (by decide) (by decide) (by decide) (by decide) (by decide)
  exact ⟨rows', hrows', hiff.2 (by unfold AlikeOnScreen; decide) ⟨1, 1⟩ (by decide)⟩

/-- The first of two cells is lost, because the second is off the screen. -/
theorem copyRectangularArea_skips_cell :
    ∃ (page : Page) (rows rows' : Int → TextRow) (old pos : Point), page.Narrow rows ∧
      copyRectangularArea (fun _ => false) page 1 2 1 3 2 1 rows = some rows' ∧ old = ⟨pos.x + 1, pos.y - 1⟩ ∧
        page.OnScreen rows old ∧ page.getCellDataAt rows' pos ≠ page.getCellDataAt rows old :=
  ⟨smallPage, smallRows .doubleWidth, _, ⟨1, 0⟩, ⟨0, 1⟩, narrow_smallPage .doubleWidth,
    rfl, by decide, by decide, by decide⟩

end Terminal.Adapter
