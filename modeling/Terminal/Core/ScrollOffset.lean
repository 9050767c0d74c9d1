import Terminal.Core.SelectionOrder

/-!
# The scroll position

The user looks at the rows `_scrollOffset` above the viewport of the output. The offset stays in
the scrollback, unless the client moves the viewport up under it or the keyboard the selection
below the viewport.
-/

namespace Terminal.Core

open Terminal.Types Viewport Screen

namespace TerminalCore

structure Docked (t : TerminalCore) : Prop where
  main : t.altBuffer = none
  left : t.mutableViewport.left = 0
  right : t.mutableViewport.rightInclusive = t.mainBuffer.size.width - 1
  scrollback : 0 ≤ t.scrollbackLines
  sound : Sound t.mainBuffer t.mutableViewport none
  offset : 0 ≤ t.scrollOffset ∧ t.scrollOffset ≤ t.mutableViewport.top

section

variable {t : TerminalCore}

theorem Docked.activeBuffer_eq (h : t.Docked) : t.activeBuffer = t.mainBuffer := by simp [activeBuffer, h.main]

theorem Docked.inAltBuffer_eq (h : t.Docked) : t.inAltBuffer = false := by simp [inAltBuffer, h.main]

theorem Docked.getMutableViewport_eq (h : t.Docked) : t.getMutableViewport = t.mutableViewport := by
  simp [getMutableViewport, h.inAltBuffer_eq]

theorem Docked.forget (h : t.Docked) : Sound t.activeBuffer t.getMutableViewport none := by
  rw [h.activeBuffer_eq, h.getMutableViewport_eq]
  exact h.sound

theorem Docked.visible (h : t.Docked) : t.visibleEndIndex ≤ t.viewEndIndex ∧
      t.visibleEndIndex - t.visibleStartIndex + 1 = t.mutableViewport.height := by
  have htop_le := h.sound.top_le
  have hoffset := h.offset
  simp only [visibleEndIndex, visibleStartIndex, viewEndIndex, viewStartIndex, h.inAltBuffer_eq, Bool.false_eq_true,
    if_false, height, bottomExclusive]
  omega

/-! ## Output -/

theorem Docked.cycleRow (h : t.Docked) : t.cycleRow.Docked := by
  obtain ⟨hmain, hleft, hright, hback, hsound, hoffset⟩ := h
  have hcycled : t.cycleRow = { t with
        mainBuffer := t.mainBuffer.incrementCircularBuffer
        selection := t.selection.bind SelectionAnchors.cycle } := by
    unfold TerminalCore.cycleRow modifyActiveBuffer
    rw [hmain]
  rw [hcycled]
  exact ⟨hmain, hleft, hright, hback, { hsound with selection := by simp }, hoffset⟩

theorem Docked.setCursor (h : t.Docked) (f : Screen → Screen) (hsize : ∀ buffer, (f buffer).size = buffer.size)
    (hcursor : t.InBuffer (f t.activeBuffer).cursor) : (t.modifyActiveBuffer f).Docked := by
  rw [InBuffer, h.activeBuffer_eq] at hcursor
  obtain ⟨hmain, hleft, hright, hback, hsound, hoffset⟩ := h
  have hset : t.modifyActiveBuffer f = { t with mainBuffer := f t.mainBuffer } := by
    unfold modifyActiveBuffer
    rw [hmain]
  rw [hset]
  refine ⟨hmain, hleft, by rwa [hsize], hback, ⟨?_, hsound.top, hsound.top_le, ?_, by simp⟩, hoffset⟩
  · rwa [getSize, hsize]
  · rw [hsize]
    exact hsound.bottom

theorem clampBetween_le {v lo hi bound : Int} (hlo : lo ≤ bound) (h : hi ≤ bound ∨ v ≤ bound) :
    clampBetween v lo hi ≤ bound := by
  unfold clampBetween
  split_ifs <;> omega

theorem le_clampBetween {v lo hi : Int} (h : lo ≤ hi) : lo ≤ clampBetween v lo hi := by
  unfold clampBetween
  split_ifs <;> omega

theorem followedViewport_spec (position : Point) (hleft : t.mutableViewport.left = 0)
    (htop : 0 ≤ t.mutableViewport.top) : (t.followedViewport position).left = 0 ∧
      (t.followedViewport position).rightInclusive = t.mutableViewport.rightInclusive ∧
      (t.followedViewport position).top = t.mutableViewport.top + t.scrollAmount position ∧
      (t.followedViewport position).bottomInclusive = t.mutableViewport.bottomInclusive + t.scrollAmount position := by
  rw [followedViewport_eq htop]
  unfold scrollAmount
  split_ifs
  · refine ⟨rfl, ?_, ?_, ?_⟩
    all_goals
      simp only [fromDimensions, dimensions, width, rightExclusive, height, bottomExclusive]
      omega
  · omega

theorem followedOffset_spec (position : Point) {newRows : Int}
    (hfits : t.mutableViewport.top + t.scrollAmount position ≤
      t.activeBuffer.getSize.height - t.mutableViewport.height)
    (hlast : newRows ≠ 0 → t.mutableViewport.top + t.scrollAmount position =
      t.activeBuffer.getSize.height - t.mutableViewport.height)
    (hoffset : 0 ≤ t.scrollOffset ∧ t.scrollOffset ≤ t.mutableViewport.top) :
    0 ≤ t.followedOffset position newRows ∧
      t.followedOffset position newRows ≤ t.mutableViewport.top + t.scrollAmount position := by
  have hamount : 0 ≤ t.scrollAmount position := le_max_left _ _
  unfold followedOffset
  split_ifs with hupdate
  · refine ⟨le_clampBetween (by omega), clampBetween_le (by omega) ?_⟩
    by_cases hrows : newRows = 0
    · split_ifs <;> omega
    · left
      rw [hlast hrows]
  · omega

theorem Docked.followCursor (h : t.Docked) {newRows : Int}
    (hlast : newRows ≠ 0 → t.activeBuffer.cursor.y = t.activeBuffer.size.height - 1) :
    (t.followCursor t.activeBuffer.cursor newRows).Docked := by
  have halt : ¬t.inAltBuffer := by simp [h.inAltBuffer_eq]
  have hactive := h.activeBuffer_eq
  obtain ⟨hmain, hleft, hright, hback, ⟨hcursor, htop, htop_le, hbottom, -⟩, hoffset⟩ := h
  have hin := contains_getSize_iff.1 hcursor
  obtain ⟨hleft', hright', htop', hbottom'⟩ := followedViewport_spec (t := t) t.activeBuffer.cursor hleft htop
  have hheight : t.activeBuffer.getSize.height = t.mainBuffer.size.height := by
    simp [hactive, height, bottomExclusive]
  have hend : t.mutableViewport.bottomInclusive + t.scrollAmount t.activeBuffer.cursor =
      max t.mutableViewport.bottomInclusive t.mainBuffer.cursor.y := by
    rw [scrollAmount, hactive]
    omega
  have hoffset' := followedOffset_spec (t := t) t.activeBuffer.cursor
    (by rw [hheight, height, bottomExclusive]; omega)
    (fun hrows => by
      have := hlast hrows
      rw [hactive] at this
      rw [hheight, height, bottomExclusive]
      omega)
  unfold TerminalCore.followCursor
  rw [if_neg halt]
  exact ⟨hmain, hleft', hright'.trans hright, hback,
    ⟨hcursor, by dsimp only; omega, by dsimp only; omega, by dsimp only; omega, by simp⟩, by dsimp only; omega⟩

theorem Docked.lineFeed (h : t.Docked) (withReturn : Bool) : (t.lineFeed withReturn).Docked :=
  lineFeed_rule (fun _ h => h.cycleRow) (fun _ h _ hcursor => h.setCursor _ (fun _ => rfl) hcursor)
    (fun _ h _ hlast => h.followCursor hlast) (fun _ h _ => { h with }) h h.forget.cursor withReturn

/-! ## Moving the viewport -/

theorem Docked.setViewportPosition (h : t.Docked) {position : Point} (horigin : t.mainBuffer.getSize.Contains position)
    (hend : t.mainBuffer.getSize.Contains
      ⟨position.x + t.mutableViewport.width - 1, position.y + t.mutableViewport.height - 1⟩)
    (hoffset : t.scrollOffset ≤ position.y) : (t.setViewportPosition position).Docked := by
  unfold TerminalCore.setViewportPosition
  rw [h.inAltBuffer_eq, if_neg Bool.false_ne_true, h.getMutableViewport_eq]
  obtain ⟨hmain, hleft, hright, hback, ⟨hcursor, htop, htop_le, hbottom, -⟩, hpos, -⟩ := h
  rw [contains_getSize_iff] at horigin hend
  unfold width height rightExclusive bottomExclusive at hend
  dsimp only at hend
  refine ⟨hmain, ?_, ?_, hback, ⟨hcursor, ?_, ?_, ?_, by simp⟩, hpos, hoffset⟩
  all_goals
    simp only [fromDimensions, dimensions, width, rightExclusive, height, bottomExclusive]
    omega

theorem Docked.userScrollViewport (h : t.Docked) (viewTop : Int) : (t.userScrollViewport viewTop).Docked := by
  unfold TerminalCore.userScrollViewport viewStartIndex
  rw [h.inAltBuffer_eq, if_neg Bool.false_ne_true]
  obtain ⟨hmain, hleft, hright, hback, hsound, -⟩ := h
  have htop := hsound.top
  refine ⟨hmain, hleft, hright, hback, hsound, ?_⟩
  dsimp only
  omega

variable {size : Size} {t' : TerminalCore}

theorem topWithin_spec {bufferHeight : Int} (hfits : size.height ≤ bufferHeight) (top : Int) :
    0 ≤ topWithin size bufferHeight top ∧ topWithin size bufferHeight top + size.height ≤ bufferHeight := by
  unfold topWithin
  simp only [fromDimensions, bottomExclusive]
  split_ifs <;> omega

theorem le_newBufferHeight {height : Int} (hheight : 1 ≤ height ∧ height ≤ shrtMax) (hback : 0 ≤ t.scrollbackLines) :
    height ≤ t.newBufferHeight height := by
  unfold newBufferHeight clampBetween
  split_ifs <;> omega

theorem Docked.resizeMain (h : t.Docked) {reflowed : Option Reflowed} (hwidth : 1 ≤ size.width)
    (hheight : 1 ≤ size.height ∧ size.height ≤ shrtMax)
    (hcursor : ∀ r ∈ reflowed, (fromDimensions ⟨0, 0⟩
      (bufferSizeFor ⟨size.width, t.newBufferHeight size.height⟩)).Contains r.cursor) :
    (t.resizeMain size reflowed).Docked := by
  cases reflowed with
  | none => exact h
  | some r =>
    have hbuffer := le_newBufferHeight hheight h.scrollback
    obtain ⟨htop, hbottom⟩ := topWithin_spec hbuffer
      (proposedTop size (size.width - t.getMutableViewport.dimensions.width) r)
    refine ⟨h.main, rfl, ?_, h.scrollback, ⟨hcursor r rfl, htop, ?_, ?_, by simp⟩, ?_⟩
    all_goals
      simp only [TerminalCore.resizeMain, fromDimensions, bufferSizeFor]
    · omega
    · omega
    · omega
    · split_ifs <;> omega

theorem Docked.userResize (h : t.Docked) {reflowed : Option Reflowed} (altText : Text)
    (hwidth : 1 ≤ size.width) (hheight : 1 ≤ size.height ∧ size.height ≤ shrtMax)
    (hcursor : ∀ r ∈ reflowed, (fromDimensions ⟨0, 0⟩
      (bufferSizeFor ⟨size.width, t.newBufferHeight size.height⟩)).Contains r.cursor) :
    (t.userResize size reflowed altText).Docked := by
  unfold TerminalCore.userResize
  rw [h.inAltBuffer_eq, if_neg Bool.false_ne_true]
  split_ifs
  · exact h
  · exact h.resizeMain hwidth hheight hcursor

/-! ## The selection -/

def InView (t : TerminalCore) (pos : Point) : Prop :=
  t.activeBuffer.getSize.Contains pos ∧ pos.y ≤ t.getMutableViewport.bottomInclusive

theorem Docked.scrollToPoint (h : t.Docked) {pos : Point} (hpos : t.InView pos) : (t.scrollToPoint pos).Docked := by
  obtain ⟨hcontains, hview⟩ := hpos
  rw [h.activeBuffer_eq, contains_getSize_iff] at hcontains
  rw [h.getMutableViewport_eq] at hview
  have halt := h.inAltBuffer_eq
  obtain ⟨hmain, hleft, hright, hback, hsound, hoffset⟩ := h
  have hvisible : t.getVisibleViewport = ⟨0, t.mutableViewport.top - t.scrollOffset, t.mutableViewport.rightInclusive,
        t.mutableViewport.bottomInclusive - t.scrollOffset⟩ := by
    simp only [getVisibleViewport, visibleStartIndex, viewStartIndex, halt, Bool.false_eq_true, if_false,
      fromDimensions, dimensions, width, height, rightExclusive,
      bottomExclusive]
    congr 1
    all_goals omega
  unfold TerminalCore.scrollToPoint
  rw [hvisible]
  dsimp only
  split_ifs with hin habove
  · exact ⟨hmain, hleft, hright, hback, hsound, hoffset⟩
  · exact ⟨hmain, hleft, hright, hback, hsound, by dsimp only at *; omega⟩
  · unfold Viewport.Contains rightExclusive bottomExclusive at hin
    exact ⟨hmain, hleft, hright, hback, hsound, by dsimp only at *; omega⟩

/-- A move to the right does not leave the last row of the viewport. -/
def StaysRight (t : TerminalCore) (mode : SelectionExpansion) (pivot pos : Point) : Prop :=
  let right := t.activeBuffer.getSize.rightInclusive
  pos.y < t.getMutableViewport.bottomInclusive ∨
    t.getMutableViewport.bottomInclusive = t.activeBuffer.getSize.bottomInclusive ∨
    match mode with
    | .char => pos.x < right
    | .word => (t.activeBuffer.getWordEnd pos).x < right ∨
        ¬t.activeBuffer.getSize.compareInBounds pos pivot < 0 ∧ pos.x < right
    | _ => True

section

variable {pos pivot : Point}

theorem incrementInBounds_y_le (hpos : t.InBuffer pos) (hstays : pos.y < t.getMutableViewport.bottomInclusive ∨
      pos.x < t.activeBuffer.getSize.rightInclusive ∧ pos.y ≤ t.getMutableViewport.bottomInclusive) :
    (t.activeBuffer.getSize.incrementInBounds pos).1.y ≤ t.getMutableViewport.bottomInclusive := by
  rw [incrementInBounds_fst hpos _ (by simp)]
  split_ifs
  · dsimp only
    omega
  · dsimp only
    omega
  · omega

theorem moveUp_y_le (h : Sound t.activeBuffer t.getMutableViewport none) {rows : Int} (hrows : 0 ≤ rows)
    (hview : pos.y ≤ t.getMutableViewport.bottomInclusive) :
    (t.moveUp rows pos).y ≤ t.getMutableViewport.bottomInclusive := by
  have htop := h.top
  have htop_le := h.top_le
  unfold moveUp
  dsimp only
  split_ifs
  · rw [origin_getSize]
    dsimp only
    omega
  · dsimp only
    omega

theorem moveDown_y_le (rows : Int) (pos : Point) : (t.moveDown rows pos).y ≤ t.getMutableViewport.bottomInclusive := by
  unfold moveDown
  dsimp only
  split_ifs
  · exact le_rfl
  · dsimp only
    omega

theorem moveByWord_right_y_le (hpos : t.InView pos) (hstays : t.StaysRight .word pivot pos)
    (hbottom : t.getMutableViewport.bottomInclusive ≠ t.activeBuffer.getSize.bottomInclusive) :
    (t.moveByWord .right pivot pos).y ≤ t.getMutableViewport.bottomInclusive := by
  obtain ⟨hcontains, hview⟩ := hpos
  have hend := rightOf_getWordEnd hcontains
  have hrow := hend.row
  have hstays : pos.y < t.getMutableViewport.bottomInclusive ∨ _ := hstays.imp_right fun h => h.resolve_left hbottom
  unfold moveByWord
  dsimp only at hstays ⊢
  split_ifs with htowards hsame
  · apply incrementInBounds_y_le hend.contains
    rcases hstays with hrow' | hcolumn | ⟨haway, -⟩
    · omega
    · omega
    · exact absurd htowards haway
  · have hcolumn := hend.column
    have hnext := incrementInBounds_y_le hcontains (by
      rcases hstays with hrow' | hcolumn' | ⟨-, hcolumn'⟩
      · exact Or.inl hrow'
      · exact Or.inr ⟨by omega, hview⟩
      · exact Or.inr ⟨hcolumn', hview⟩)
    rw [(rightOf_getWordEnd (contains_incrementInBounds hcontains)).row]
    exact hnext
  · omega

theorem moveByChar_y_le (h : Sound t.activeBuffer t.getMutableViewport none) (hpos : t.InView pos)
    (direction : SelectionDirection) (hstays : direction = .right → t.StaysRight .char pivot pos)
    (hbottom : t.getMutableViewport.bottomInclusive ≠ t.activeBuffer.getSize.bottomInclusive) :
    (t.moveByChar direction pos).y ≤ t.getMutableViewport.bottomInclusive := by
  obtain ⟨hcontains, hview⟩ := hpos
  cases direction with
  | left =>
    have hbefore := contains_decrementInBounds hcontains false
    exact ((contains_getGlyphStart hbefore.1).2.trans hbefore.2).trans hview
  | right =>
    have hstays := (hstays rfl).imp_right fun h => h.resolve_left hbottom
    have hnext := rightOf_getGlyphEnd (contains_incrementInBounds hcontains)
    rw [moveByChar, hnext.row]
    exact incrementInBounds_y_le hcontains (hstays.imp_right fun hcolumn => ⟨hcolumn, hview⟩)
  | up => exact moveUp_y_le h (by decide) hview
  | down => exact moveDown_y_le 1 pos

theorem moveByWord_y_le (h : Sound t.activeBuffer t.getMutableViewport none) (hpos : t.InView pos)
    (direction : SelectionDirection) (hstays : direction = .right → t.StaysRight .word pivot pos)
    (hbottom : t.getMutableViewport.bottomInclusive ≠ t.activeBuffer.getSize.bottomInclusive) :
    (t.moveByWord direction pivot pos).y ≤ t.getMutableViewport.bottomInclusive := by
  cases direction with
  | left =>
    obtain ⟨hcontains, hview⟩ := hpos
    have hstart := leftOf_getWordStart hcontains
    have hrow := hstart.row
    have hbefore := contains_decrementInBounds hcontains false
    unfold moveByWord
    dsimp only
    split_ifs
    · have := (contains_decrementInBounds hstart.contains false).2
      omega
    · have := (leftOf_getWordStart hbefore.1).row
      omega
    · omega
  | right => exact moveByWord_right_y_le hpos (hstays rfl) hbottom
  | up =>
    have hmoved := contains_moveByChar h hpos.1 .up
    rw [moveByWord, (leftOf_getWordStart hmoved).row]
    exact moveUp_y_le h (by decide) hpos.2
  | down =>
    have hmoved := contains_moveByChar h hpos.1 .down
    rw [moveByWord, (rightOf_getWordEnd hmoved).row]
    exact moveDown_y_le 1 pos

theorem inView_movePos (h : Sound t.activeBuffer t.getMutableViewport none) (hpos : t.InView pos)
    (direction : SelectionDirection) (mode : SelectionExpansion)
    (hstays : direction = .right → t.StaysRight mode pivot pos) : t.InView (t.movePos direction mode pivot pos) := by
  have hcontains : t.InBuffer (t.movePos direction mode pivot pos) := contains_movePos h hpos.1 direction mode
  refine ⟨hcontains, ?_⟩
  by_cases hbottom : t.getMutableViewport.bottomInclusive = t.activeBuffer.getSize.bottomInclusive
  -- Every row of the buffer is above the end of the viewport.
  · have hin := inBuffer_iff.1 hcontains
    rw [hbottom, getSize_bottomInclusive]
    omega
  have htop := h.top
  have htop_le := h.top_le
  cases mode with
  | char => exact moveByChar_y_le h hpos direction hstays hbottom
  | word => exact moveByWord_y_le h hpos direction hstays hbottom
  | viewport =>
    have hheight : 0 ≤ t.getMutableViewport.height := by
      unfold height bottomExclusive
      omega
    cases direction with
    | left => exact hpos.2
    | right => exact hpos.2
    | up => exact moveUp_y_le h hheight hpos.2
    | down => exact moveDown_y_le _ pos
  | buffer =>
    cases direction with
    | left => exact htop.trans htop_le
    | up => exact htop.trans htop_le
    | right => exact le_rfl
    | down => exact le_rfl
  | line => exact hpos.2

end

/-! ## Every run -/

/-- Runs in the main buffer, with the viewport and the cursor inside of it. -/
def Admissible (t : TerminalCore) : TerminalOp → Prop
  | .output cursor _ => t.activeBuffer.getSize.Contains cursor
  | .setViewportPosition position =>
    t.activeBuffer.getSize.Contains position ∧ t.activeBuffer.getSize.Contains
        ⟨position.x + t.getMutableViewport.width - 1, position.y + t.getMutableViewport.height - 1⟩
  | .userResize viewportSize reflowed _ =>
    ∀ r ∈ reflowed, (fromDimensions ⟨0, 0⟩
      (bufferSizeFor ⟨viewportSize.width, t.newBufferHeight viewportSize.height⟩)).Contains r.cursor
  | .useAlternateScreenBuffer | .useMainScreenBuffer _ => False
  | _ => True

/-- The viewport is not moved up under the user, nor the selection out of it. -/
def StaysInScrollback (t : TerminalCore) : TerminalOp → Prop
  | .setViewportPosition position => t.scrollOffset ≤ position.y
  | .userResize viewportSize _ _ => 1 ≤ viewportSize.width ∧ 1 ≤ viewportSize.height ∧ viewportSize.height ≤ shrtMax
  | .updateSelection direction mode shift =>
    ∀ s ∈ t.selection, t.InView (t.movingEndpoint shift s) ∧
      (direction = .right → t.StaysRight mode s.pivot (t.movingEndpoint shift s))
  | .toggleMarkMode =>
    t.selectionMode ≠ .mark → t.InView ((t.selection.map SelectionAnchors.start).getD t.activeBuffer.cursor)
  | _ => True

theorem Docked.of_onlyMarks (h : t.Docked) (hmarks : t.OnlyMarks t') : t'.Docked := by
  obtain ⟨_, _, rfl⟩ := hmarks
  exact { h with }

theorem Docked.setSelectionEnd (h : t.Docked) (pos : Point) (mode : Option SelectionExpansion) :
    (t.setSelectionEnd pos mode).Docked := by
  unfold TerminalCore.setSelectionEnd
  split
  · exact h
  · exact { h with }

theorem Docked.startSelection (h : t.Docked) (pos : Point) (mode : SelectionExpansion)
    (f : SelectionAnchors → SelectionAnchors) :
    let t₁ := { t with
                selection := some { pivot := t.convertToBufferCell pos }
                multiClickSelectionMode := mode }.setSelectionEnd pos none
    { t₁ with selection := t₁.selection.map f }.Docked := by
  have hstarted : { t with
      selection := some { pivot := t.convertToBufferCell pos }
      multiClickSelectionMode := mode }.Docked := { h with }
  exact { hstarted.setSelectionEnd pos none with }

theorem Docked.toggleMarkMode (h : t.Docked) (hop : t.StaysInScrollback .toggleMarkMode) : t.toggleMarkMode.Docked := by
  unfold TerminalCore.toggleMarkMode
  by_cases hmark : t.selectionMode = .mark
  · rw [if_pos hmark]
    exact { h with }
  have hview := hop hmark
  rw [if_neg hmark]
  split
  · next hs =>
    rw [hs] at hview
    have hmoved : ({ t with
        selection := some ⟨t.activeBuffer.cursor, t.activeBuffer.cursor, t.activeBuffer.cursor⟩
        blockSelection := false
        selectionEndpoint := ⟨true, true⟩ }.scrollToPoint t.activeBuffer.cursor).Docked := by
      refine Docked.scrollToPoint ?_ ?_
      · exact { h with }
      · exact hview
    exact { hmoved with }
  · next s hs =>
    rw [hs] at hview
    have hmoved (selectionEndpoint : SelectionEndpoint) :
      ({ t with selectionEndpoint }.scrollToPoint s.start).Docked := by
      refine Docked.scrollToPoint ?_ ?_
      · exact { h with }
      · exact hview
    exact { hmoved _ with }

theorem Docked.updateSelection {direction : SelectionDirection} {mode : SelectionExpansion} {shift : Bool}
    (h : t.Docked) (hop : t.StaysInScrollback (.updateSelection direction mode shift))
    (hupdate : t.updateSelection direction mode shift = some t') : t'.Docked := by
  obtain ⟨s, hs, rfl⟩ := Option.map_eq_some_iff.1 hupdate
  obtain ⟨hview, hstays⟩ := hop s hs
  have htarget := inView_movePos h.forget hview direction mode hstays
  refine Docked.scrollToPoint ?_ ?_
  · split_ifs
    · exact { h with }
    · exact { h with }
  · split_ifs
    · exact htarget
    · exact htarget

theorem Docked.selectAll (h : t.Docked) : t.selectAll.Docked := by
  have hview : t.InView t.activeBuffer.getSize.origin := ⟨contains_origin h.forget, h.forget.top.trans h.forget.top_le⟩
  refine Docked.scrollToPoint ?_ ?_
  · exact { h with }
  · exact hview

theorem step_docked (t : TerminalCore) (op : TerminalOp) (t' : TerminalCore) (h : t.Docked)
    (hop : t.Admissible op ∧ t.StaysInScrollback op) (hstep : t.step op = some t') : t'.Docked := by
  obtain ⟨hadmissible, hstays⟩ := hop
  cases op with
  | lineFeed withReturn => exact of_step hstep (h.lineFeed withReturn)
  | output cursor text => exact of_step hstep (h.setCursor _ (fun _ => rfl) hadmissible)
  | setViewportPosition position =>
    obtain rfl := Option.some.inj hstep
    obtain ⟨horigin, hend⟩ := hadmissible
    rw [h.activeBuffer_eq] at horigin hend
    rw [h.getMutableViewport_eq] at hend
    exact h.setViewportPosition horigin hend hstays
  | userScrollViewport viewTop => exact of_step hstep (h.userScrollViewport viewTop)
  | userResize size reflowed altText => exact of_step hstep (h.userResize altText hstays.1 hstays.2 hadmissible)
  | useAlternateScreenBuffer => exact hadmissible.elim
  | useMainScreenBuffer => exact hadmissible.elim
  | setSelectionAnchor pos => exact of_step hstep (h.startSelection pos .char _)
  | setSelectionEnd pos mode => exact of_step hstep (h.setSelectionEnd pos mode)
  | multiClickSelection pos mode => exact of_step hstep (h.startSelection pos mode _)
  | setBlockSelection isEnabled => exact of_step hstep { h with }
  | updateSelection direction mode shift => exact h.updateSelection hstays hstep
  | toggleMarkMode => exact of_step hstep (h.toggleMarkMode hstays)
  | switchSelectionEndpoint =>
    obtain rfl := Option.some.inj hstep
    unfold switchSelectionEndpoint
    split
    · exact h
    · split_ifs
      all_goals exact { h with }
  | expandSelectionToWord =>
    obtain rfl := Option.some.inj hstep
    unfold expandSelectionToWord
    split
    · exact h
    · exact { h with }
  | selectAll => exact of_step hstep h.selectAll
  | clearSelection => exact of_step hstep { h with }
  | _ => exact h.of_onlyMarks (onlyMarks_of_step rfl hstep)

theorem docked_create {scrollbackLines : Int} (hwidth : 1 ≤ size.width)
    (hheight : 1 ≤ size.height ∧ size.height ≤ shrtMax) (hback : 0 ≤ scrollbackLines) :
    (create size scrollbackLines).Docked := by
  refine ⟨rfl, rfl, ?_, hback, isSound_create hheight hback, le_rfl, le_rfl⟩
  simp only [create, fromDimensions, bufferSizeFor]
  omega

theorem run_scrollOffset_bounds {size : Size} {scrollbackLines : Int} {ops : List TerminalOp} {t' : TerminalCore}
    (hwidth : 1 ≤ size.width) (hheight : 1 ≤ size.height ∧ size.height ≤ shrtMax)
    (hback : 0 ≤ scrollbackLines)
    (hops : Steps.Along step (fun t op => t.Admissible op ∧ t.StaysInScrollback op) (create size scrollbackLines) ops)
    (hrun : (create size scrollbackLines).run ops = some t') :
    0 ≤ t'.scrollOffset ∧ t'.scrollOffset ≤ t'.viewStartIndex ∧ t'.visibleEndIndex ≤ t'.viewEndIndex ∧
      t'.visibleEndIndex - t'.visibleStartIndex + 1 = t'.mutableViewport.height := by
  have hdocked := Steps.run_keeps step_docked (docked_create hwidth hheight hback) hops hrun
  have hstart : t'.viewStartIndex = t'.mutableViewport.top := by simp [viewStartIndex, hdocked.inAltBuffer_eq]
  rw [hstart]
  exact ⟨hdocked.offset.1, hdocked.offset.2, hdocked.visible⟩

theorem run_scrollOffset_bounds_scrolled : ∃ t', (create ⟨10, 2⟩ 3).run
        [.lineFeed true, .lineFeed true, .lineFeed true, .userScrollViewport 1, .setViewportPosition ⟨0, 1⟩] = some t' ∧
      t'.scrollOffset = 1 ∧ 0 ≤ t'.scrollOffset ∧ t'.scrollOffset ≤ t'.viewStartIndex ∧
      t'.visibleEndIndex ≤ t'.viewEndIndex ∧
      t'.visibleEndIndex - t'.visibleStartIndex + 1 = t'.mutableViewport.height := by
  refine ⟨_, rfl, by decide, @run_scrollOffset_bounds ⟨10, 2⟩ 3
    [.lineFeed true, .lineFeed true, .lineFeed true, .userScrollViewport 1, .setViewportPosition ⟨0, 1⟩] _
    (by decide) (by decide) (by decide) ?_ rfl⟩
  refine ⟨⟨trivial, trivial⟩, ?_⟩
  rintro _ ⟨⟩
  refine ⟨⟨trivial, trivial⟩, ?_⟩
  rintro _ ⟨⟩
  refine ⟨⟨trivial, trivial⟩, ?_⟩
  rintro _ ⟨⟩
  refine ⟨⟨trivial, trivial⟩, ?_⟩
  rintro _ ⟨⟩
  exact ⟨⟨⟨by decide, by decide⟩, Int.le_refl 1⟩, fun _ _ => trivial⟩

/-- The scrollback is erased, and the keyboard moves on. -/
theorem scrollOffset_leaves_scrollback : (∃ t', (create ⟨10, 2⟩ 3).run
        [.lineFeed true, .lineFeed true, .lineFeed true, .userScrollViewport 0, .setViewportPosition ⟨0, 0⟩] = some t' ∧
      t'.viewStartIndex < t'.scrollOffset ∧
      t'.visibleEndIndex - t'.visibleStartIndex + 1 ≠ t'.mutableViewport.height) ∧
    ∃ t', (create ⟨10, 2⟩ 3).run
        [.toggleMarkMode, .updateSelection .down .viewport false, .updateSelection .right .char false] = some t' ∧
      t'.scrollOffset < 0 ∧ t'.viewEndIndex < t'.visibleEndIndex :=
  ⟨⟨_, rfl, by decide, by decide⟩, ⟨_, rfl, by decide, by decide⟩⟩

end

end TerminalCore

end Terminal.Core
