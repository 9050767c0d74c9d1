import Terminal.Core.Selection

/-!
# The selection is well formed

Both anchors and the pivot are cells of the buffer, in reading order, whatever happens.
-/

namespace Terminal.Core

open Terminal.Types Screen Point Option

structure SelectionAnchors.WellFormed (size : Viewport) (s : SelectionAnchors) : Prop where
  start_contains : size.Contains s.start
  endPos_contains : size.Contains s.endPos
  pivot_contains : size.Contains s.pivot
  start_le : s.start ≤ s.pivot
  le_endPos : s.pivot ≤ s.endPos

theorem SelectionAnchors.WellFormed.start_le_endPos {size : Viewport} {s : SelectionAnchors} (h : s.WellFormed size) :
    s.start ≤ s.endPos := le_trans h.start_le h.le_endPos

structure Sound (buffer : Screen) (viewport : Viewport) (selection : Option SelectionAnchors) : Prop where
  cursor : buffer.getSize.Contains buffer.cursor
  top : 0 ≤ viewport.top
  top_le : viewport.top ≤ viewport.bottomInclusive
  bottom : viewport.bottomInclusive < buffer.size.height
  selection : ∀ s ∈ selection, s.WellFormed buffer.getSize

theorem Sound.isValid {buffer : Screen} {viewport : Viewport} {selection : Option SelectionAnchors}
    (h : Sound buffer viewport selection) : buffer.getSize.isValid := by
  have hin := contains_getSize_iff.1 h.cursor
  simp only [Viewport.isValid, getSize_left, getSize_top, getSize_rightInclusive, getSize_bottomInclusive]
  omega

theorem SelectionAnchors.WellFormed.pushUp {buffer : Screen} {s s' : SelectionAnchors} (h : s.WellFormed buffer.getSize)
    (hs' : s' ∈ s.pushUp) :
    buffer.getSize.Contains s'.start ∧ buffer.getSize.Contains s'.endPos ∧ s'.start ≤ s'.endPos := by
  have hordered := le_def.1 h.start_le_endPos
  have hstart := contains_getSize_iff.1 h.start_contains
  have hend := contains_getSize_iff.1 h.endPos_contains
  rw [contains_getSize_iff, contains_getSize_iff, le_def]
  unfold SelectionAnchors.pushUp at hs'
  split_ifs at hs' with hboth hone
  · obtain rfl := mem_some_iff.1 hs'
    dsimp only
    omega
  · obtain rfl := mem_some_iff.1 hs'
    dsimp only
    omega
  · simp at hs'

theorem SelectionAnchors.WellFormed.cycle {buffer : Screen} {s s' : SelectionAnchors} (h : s.WellFormed buffer.getSize)
    (hs' : s' ∈ s.cycle) : s'.WellFormed buffer.getSize := by
  obtain ⟨moved, hmoved, rfl⟩ := map_eq_some_iff.1 hs'
  obtain ⟨hstart, hend, hle⟩ := h.pushUp hmoved
  split_ifs
  · exact ⟨hstart, hend, hstart, le_refl _, hle⟩
  · exact ⟨hstart, hend, hend, hle, le_refl _⟩

namespace TerminalCore

abbrev InBuffer (t : TerminalCore) (pos : Point) : Prop := t.activeBuffer.getSize.Contains pos

theorem inBuffer_iff {t : TerminalCore} {pos : Point} : t.InBuffer pos ↔
    0 ≤ pos.x ∧ pos.x < t.activeBuffer.size.width ∧ 0 ≤ pos.y ∧ pos.y < t.activeBuffer.size.height :=
  contains_getSize_iff

def IsSound (t : TerminalCore) : Prop := Sound t.activeBuffer t.getMutableViewport t.selection

theorem IsSound.forget {t : TerminalCore} (h : t.IsSound) : Sound t.activeBuffer t.getMutableViewport none :=
  ⟨h.cursor, h.top, h.top_le, h.bottom, by simp⟩

/-! ## Frames -/

section

variable (t : TerminalCore)

@[simp] theorem activeBuffer_modifyActiveBuffer (f : Screen → Screen) :
    (t.modifyActiveBuffer f).activeBuffer = f t.activeBuffer := by
  unfold modifyActiveBuffer activeBuffer
  cases t.altBuffer <;> rfl

@[simp] theorem getMutableViewport_modifyActiveBuffer (f : Screen → Screen) :
    (t.modifyActiveBuffer f).getMutableViewport = t.getMutableViewport := by
  unfold modifyActiveBuffer getMutableViewport inAltBuffer
  cases t.altBuffer <;> rfl

@[simp] theorem selection_modifyActiveBuffer (f : Screen → Screen) :
    (t.modifyActiveBuffer f).selection = t.selection := by
  unfold modifyActiveBuffer
  split <;> rfl

theorem scrollToPoint_eq (pos : Point) : ∃ scrollOffset, t.scrollToPoint pos = { t with scrollOffset } := by
  unfold scrollToPoint
  dsimp only
  split_ifs
  · exact ⟨t.scrollOffset, rfl⟩
  · exact ⟨_, rfl⟩
  · exact ⟨_, rfl⟩

def OnlyMarks (t' : TerminalCore) : Prop :=
  ∃ scrollMarks currentPromptState, t' = { t with scrollMarks, currentPromptState }

end

section

variable {t t' t'' : TerminalCore}

theorem OnlyMarks.refl (t : TerminalCore) : t.OnlyMarks t := ⟨t.scrollMarks, t.currentPromptState, rfl⟩

theorem OnlyMarks.trans (h : t.OnlyMarks t') (h' : t'.OnlyMarks t'') : t.OnlyMarks t'' := by
  obtain ⟨_, _, rfl⟩ := h
  obtain ⟨marks, state, rfl⟩ := h'
  exact ⟨marks, state, rfl⟩

theorem onlyMarks_addMark (mark : ScrollMark) (start endPos : Point) (fromUi : Bool) (t : TerminalCore) :
    t.OnlyMarks (t.addMark mark start endPos fromUi) := by
  unfold addMark
  split
  · exact .refl t
  · exact ⟨_, t.currentPromptState, rfl⟩

theorem onlyMarks_ensureMark (state : PromptState) (t : TerminalCore) : t.OnlyMarks (t.ensureMark state) := by
  unfold ensureMark
  split
  · exact .refl t
  · exact onlyMarks_addMark ..

theorem onlyMarks_of_modifyLastMark {f : ScrollMark → ScrollMark}
    (h : t.modifyLastMark f = some t') : t.OnlyMarks t' := by
  obtain ⟨mark, -, rfl⟩ := map_eq_some_iff.1 h
  exact ⟨_, t.currentPromptState, rfl⟩

theorem onlyMarks_markPrompt (mark : ScrollMark) (t : TerminalCore) : t.OnlyMarks (t.markPrompt mark) := by
  obtain ⟨marks, state, h⟩ := onlyMarks_addMark mark t.activeBuffer.cursor t.activeBuffer.cursor false t
  unfold markPrompt
  dsimp only
  rw [h]
  split
  · exact ⟨marks, .prompt, rfl⟩
  · exact ⟨marks, state, rfl⟩

theorem onlyMarks_of_handler {t₁ : TerminalCore} {f : ScrollMark → ScrollMark} {state : PromptState}
    (ht₁ : t.OnlyMarks t₁)
    (h : ((t₁.modifyLastMark f).bind fun t₂ => some { t₂ with currentPromptState := state }) = some t') :
    t.OnlyMarks t' := by
  obtain ⟨t₂, hmodify, heq⟩ := bind_eq_some_iff.1 h
  rw [some.injEq] at heq
  subst heq
  exact (ht₁.trans (onlyMarks_of_modifyLastMark hmodify)).trans ⟨_, _, rfl⟩

theorem onlyMarks_of_markCommandFinish {error : Option Nat} (h : t.markCommandFinish error =
    some t') : t.OnlyMarks t' := by
  unfold markCommandFinish at h
  split_ifs at h with hstate
  · exact onlyMarks_of_handler (.refl t) h
  · obtain ⟨t₁, hfirst, hrest⟩ := bind_eq_some_iff.1 h
    exact onlyMarks_of_handler ((onlyMarks_addMark ..).trans (onlyMarks_of_modifyLastMark hfirst)) hrest

theorem of_step {P : TerminalCore → Prop} (hstep : some t = some t') (h : P t) : P t' := some.inj hstep ▸ h

def isMarkOp : TerminalOp → Bool
  | .markPrompt _ | .markCommandStart | .markOutputStart | .markCommandFinish _ | .addMark .. | .clearMark
  | .clearAllMarks => true
  | _ => false

theorem onlyMarks_of_step {op : TerminalOp} (hop : isMarkOp op = true)
    (hstep : t.step op = some t') : t.OnlyMarks t' := by
  cases op with
  | markPrompt mark => exact of_step hstep (onlyMarks_markPrompt mark t)
  | markCommandStart => exact onlyMarks_of_handler (onlyMarks_ensureMark .prompt t) hstep
  | markOutputStart => exact onlyMarks_of_handler (onlyMarks_ensureMark .command t) hstep
  | markCommandFinish => exact onlyMarks_of_markCommandFinish hstep
  | addMark mark start endPos fromUi => exact of_step hstep (onlyMarks_addMark mark start endPos fromUi t)
  | clearMark => exact of_step hstep ⟨_, t.currentPromptState, rfl⟩
  | clearAllMarks => exact of_step hstep ⟨_, t.currentPromptState, rfl⟩
  | _ => cases hop

theorem IsSound.of_onlyMarks (h : t.IsSound) (hmarks : t.OnlyMarks t') : t'.IsSound := by
  obtain ⟨_, _, rfl⟩ := hmarks
  exact h

end

/-! ## Line feeds -/

section

variable {t : TerminalCore}

theorem activeBuffer_cycleRow (t : TerminalCore) : t.cycleRow.activeBuffer = t.activeBuffer.incrementCircularBuffer :=
  activeBuffer_modifyActiveBuffer t _

theorem IsSound.cycleRow (h : t.IsSound) : t.cycleRow.IsSound := by
  unfold IsSound at *
  obtain ⟨hcursor, htop, htop_le, hbottom, hselection⟩ := h
  have hviewport : t.cycleRow.getMutableViewport = t.getMutableViewport := getMutableViewport_modifyActiveBuffer t _
  rw [activeBuffer_cycleRow, hviewport]
  refine ⟨hcursor, htop, htop_le, hbottom, ?_⟩
  intro s' hs'
  obtain ⟨s, hs, hcycle⟩ := bind_eq_some_iff.1 hs'
  exact (hselection s hs).cycle hcycle

theorem iterate_cycleRow {P : TerminalCore → Prop} (hcycle : ∀ t, P t → P t.cycleRow) (n : Nat) (h : P t) :
    P (TerminalCore.cycleRow^[n] t) ∧ (TerminalCore.cycleRow^[n] t).activeBuffer.size = t.activeBuffer.size := by
  induction n generalizing t with
  | zero => exact ⟨h, rfl⟩
  | succ n ih =>
    rw [Function.iterate_succ_apply]
    obtain ⟨hrest, hsize⟩ := ih (hcycle t h)
    exact ⟨hrest, by rw [hsize, activeBuffer_cycleRow]; rfl⟩

theorem IsSound.setCursor (h : t.IsSound) (f : Screen → Screen) (hsize : ∀ buffer, (f buffer).size = buffer.size)
    (hcursor : t.InBuffer (f t.activeBuffer).cursor) : (t.modifyActiveBuffer f).IsSound := by
  have hgetSize : (f t.activeBuffer).getSize = t.activeBuffer.getSize := by simp [getSize, hsize]
  unfold IsSound at *
  rw [activeBuffer_modifyActiveBuffer, getMutableViewport_modifyActiveBuffer, selection_modifyActiveBuffer]
  exact ⟨by rwa [hgetSize], h.top, h.top_le, by rw [hsize]; exact h.bottom, by rw [hgetSize]; exact h.selection⟩

variable {position : Point} {s : SelectionAnchors}

theorem newViewTop_eq (htop : 0 ≤ t.mutableViewport.top) (hbelow : t.mutableViewport.bottomInclusive < position.y) :
    t.newViewTop position = t.mutableViewport.top + (position.y - t.mutableViewport.bottomInclusive) := by
  unfold newViewTop Viewport.height Viewport.bottomExclusive
  omega

theorem updatesViewport_iff (htop : 0 ≤ t.mutableViewport.top) :
    t.updatesViewport position ↔ t.mutableViewport.bottomInclusive < position.y := by
  unfold updatesViewport scrollAmount
  constructor
  · omega
  · intro hbelow
    rw [newViewTop_eq htop hbelow]
    omega

theorem followedViewport_eq (htop : 0 ≤ t.mutableViewport.top) : t.followedViewport position =
      if t.mutableViewport.bottomInclusive < position.y then
        .fromDimensions ⟨0, t.mutableViewport.top + (position.y - t.mutableViewport.bottomInclusive)⟩
          t.mutableViewport.dimensions
      else t.mutableViewport := by
  unfold followedViewport
  simp only [updatesViewport_iff htop]
  split_ifs with hbelow
  · rw [newViewTop_eq htop hbelow]
  · rfl

theorem getMutableViewport_followCursor (newRows : Int) (halt : ¬t.inAltBuffer) :
    (t.followCursor position newRows).getMutableViewport = t.followedViewport position := by
  rw [TerminalCore.followCursor, if_neg halt]
  exact if_neg halt

theorem IsSound.followCursor (h : t.IsSound) (newRows : Int) :
    (t.followCursor t.activeBuffer.cursor newRows).IsSound := by
  by_cases halt : t.inAltBuffer
  · rwa [TerminalCore.followCursor, if_pos halt]
  · obtain ⟨hcursor, htop, htop_le, hbottom, hselection⟩ := h
    rw [getMutableViewport, if_neg halt] at htop htop_le hbottom
    have hin := inBuffer_iff.1 hcursor
    have hactive : (t.followCursor t.activeBuffer.cursor newRows).activeBuffer = t.activeBuffer := by
      rw [TerminalCore.followCursor, if_neg halt]
      rfl
    have hanchors : (t.followCursor t.activeBuffer.cursor newRows).selection = t.selection := by
      rw [TerminalCore.followCursor, if_neg halt]
    unfold IsSound
    rw [hactive, hanchors, getMutableViewport_followCursor newRows halt, followedViewport_eq htop]
    split_ifs with hbelow
    · refine ⟨hcursor, ?_, ?_, ?_, hselection⟩
      all_goals
        simp only [Viewport.fromDimensions, Viewport.dimensions, Viewport.height, Viewport.bottomExclusive]
        omega
    · exact ⟨hcursor, htop, htop_le, hbottom, hselection⟩

theorem contains_lineFeed (h : t.InBuffer t.activeBuffer.cursor) (withReturn : Bool) : t.InBuffer
      (pointUp (t.newRows (t.activeBuffer.cursor.y + 1))
        ⟨if withReturn then 0 else t.activeBuffer.cursor.x, t.activeBuffer.cursor.y + 1⟩) := by
  have hin := inBuffer_iff.1 h
  rw [inBuffer_iff]
  unfold pointUp newRows getSize Viewport.fromDimensions Viewport.height Viewport.bottomExclusive
  dsimp only
  split_ifs <;> omega

/-- For what cycling rows, moving the cursor and following it keep. -/
theorem lineFeed_rule {P : TerminalCore → Prop} (hcycle : ∀ t, P t → P t.cycleRow)
    (hset : ∀ t, P t → ∀ cursor, t.InBuffer cursor → P (t.modifyActiveBuffer fun buffer => { buffer with cursor }))
    (hfollow : ∀ t, P t → ∀ newRows, (newRows ≠ 0 → t.activeBuffer.cursor.y = t.activeBuffer.size.height - 1) →
      P (t.followCursor t.activeBuffer.cursor newRows))
    (hmarks : ∀ t, P t → ∀ scrollMarks, P { t with scrollMarks }) (h : P t) (hcursor : t.InBuffer t.activeBuffer.cursor)
    (withReturn : Bool) : P (t.lineFeed withReturn) := by
  have hcontains := contains_lineFeed hcursor withReturn
  have hlast : t.newRows (t.activeBuffer.cursor.y + 1) ≠ 0 → (pointUp (t.newRows (t.activeBuffer.cursor.y + 1))
        ⟨if withReturn then 0 else t.activeBuffer.cursor.x, t.activeBuffer.cursor.y + 1⟩).y =
        t.activeBuffer.size.height - 1 := by
    have hheight : t.activeBuffer.getSize.height = t.activeBuffer.size.height := by
      simp [Viewport.height, Viewport.bottomExclusive]
    unfold newRows pointUp
    dsimp only
    omega
  unfold TerminalCore.lineFeed adjustCursorPosition
  dsimp only
  generalize pointUp _ _ = position at hcontains hlast
  generalize t.newRows _ = newRows at hlast
  obtain ⟨hcycled, hsize⟩ := iterate_cycleRow hcycle newRows.toNat h
  have hmoved := hset _ hcycled position (by rwa [InBuffer, getSize, hsize])
  have hfollowed := hfollow _ hmoved newRows (by rwa [activeBuffer_modifyActiveBuffer, hsize])
  rw [activeBuffer_modifyActiveBuffer] at hfollowed
  unfold moveMarks
  split_ifs
  · exact hmarks _ hfollowed _
  · exact hfollowed

theorem IsSound.lineFeed (h : t.IsSound) (withReturn : Bool) : (t.lineFeed withReturn).IsSound :=
  lineFeed_rule (fun _ h => h.cycleRow) (fun _ h _ hcursor => h.setCursor _ (fun _ => rfl) hcursor)
    (fun _ h newRows _ => h.followCursor newRows) (fun _ h _ => h) h h.cursor withReturn

/-! ## The mouse -/

theorem contains_convertToBufferCell (h : t.IsSound) (pos : Point) :
    t.InBuffer (t.convertToBufferCell pos) := Viewport.contains_clamp (Sound.isValid h) _

theorem pivotSelection_spec {target pivot : Point} (htarget : t.InBuffer target) (hpivot : t.InBuffer pivot) :
    SelectionAnchors.WellFormed t.activeBuffer.getSize
      ⟨(t.pivotSelection target pivot).1.1, (t.pivotSelection target pivot).1.2, pivot⟩ := by
  unfold pivotSelection
  simp only [Viewport.compareInBounds_nonpos htarget hpivot]
  split_ifs with hle
  · exact ⟨htarget, hpivot, hpivot, hle, le_refl _⟩
  · exact ⟨hpivot, htarget, hpivot, le_refl _, le_of_not_le hle⟩

theorem expandSelectionAnchors_spec {anchors : Point × Point} (hstart : t.InBuffer anchors.1)
    (hend : t.InBuffer anchors.2) :
    t.InBuffer (t.expandSelectionAnchors anchors).1 ∧ (t.expandSelectionAnchors anchors).1 ≤ anchors.1 ∧
      t.InBuffer (t.expandSelectionAnchors anchors).2 ∧
      anchors.2 ≤ (t.expandSelectionAnchors anchors).2 := by
  unfold expandSelectionAnchors
  cases t.multiClickSelectionMode with
  | word =>
    have hleft := leftOf_getWordStart hstart
    have hright := rightOf_getWordEnd hend
    exact ⟨hleft.contains, hleft.le, hright.contains, hright.le⟩
  | line =>
    rw [inBuffer_iff] at hstart hend
    refine ⟨?_, Or.inr ⟨rfl, hstart.1⟩, ?_, Or.inr ⟨rfl, ?_⟩⟩
    all_goals
      simp only [inBuffer_iff, getSize_left, getSize_rightInclusive]
      omega
  | char => exact ⟨hstart, le_refl _, hend, le_refl _⟩
  | viewport => exact ⟨hstart, le_refl _, hend, le_refl _⟩
  | buffer => exact ⟨hstart, le_refl _, hend, le_refl _⟩

theorem selectTo_spec {target : Point} (mode : Option SelectionExpansion)
    (htarget : t.InBuffer target) (hpivot : t.InBuffer s.pivot) :
    (t.selectTo target mode s).WellFormed t.activeBuffer.getSize ∧ (t.selectTo target mode s).pivot = s.pivot := by
  obtain ⟨hstart, hend, -, hle, hle'⟩ := pivotSelection_spec htarget hpivot
  unfold selectTo
  dsimp only at *
  obtain ⟨hstart', hbefore, hend', hafter⟩ := expandSelectionAnchors_spec hstart hend
  split_ifs
  · exact ⟨⟨hstart', hpivot, hpivot, le_trans hbefore hle, le_refl _⟩, rfl⟩
  · exact ⟨⟨hpivot, hend', hpivot, le_refl _, le_trans hle' hafter⟩, rfl⟩
  · exact ⟨⟨hstart', hend', hpivot, le_trans hbefore hle, le_trans hle' hafter⟩, rfl⟩

theorem IsSound.withSelection {t' : TerminalCore} (h : t.IsSound) (hactive : t'.activeBuffer = t.activeBuffer)
    (hviewport : t'.getMutableViewport = t.getMutableViewport)
    (hselection : ∀ s ∈ t'.selection, s.WellFormed t.activeBuffer.getSize) : t'.IsSound := by
  unfold IsSound
  rw [hactive, hviewport]
  exact ⟨h.cursor, h.top, h.top_le, h.bottom, hselection⟩

theorem IsSound.select {t' : TerminalCore} (h : t.IsSound) (hactive : t'.activeBuffer = t.activeBuffer)
    (hviewport : t'.getMutableViewport = t.getMutableViewport) (hs : t'.selection = some s)
    (hwf : s.WellFormed t.activeBuffer.getSize) : t'.IsSound := by
  refine h.withSelection hactive hviewport ?_
  rw [hs]
  rintro _ ⟨⟩
  exact hwf

theorem setSelectionEnd_spec (h : Sound t.activeBuffer t.getMutableViewport none)
    (hs : t.selection = some s) (hpivot : t.InBuffer s.pivot) (pos : Point)
    (mode : Option SelectionExpansion) :
    (t.setSelectionEnd pos mode).IsSound ∧ (t.setSelectionEnd pos mode).activeBuffer = t.activeBuffer ∧
      (t.setSelectionEnd pos mode).getMutableViewport = t.getMutableViewport ∧
      ∃ s', (t.setSelectionEnd pos mode).selection = some s' ∧ s'.WellFormed t.activeBuffer.getSize := by
  have htarget : t.InBuffer (t.convertToBufferCell pos) := Viewport.contains_clamp h.isValid _
  obtain ⟨hwf, -⟩ := selectTo_spec (t := { t with multiClickSelectionMode := mode.getD t.multiClickSelectionMode })
    mode htarget hpivot
  unfold setSelectionEnd
  rw [hs]
  refine ⟨⟨h.cursor, h.top, h.top_le, h.bottom, ?_⟩, rfl, rfl, _, rfl, hwf⟩
  rintro _ ⟨⟩
  exact hwf

theorem IsSound.setSelectionEnd (h : t.IsSound) (pos : Point) (mode : Option SelectionExpansion) :
    (t.setSelectionEnd pos mode).IsSound := by
  cases hs : t.selection with
  | none =>
    unfold TerminalCore.setSelectionEnd
    rw [hs]
    exact h
  | some s => exact (setSelectionEnd_spec h.forget hs (h.selection s hs).pivot_contains pos mode).1

theorem isSound_startSelection (h : t.IsSound) (pos : Point) (mode : SelectionExpansion)
    (f : SelectionAnchors → SelectionAnchors)
    (hf : ∀ s, s.WellFormed t.activeBuffer.getSize → (f s).WellFormed t.activeBuffer.getSize) :
    let t₁ := { t with
                selection := some { pivot := t.convertToBufferCell pos }
                multiClickSelectionMode := mode }.setSelectionEnd pos none
    { t₁ with selection := t₁.selection.map f }.IsSound := by
  obtain ⟨hsound, hactive, hviewport, s, hs, hwf⟩ := setSelectionEnd_spec
    (t := { t with
            selection := some { pivot := t.convertToBufferCell pos }
            multiClickSelectionMode := mode })
    h.forget rfl (contains_convertToBufferCell h pos) pos none
  exact hsound.select rfl rfl (congrArg (Option.map f) hs) (hf s hwf)

theorem IsSound.multiClickSelection (h : t.IsSound) (pos : Point) (mode : SelectionExpansion) :
    (t.multiClickSelection pos mode).IsSound :=
  isSound_startSelection h pos mode _ fun _ hs =>
    ⟨hs.start_contains, hs.endPos_contains, hs.start_contains, le_refl _, hs.start_le_endPos⟩

theorem IsSound.setSelectionAnchor (h : t.IsSound) (pos : Point) : (t.setSelectionAnchor pos).IsSound :=
  isSound_startSelection h pos .char _ fun _ hs =>
    { hs with start_contains := hs.pivot_contains, start_le := le_refl _ }

/-! ## Mark mode -/

theorem IsSound.scrollToPoint (h : t.IsSound) (pos : Point) : (t.scrollToPoint pos).IsSound := by
  obtain ⟨_, heq⟩ := t.scrollToPoint_eq pos
  rw [heq]
  exact h

theorem IsSound.clearSelection (h : t.IsSound) : t.clearSelection.IsSound :=
  h.withSelection rfl rfl (by simp [TerminalCore.clearSelection])

theorem IsSound.toggleMarkMode (h : t.IsSound) : t.toggleMarkMode.IsSound := by
  unfold TerminalCore.toggleMarkMode
  by_cases hmark : t.selectionMode = .mark
  · rw [if_pos hmark]
    exact h.clearSelection
  rw [if_neg hmark]
  split
  · refine IsSound.scrollToPoint (t :=
      { t with selection := some ⟨_, _, _⟩, blockSelection := _, selectionEndpoint := _ }) ?_ _
    exact h.select rfl rfl rfl ⟨h.cursor, h.cursor, h.cursor, le_refl _, le_refl _⟩
  · have hscroll (selectionEndpoint : SelectionEndpoint) (pos : Point) :
        ({ t with selectionEndpoint }.scrollToPoint pos).IsSound :=
      IsSound.scrollToPoint (t := { t with selectionEndpoint }) h pos
    exact hscroll _ _

theorem IsSound.switchSelectionEndpoint (h : t.IsSound) : t.switchSelectionEndpoint.IsSound := by
  unfold TerminalCore.switchSelectionEndpoint
  split
  · exact h
  · next s hs =>
    have hwf := h.selection s hs
    split_ifs
    · exact h
    · exact h.select rfl rfl rfl ⟨hwf.start_contains, hwf.endPos_contains, hwf.endPos_contains,
        hwf.start_le_endPos, le_refl _⟩
    · exact h.select rfl rfl rfl ⟨hwf.start_contains, hwf.endPos_contains, hwf.start_contains,
        le_refl _, hwf.start_le_endPos⟩
    · exact h

theorem IsSound.expandSelectionToWord (h : t.IsSound) : t.expandSelectionToWord.IsSound := by
  unfold TerminalCore.expandSelectionToWord
  cases hs : t.selection with
  | none => exact h
  | some s =>
    have hwf := h.selection s hs
    have hleft := leftOf_getWordStart hwf.start_contains
    have hright := rightOf_getWordEnd hwf.endPos_contains
    exact h.select rfl rfl rfl ⟨hleft.contains, hright.contains, hleft.contains, le_refl _,
      le_trans (le_trans hleft.le hwf.start_le_endPos) hright.le⟩

theorem contains_origin (h : Sound t.activeBuffer t.getMutableViewport none) :
    t.InBuffer t.activeBuffer.getSize.origin := by
  have hin := inBuffer_iff.1 h.cursor
  rw [inBuffer_iff, origin_getSize]
  dsimp only
  omega

theorem contains_viewportEnd (h : Sound t.activeBuffer t.getMutableViewport none) : t.InBuffer
      ⟨t.activeBuffer.getSize.rightInclusive, t.getMutableViewport.bottomInclusive⟩ := by
  have hin := inBuffer_iff.1 h.cursor
  have htop := h.top
  have htop_le := h.top_le
  have hbottom := h.bottom
  rw [inBuffer_iff, getSize_rightInclusive]
  dsimp only
  omega

theorem IsSound.selectAll (h : t.IsSound) : t.selectAll.IsSound := by
  have hend := contains_viewportEnd h.forget
  have horigin := contains_origin h.forget
  refine IsSound.scrollToPoint (t := { t with selection := some ⟨_, _, _⟩, selectionMode := _ }) ?_ _
  refine h.select rfl rfl rfl ⟨horigin, hend, hend, ?_, le_refl _⟩
  have hin := inBuffer_iff.1 hend
  rw [origin_getSize, le_def]
  dsimp only at *
  omega

/-! ## The keyboard -/

section

variable {pos pivot : Point} (h : Sound t.activeBuffer t.getMutableViewport none) (hpos : t.InBuffer pos)

include h hpos

theorem contains_moveUp {rows : Int} (hrows : 0 ≤ rows) : t.InBuffer (t.moveUp rows pos) := by
  have hin := inBuffer_iff.1 hpos
  unfold moveUp
  dsimp only
  split_ifs with htop
  · exact contains_origin h
  · rw [getSize_top] at htop
    rw [inBuffer_iff]
    dsimp only
    omega

theorem contains_moveDown {rows : Int} (hrows : 0 ≤ rows) : t.InBuffer (t.moveDown rows pos) := by
  have hin := inBuffer_iff.1 hpos
  have hbottom := h.bottom
  unfold moveDown
  dsimp only
  split_ifs
  · exact contains_viewportEnd h
  · rw [inBuffer_iff]
    dsimp only
    omega

variable (direction : SelectionDirection)

theorem contains_moveByChar : t.InBuffer (t.moveByChar direction pos) := by
  cases direction with
  | left => exact (contains_getGlyphStart (contains_decrementInBounds hpos false).1).1
  | right => exact (rightOf_getGlyphEnd (contains_incrementInBounds hpos)).contains
  | up => exact contains_moveUp h hpos (by decide)
  | down => exact contains_moveDown h hpos (by decide)

theorem contains_moveByWord : t.InBuffer (t.moveByWord direction pivot pos) := by
  cases direction with
  | left =>
    unfold moveByWord
    dsimp only
    split_ifs
    · exact (contains_decrementInBounds (leftOf_getWordStart hpos).contains false).1
    · exact (leftOf_getWordStart (contains_decrementInBounds hpos false).1).contains
    · exact (leftOf_getWordStart hpos).contains
  | right =>
    unfold moveByWord
    dsimp only
    split_ifs
    · exact contains_incrementInBounds (rightOf_getWordEnd hpos).contains
    · exact (rightOf_getWordEnd (contains_incrementInBounds hpos)).contains
    · exact (rightOf_getWordEnd hpos).contains
  | up => exact (leftOf_getWordStart (contains_moveByChar h hpos .up)).contains
  | down => exact (rightOf_getWordEnd (contains_moveByChar h hpos .down)).contains

theorem contains_moveByViewport : t.InBuffer (t.moveByViewport direction pos) := by
  have hheight : 0 ≤ t.getMutableViewport.height := by
    have htop_le := h.top_le
    unfold Viewport.height Viewport.bottomExclusive
    omega
  have hin := inBuffer_iff.1 hpos
  cases direction with
  | left =>
    simp only [moveByViewport, inBuffer_iff, getSize_left]
    omega
  | right =>
    simp only [moveByViewport, inBuffer_iff, getSize_rightInclusive]
    omega
  | up => exact contains_moveUp h hpos hheight
  | down => exact contains_moveDown h hpos hheight

theorem contains_movePos (mode : SelectionExpansion) : t.InBuffer (t.movePos direction mode pivot pos) := by
  cases mode with
  | char => exact contains_moveByChar h hpos direction
  | word => exact contains_moveByWord h hpos direction
  | viewport => exact contains_moveByViewport h hpos direction
  | buffer =>
    cases direction with
    | left => exact contains_origin h
    | up => exact contains_origin h
    | right => exact contains_viewportEnd h
    | down => exact contains_viewportEnd h
  | line => exact hpos

end

theorem contains_movingEndpoint (h : t.IsSound) (hs : t.selection = some s) (shift : Bool) :
    t.InBuffer (t.movingEndpoint shift s) := by
  have hwf := h.selection s hs
  unfold movingEndpoint
  split_ifs
  · exact hwf.start_contains
  · exact hwf.endPos_contains
  · exact hwf.start_contains
  · exact hwf.endPos_contains

theorem IsSound.updateSelection {t' : TerminalCore} {direction : SelectionDirection}
    {mode : SelectionExpansion} {shift : Bool}
    (h : t.IsSound) (hupdate : t.updateSelection direction mode shift = some t') : t'.IsSound := by
  obtain ⟨s, hs, rfl⟩ := map_eq_some_iff.1 hupdate
  have htarget : t.InBuffer (t.movePos direction mode s.pivot (t.movingEndpoint shift s)) :=
    contains_movePos h.forget (contains_movingEndpoint h hs shift) direction mode
  have hanchors := pivotSelection_spec htarget (h.selection s hs).pivot_contains
  refine IsSound.scrollToPoint ?_ _
  split_ifs
  · exact h.select rfl rfl rfl ⟨htarget, htarget, htarget, le_refl _, le_refl _⟩
  · exact h.select rfl rfl rfl hanchors

/-! ## Every run -/

/-- The size stays, and the client keeps cursor and viewport inside of it. -/
def Steady (t : TerminalCore) : TerminalOp → Prop
  | .output cursor _ => t.activeBuffer.getSize.Contains cursor
  | .setViewportPosition position =>
    0 ≤ position.y ∧ position.y + t.getMutableViewport.height ≤ t.activeBuffer.size.height
  | .userResize _ _ _ | .useAlternateScreenBuffer | .useMainScreenBuffer _ => False
  | _ => True

theorem IsSound.setViewportPosition (h : t.IsSound) (hposition : t.Steady (.setViewportPosition position)) :
    (t.setViewportPosition position).IsSound := by
  unfold TerminalCore.setViewportPosition
  split_ifs with halt
  · exact h
  · have hviewport : { t with
        mutableViewport := .fromDimensions position t.getMutableViewport.dimensions }.getMutableViewport =
          .fromDimensions position t.getMutableViewport.dimensions := if_neg halt
    have htop_le := h.top_le
    obtain ⟨hy, hheight⟩ := hposition
    unfold IsSound
    rw [hviewport]
    refine ⟨h.cursor, ?_, ?_, ?_, h.selection⟩
    all_goals
      simp only [Viewport.fromDimensions, Viewport.dimensions, Viewport.height, Viewport.bottomExclusive] at *
    · exact hy
    · omega
    · change _ < t.activeBuffer.size.height
      omega

theorem step_isSound (t : TerminalCore) (op : TerminalOp) (t' : TerminalCore) (h : t.IsSound) (hop : t.Steady op)
    (hstep : t.step op = some t') : t'.IsSound := by
  cases op with
  | lineFeed withReturn => exact of_step hstep (h.lineFeed withReturn)
  | output cursor text => exact of_step hstep (h.setCursor _ (fun _ => rfl) hop)
  | setViewportPosition position => exact of_step hstep (h.setViewportPosition hop)
  | userScrollViewport viewTop =>
    obtain rfl := some.inj hstep
    unfold userScrollViewport
    split_ifs
    · exact h
    · exact h
  | userResize => exact hop.elim
  | useAlternateScreenBuffer => exact hop.elim
  | useMainScreenBuffer => exact hop.elim
  | setSelectionAnchor pos => exact of_step hstep (h.setSelectionAnchor pos)
  | setSelectionEnd pos mode => exact of_step hstep (h.setSelectionEnd pos mode)
  | multiClickSelection pos mode => exact of_step hstep (h.multiClickSelection pos mode)
  | setBlockSelection isEnabled => exact of_step hstep h
  | updateSelection direction mode shift => exact h.updateSelection hstep
  | toggleMarkMode => exact of_step hstep h.toggleMarkMode
  | switchSelectionEndpoint => exact of_step hstep h.switchSelectionEndpoint
  | expandSelectionToWord => exact of_step hstep h.expandSelectionToWord
  | selectAll => exact of_step hstep h.selectAll
  | clearSelection => exact of_step hstep h.clearSelection
  | _ => exact h.of_onlyMarks (onlyMarks_of_step rfl hstep)

theorem isSound_create {viewportSize : Size} {scrollbackLines : Int}
    (hheight : 1 ≤ viewportSize.height ∧ viewportSize.height ≤ shrtMax) (hscrollback : 0 ≤ scrollbackLines) :
    (create viewportSize scrollbackLines).IsSound := by
  unfold shrtMax at hheight
  refine ⟨contains_getSize_iff.2 ?_, ?_, ?_, ?_, by simp [create]⟩
  all_goals
    simp only [create, activeBuffer, getMutableViewport, inAltBuffer, getD_none, isSome_none,
      Bool.false_eq_true, if_false, Viewport.fromDimensions, bufferSizeFor, Viewport.clampBetween, shrtMax]
  · split_ifs <;> omega
  · omega
  · omega
  · split_ifs <;> omega

theorem run_selection_wellFormed {t' : TerminalCore} {ops : List TerminalOp} (h : t.IsSound)
    (hops : Steps.Along step Steady t ops) (hrun : t.run ops = some t') :
    ∀ s ∈ t'.selection, s.start ≤ s.endPos ∧ t'.activeBuffer.getSize.Contains s.start ∧
      t'.activeBuffer.getSize.Contains s.endPos ∧ t'.activeBuffer.getSize.Contains s.pivot ∧
      s.start ≤ s.pivot ∧ s.pivot ≤ s.endPos := by
  intro s hs
  have hwf := (Steps.run_keeps step_isSound h hops hrun).selection s hs
  exact ⟨hwf.start_le_endPos, hwf.start_contains, hwf.endPos_contains, hwf.pivot_contains, hwf.start_le, hwf.le_endPos⟩

theorem run_selection_wellFormed_cycled : ∃ t' s, (create ⟨4, 2⟩ 0).run
        [.multiClickSelection ⟨1, 0⟩ .word, .updateSelection .right .word true, .lineFeed true,
          .lineFeed true] = some t' ∧
      t'.selection = some s ∧ s.start ≤ s.endPos ∧ t'.activeBuffer.getSize.Contains s.start ∧
      t'.activeBuffer.getSize.Contains s.endPos ∧ t'.activeBuffer.getSize.Contains s.pivot ∧
      s.start ≤ s.pivot ∧ s.pivot ≤ s.endPos := by
  have hsound : (create ⟨4, 2⟩ 0).IsSound := isSound_create (by decide) (by decide)
  refine ⟨_, _, rfl, rfl, @run_selection_wellFormed (create ⟨4, 2⟩ 0) _
    [.multiClickSelection ⟨1, 0⟩ .word, .updateSelection .right .word true, .lineFeed true, .lineFeed true]
    hsound (Steps.along_of_forall ?_) rfl _ rfl⟩
  simp [Steady]

end

end TerminalCore

end Terminal.Core
