import Terminal.Core.Selection

/-!
# Marks of the shell integration

Marks of the prompt, command and output of a client keep positions, which go up when rows are
pushed off. A handler writes to the last mark.
-/

namespace Terminal.Core

open Terminal.Types

namespace TerminalCore

/-! ## Marks that follow their text -/

@[simp] theorem scrollMarks_modifyActiveBuffer (f : Screen → Screen) (t : TerminalCore) :
    (t.modifyActiveBuffer f).scrollMarks = t.scrollMarks := by
  unfold modifyActiveBuffer
  split <;> rfl

theorem scrollMarks_cycleRow (t : TerminalCore) : t.cycleRow.scrollMarks = t.scrollMarks := by simp [cycleRow]

theorem scrollMarks_iterate_cycleRow (n : Nat) (t : TerminalCore) : (cycleRow^[n] t).scrollMarks = t.scrollMarks := by
  induction n generalizing t with
  | zero => rfl
  | succ n ih => rw [Function.iterate_succ_apply, ih, scrollMarks_cycleRow]

@[simp] theorem scrollMarks_followCursor (position : Point) (newRows : Int) (t : TerminalCore) :
    (t.followCursor position newRows).scrollMarks = t.scrollMarks := by
  unfold followCursor
  split <;> rfl

def rowsOfLineFeed (t : TerminalCore) : Int := t.newRows (t.activeBuffer.cursor.y + 1)

theorem scrollMarks_lineFeed (withReturn : Bool) (t : TerminalCore) : (t.lineFeed withReturn).scrollMarks =
      if t.rowsOfLineFeed ≠ 0 then
        (t.scrollMarks.map (ScrollMark.move t.rowsOfLineFeed)).filter fun m => 0 ≤ m.start.y
      else t.scrollMarks := by
  rw [lineFeed, adjustCursorPosition, moveMarks]
  dsimp only
  split
  all_goals simp [rowsOfLineFeed, scrollMarks_iterate_cycleRow, *]

end TerminalCore

def ScrollMark.up (rows : Int) (mark : ScrollMark) : ScrollMark :=
  { mark.move rows with endPos := pointUp rows mark.endPos }

theorem ScrollMark.move_eq_up_iff {rows : Int} {mark : ScrollMark} : mark.move rows = mark.up rows ↔ rows = 0 := by
  constructor
  · intro h
    have hend : mark.endPos = pointUp rows mark.endPos := congrArg ScrollMark.endPos h
    have hrow : mark.endPos.y = mark.endPos.y - rows := congrArg Point.y hend
    omega
  · rintro rfl
    simp [ScrollMark.up, ScrollMark.move, pointUp]

def followText (rows : Int) (marks : List ScrollMark) : List ScrollMark :=
  (marks.filter fun m => rows ≤ m.start.y).map (ScrollMark.up rows)

namespace TerminalCore

variable {t : TerminalCore}

/-- If a line feed cycles the buffer, the marks stay on their text. -/
def MarksFollow (t : TerminalCore) : TerminalOp → Prop
  | .lineFeed withReturn =>
    0 < t.rowsOfLineFeed → (t.lineFeed withReturn).scrollMarks = followText t.rowsOfLineFeed t.scrollMarks
  | _ => True

def MarksLeave (t : TerminalCore) : TerminalOp → Prop
  | .lineFeed _ => 0 < t.rowsOfLineFeed → ∀ mark ∈ t.scrollMarks, mark.start.y < t.rowsOfLineFeed
  | _ => True

theorem scrollMarks_lineFeed_of_pos (withReturn : Bool) (h : 0 < t.rowsOfLineFeed) :
    (t.lineFeed withReturn).scrollMarks =
      (t.scrollMarks.filter fun m => t.rowsOfLineFeed ≤ m.start.y).map (ScrollMark.move t.rowsOfLineFeed) := by
  rw [scrollMarks_lineFeed, if_pos h.ne', List.filter_map]
  congr 2
  ext mark
  simp [ScrollMark.move, pointUp]

theorem marksFollow_iff (t : TerminalCore) (op : TerminalOp) : t.MarksFollow op ↔ t.MarksLeave op := by
  cases op with
  | lineFeed withReturn =>
    unfold MarksFollow MarksLeave followText
    apply imp_congr_right
    intro hpos
    rw [scrollMarks_lineFeed_of_pos withReturn hpos, List.map_inj_left]
    constructor
    · intro h mark hmark
      by_contra hstays
      have hkept := h mark (List.mem_filter.2 ⟨hmark, by simpa using hstays⟩)
      exact hpos.ne' (ScrollMark.move_eq_up_iff.1 hkept)
    · intro h mark hmark
      rw [List.mem_filter, decide_eq_true_iff] at hmark
      exact absurd hmark.2 (not_le.2 (h mark hmark.1))
  | _ => rfl

theorem run_marks_follow_iff (t : TerminalCore) (ops : List TerminalOp) :
    Steps.Along step MarksFollow t ops ↔ Steps.Along step MarksLeave t ops :=
  Steps.along_congr fun t op _ => marksFollow_iff t op

/-- The mark of the second row, after a line feed there. -/
theorem lineFeed_loses_end : ¬Steps.Along step MarksFollow (create ⟨80, 2⟩ 0)
      [.lineFeed true, .markPrompt { category := .prompt }, .lineFeed true] := by
  intro h
  have hlast := (h.2 _ rfl).2 _ rfl
  have hmarks := hlast.1 (by decide)
  revert hmarks
  decide

/-! ## Marks to write to -/

theorem isSome_modifyLastMark (f : ScrollMark → ScrollMark) (t : TerminalCore) :
    (t.modifyLastMark f).isSome ↔ t.scrollMarks ≠ [] := by
  simp [modifyLastMark]

theorem scrollMarks_of_modifyLastMark {f : ScrollMark → ScrollMark} {t' : TerminalCore}
    (h : t.modifyLastMark f = some t') :
    t'.scrollMarks ≠ [] := by
  obtain ⟨mark, -, rfl⟩ := Option.map_eq_some_iff.1 h
  simp

theorem scrollMarks_addMark_ne_nil (mark : ScrollMark) (start endPos : Point) (t : TerminalCore) :
    (t.addMark mark start endPos false).scrollMarks ≠ [] ↔ t.inAltBuffer = false ∨ t.scrollMarks ≠ [] := by
  unfold addMark
  cases halt : t.inAltBuffer <;> simp

theorem scrollMarks_ensureMark_ne_nil (state : PromptState) (t : TerminalCore) :
    (t.ensureMark state).scrollMarks ≠ [] ↔ t.inAltBuffer = false ∨ t.scrollMarks ≠ [] := by
  unfold ensureMark
  split_ifs with h
  · have hne : t.scrollMarks ≠ [] := List.length_pos_iff.1 h.2
    simp [hne]
  · exact scrollMarks_addMark_ne_nil _ _ _ t

theorem isSome_markCommandStart (t : TerminalCore) :
    t.markCommandStart.isSome ↔ t.inAltBuffer = false ∨ t.scrollMarks ≠ [] := by
  rw [← scrollMarks_ensureMark_ne_nil .prompt, ← isSome_modifyLastMark
    fun m => { m with endPos := t.activeBuffer.cursor }, markCommandStart]
  simp

theorem isSome_markOutputStart (t : TerminalCore) :
    t.markOutputStart.isSome ↔ t.inAltBuffer = false ∨ t.scrollMarks ≠ [] := by
  rw [← scrollMarks_ensureMark_ne_nil .command,
    ← isSome_modifyLastMark fun m => { m with commandEnd := some t.activeBuffer.cursor }, markOutputStart]
  simp

theorem isSome_markCommandFinish (error : Option Nat) (t : TerminalCore) :
    (t.markCommandFinish error).isSome ↔ t.inAltBuffer = false ∨ t.scrollMarks ≠ [] := by
  unfold markCommandFinish
  dsimp only
  split_ifs with h
  · have hne : t.scrollMarks ≠ [] := List.length_pos_iff.1 h.2
    simpa [hne] using (isSome_modifyLastMark _ t).2 hne
  · rw [← scrollMarks_addMark_ne_nil { category := .prompt } t.activeBuffer.cursor t.activeBuffer.cursor,
      ← isSome_modifyLastMark fun m => { m with commandEnd := some t.activeBuffer.cursor }]
    cases hmade : (t.addMark _ _ _ false).modifyLastMark _ with
    | none => simp
    | some made => simpa using (isSome_modifyLastMark _ made).2 (scrollMarks_of_modifyLastMark hmade)

/-- A handler of the last mark comes in the main buffer, or there is a mark. -/
def HasMark (t : TerminalCore) : TerminalOp → Prop
  | .markCommandStart | .markOutputStart | .markCommandFinish _ => t.inAltBuffer = false ∨ t.scrollMarks ≠ []
  | _ => True

instance (t : TerminalCore) : (op : TerminalOp) → Decidable (t.HasMark op)
  | .markCommandStart | .markOutputStart | .markCommandFinish _ => inferInstanceAs (Decidable (_ ∨ _))
  | .lineFeed _ | .output _ _ | .setViewportPosition _ | .userScrollViewport _ | .userResize _ _ _
  | .useAlternateScreenBuffer | .useMainScreenBuffer _ | .setSelectionAnchor _ | .setSelectionEnd _ _
  | .multiClickSelection _ _ | .setBlockSelection _ | .updateSelection _ _ _ | .toggleMarkMode
  | .switchSelectionEndpoint | .expandSelectionToWord | .selectAll | .clearSelection | .markPrompt _
  | .addMark _ _ _ _ | .clearMark | .clearAllMarks => .isTrue trivial

def NoKeyboard : TerminalOp → Prop
  | .updateSelection _ _ _ => False
  | _ => True

theorem isSome_step_iff {op : TerminalOp} (hop : NoKeyboard op) : (t.step op).isSome ↔ t.HasMark op := by
  cases op with
  | markCommandStart => exact isSome_markCommandStart t
  | markOutputStart => exact isSome_markOutputStart t
  | markCommandFinish error => exact isSome_markCommandFinish error t
  | updateSelection => exact hop.elim
  | _ => exact iff_of_true rfl trivial

theorem run_marks_isSome_iff (t : TerminalCore) (ops : List TerminalOp) (hops : ∀ op ∈ ops, NoKeyboard op) :
    (t.run ops).isSome ↔ Steps.Along step HasMark t ops := by
  rw [run, Steps.isSome_run_iff]
  exact Steps.along_congr fun t op hop => isSome_step_iff (hops op hop)

theorem run_marks_isSome_promptThenAlternate : ((create ⟨80, 24⟩ 100).run
      [.markPrompt { category := .prompt }, .markCommandStart, .useAlternateScreenBuffer, .markOutputStart,
        .markCommandFinish (some 0)]).isSome := by
  rw [run_marks_isSome_iff _ _ (by simp [NoKeyboard])]
  decide

/-- The alternate buffer refuses the mark of the first command. -/
theorem markCommandStart_in_alternate_buffer :
    ((create ⟨80, 24⟩ 100).run [.useAlternateScreenBuffer, .markCommandStart]).isSome = false := rfl

end TerminalCore

end Terminal.Core
