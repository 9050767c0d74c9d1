import Mathlib.Data.List.Induction
import Terminal.Parser.InputEngine

/-!
# Double clicks (`InputStateMachineEngine.cpp`)

The engine remembers the last button report, and drags are button reports too.
-/

namespace Terminal.Parser

open CsiActionCodes

structure MouseReport where
  now : Int
  id : VTID
  sgrEncoding : Nat
  uiPos : Int × Int

namespace MouseReport

def buttonID (r : MouseReport) : Nat := (r.sgrEncoding &&& 0x3) ||| ((r.sgrEncoding &&& 0xC0) >>> 4)

/-- The left, middle or right button goes down or is held. -/
def IsButton (r : MouseReport) : Prop := r.id = mouseDown ∧ r.buttonID ≤ 2

def Drags (r : MouseReport) : Prop := r.sgrEncoding &&& 32 ≠ 0

def IsPress (r : MouseReport) : Prop := r.IsButton ∧ ¬r.Drags

def Repeats (time : Int) (r' r : MouseReport) : Prop :=
  r'.buttonID = r.buttonID ∧ r'.uiPos = r.uiPos ∧ r.now - r'.now < time

end MouseReport

namespace InputEngine

open MouseReport

variable {e : InputEngine} {r : MouseReport}

def report (e : InputEngine) (r : MouseReport) : Option (BitVec 32 × BitVec 32) × InputEngine :=
  e.updateSGRMouseButtonState r.now r.id r.sgrEncoding r.uiPos

def reports (e : InputEngine) (rs : List MouseReport) : InputEngine := rs.foldl (fun e r => (e.report r).2) e

def IsDouble (e : InputEngine) (r : MouseReport) : Prop := ∃ state ∈ (e.report r).1, state.2 &&& DOUBLE_CLICK ≠ 0

structure Remembers (e : InputEngine) (r : MouseReport) : Prop where
  pos : e.lastMouseClickPos = some r.uiPos
  time : e.lastMouseClickTime = some r.now
  button : e.lastMouseClickButton = some r.buttonID

/-- A double click repeats the last press, itself no double click. -/
def DoubleClicksAreSecond (e : InputEngine) (rs : List MouseReport) : Prop :=
  ∀ pre r post, rs = pre ++ r :: post → (e.reports pre).IsDouble r → r.IsPress ∧
    ∃ pre₁ r' pre₂, pre = pre₁ ++ r' :: pre₂ ∧ r'.IsPress ∧ (∀ x ∈ pre₂, ¬x.IsPress) ∧ Repeats e.doubleClickTime r' r ∧
      ¬(e.reports pre₁).IsDouble r'

/-- Where a button report repeats the last, neither is a drag. -/
def NoDragRepeats (time : Int) (rs : List MouseReport) : Prop :=
  ∀ pre₁ r' pre₂ r post, rs = pre₁ ++ r' :: pre₂ ++ r :: post → r'.IsButton → r.IsButton →
    (∀ x ∈ pre₂, ¬x.IsButton) → Repeats time r' r → ¬r'.Drags ∧ ¬r.Drags

def Last (e : InputEngine) : Option MouseReport → Prop
  | none => e.lastMouseClickPos = none
  | some r' => e.Remembers r'

theorem Last.of_state {last : Option MouseReport} (h : e.Last last) (state : BitVec 32) :
    { e with mouseButtonState := state }.Last last := by
  cases last with
  | none => exact h
  | some r' => exact ⟨h.pos, h.time, h.button⟩

theorem buttonFlags_spec (b : Nat) : (buttonFlags b = none ∧ 5 < b) ∨
    ∃ flag wheel wheeled, buttonFlags b = some (flag, wheel, wheeled) ∧ b ≤ 5 ∧
      (wheeled = 0 ∨ wheeled = MOUSE_WHEELED) := by
  obtain _ | _ | _ | _ | _ | _ | b := b
  iterate 6 exact Or.inr ⟨_, _, _, rfl, by omega, by decide⟩
  exact Or.inl ⟨rfl, by omega⟩

theorem flags_double {wheeled click : BitVec 32} (hwheeled : wheeled = 0 ∨ wheeled = MOUSE_WHEELED)
    (hclick : click = 0 ∨ click = DOUBLE_CLICK) (moved : Bool) :
    (wheeled ||| click ||| flagIf moved MOUSE_MOVED) &&& DOUBLE_CLICK ≠ 0 ↔ click = DOUBLE_CLICK := by
  obtain rfl | rfl := hwheeled <;> obtain rfl | rfl := hclick <;> cases moved <;> decide

def clicked (e : InputEngine) (r : MouseReport) : BitVec 32 × InputEngine :=
  if r.id = mouseDown ∧ r.buttonID ≤ 5 then e.trackClick r.now r.buttonID r.uiPos else (0, e)

theorem report_eq (e : InputEngine) (r : MouseReport) : (e.IsDouble r ↔ (e.clicked r).1 = DOUBLE_CLICK) ∧
    ∃ state, (e.report r).2 = { (e.clicked r).2 with mouseButtonState := state } := by
  have hclick : (e.clicked r).1 = 0 ∨ (e.clicked r).1 = DOUBLE_CLICK := by
    unfold clicked trackClick
    split_ifs <;> simp
  have hb : r.sgrEncoding &&& 3 ||| (r.sgrEncoding &&& 192) >>> 4 = r.buttonID := rfl
  unfold IsDouble report updateSGRMouseButtonState
  simp only [hb]
  unfold clicked at *
  obtain ⟨hflags, hb⟩ | ⟨flag, wheel, wheeled, hflags, hb, hwheeled⟩ := buttonFlags_spec r.buttonID
  · simp only [hflags, Nat.not_le.2 hb, and_false, if_false]
    exact ⟨by simp [DOUBLE_CLICK], _, rfl⟩
  · simp only [hflags, hb, and_true] at *
    split_ifs at * with hdown hup
    · simpa only [Option.mem_def, Option.some.injEq, exists_eq_left', flags_double hwheeled hclick,
        true_and] using ⟨_, rfl⟩
    · have := flags_double hwheeled (Or.inl rfl) (r.sgrEncoding &&& 32 != 0)
      simpa using this
    · exact ⟨by simp [DOUBLE_CLICK], _, rfl⟩

theorem report_spec {last : Option MouseReport} (h : e.Last last) (hbutton : ∀ r' ∈ last,
    r'.IsButton) (r : MouseReport) : (e.report r).2.doubleClickTime = e.doubleClickTime ∧
      (e.IsDouble r → (r.IsButton ∧ ∃ r' ∈ last, Repeats e.doubleClickTime r' r) ∧ (e.report r).2.Last none) ∧
      (¬e.IsDouble r → (r.IsButton → (e.report r).2.Last (some r)) ∧ (¬r.IsButton → (e.report r).2.Last last)) := by
  obtain ⟨hdouble, state, hreport⟩ := report_eq e r
  rw [hdouble, hreport]
  have hzero : (0 : BitVec 32) ≠ DOUBLE_CLICK := by decide
  unfold clicked trackClick IsButton
  dsimp only
  split_ifs with hdown hmatch hsingle
  · refine ⟨rfl, fun _ => ⟨?_, rfl⟩, fun hne => absurd rfl hne⟩
    cases last with
    | none => exact absurd hmatch.1 (by simp [show e.lastMouseClickPos = none from h])
    | some r' =>
      obtain ⟨hpos, htime, hid⟩ := hmatch
      rw [h.pos, h.time, h.button, Option.some.injEq] at *
      have hle := (hbutton r' rfl).2
      exact ⟨⟨hdown.1, by omega⟩, r', rfl, by omega, hpos, of_decide_eq_true htime⟩
  · exact ⟨rfl, fun heq => absurd heq hzero, fun _ => ⟨fun _ => ⟨rfl, rfl, rfl⟩, fun hno => absurd
      ⟨hdown.1, by omega⟩ hno⟩⟩
  · exact ⟨rfl, fun heq => absurd heq hzero, fun _ => ⟨fun hyes => absurd hyes.2 (by omega), fun _ => h.of_state state⟩⟩
  · exact ⟨rfl, fun heq => absurd heq hzero, fun _ => ⟨fun hyes => absurd ⟨hyes.1, by omega⟩ hdown,
      fun _ => h.of_state state⟩⟩

theorem exists_last (he : e.Last none) (rs : List MouseReport) : (e.reports rs).doubleClickTime = e.doubleClickTime ∧
    ∃ last, (e.reports rs).Last last ∧ ∀ r' ∈ last, r'.IsButton ∧
      ∃ pre₁ pre₂, rs = pre₁ ++ r' :: pre₂ ∧ (∀ x ∈ pre₂, ¬x.IsButton) ∧ ¬(e.reports pre₁).IsDouble r' := by
  induction rs using List.reverseRecOn with
  | nil => exact ⟨rfl, none, he, by simp⟩
  | append_singleton rs r ih =>
    obtain ⟨htime, last, hlast, hsplit⟩ := ih
    obtain ⟨htime', hdouble, hsingle⟩ := report_spec hlast (fun r' hr' => (hsplit r' hr').1) r
    rw [reports, List.foldl_concat]
    refine ⟨htime'.trans htime, ?_⟩
    by_cases hd : (e.reports rs).IsDouble r
    · exact ⟨none, (hdouble hd).2, by simp⟩
    by_cases hr : r.IsButton
    · refine ⟨some r, (hsingle hd).1 hr, ?_⟩
      intro r' hr'
      obtain rfl := Option.some.inj hr'
      exact ⟨hr, rs, [], rfl, by simp, hd⟩
    · refine ⟨last, (hsingle hd).2 hr, fun r' hr' => ?_⟩
      obtain ⟨hbutton, pre₁, pre₂, rfl, hno, hnot⟩ := hsplit r' hr'
      refine ⟨hbutton, pre₁, pre₂ ++ [r], by simp, fun x hx => ?_, hnot⟩
      obtain hx | hx := List.mem_append.1 hx
      · exact hno x hx
      · exact List.mem_singleton.1 hx ▸ hr

/-- Without repeated drags, a double click is the second press of two. -/
theorem doubleClicks_are_second (he : e.Last none) {rs : List MouseReport}
    (hdrag : NoDragRepeats e.doubleClickTime rs) :
    e.DoubleClicksAreSecond rs := by
  rintro pre r post rfl hdouble
  obtain ⟨htime, last, hlast, hsplit⟩ := exists_last he pre
  obtain ⟨⟨hr, r', hr', hrepeats⟩, -⟩ := (report_spec hlast (fun r' hr' => (hsplit r' hr').1) r).2.1 hdouble
  obtain ⟨hbutton, pre₁, pre₂, rfl, hno, hnot⟩ := hsplit r' hr'
  rw [htime] at hrepeats
  obtain ⟨hdrag', hdrag⟩ := hdrag pre₁ r' pre₂ r post rfl hbutton hr hno hrepeats
  exact ⟨⟨hr, hdrag⟩, pre₁, r', pre₂, rfl, ⟨hbutton, hdrag'⟩, fun x hx hpress => hno x hx hpress.1, hrepeats, hnot⟩

theorem noDragRepeats_of_no_drags {time : Int} {rs : List MouseReport} (h : ∀ r ∈ rs, ¬r.Drags) :
    NoDragRepeats time rs := by
  rintro pre₁ r' pre₂ r post rfl - - - -
  exact ⟨h r' (by simp), h r (by simp)⟩

/-- A press, the release, and the press that makes it a double click. -/
theorem doubleClicks_are_second_press : ({ doubleClickTime := 500 } : InputEngine).DoubleClicksAreSecond
    [⟨0, mouseDown, 0, (5, 5)⟩, ⟨50, mouseUp, 0, (5, 5)⟩, ⟨100, mouseDown, 0, (5, 5)⟩] ∧
    (({ doubleClickTime := 500 } : InputEngine).reports
      [⟨0, mouseDown, 0, (5, 5)⟩, ⟨50, mouseUp, 0, (5, 5)⟩]).IsDouble ⟨100, mouseDown, 0, (5, 5)⟩ := by
  constructor
  · apply doubleClicks_are_second (show Last { doubleClickTime := 500 } none from rfl)
    exact noDragRepeats_of_no_drags (by simp [Drags])
  · exact ⟨_, rfl, by decide⟩

/-- A press and a drag that does not leave its cell. -/
theorem not_doubleClicks_are_second_drag : ¬({ doubleClickTime := 500 } : InputEngine).DoubleClicksAreSecond
    [⟨0, mouseDown, 0, (5, 5)⟩, ⟨10, mouseDown, 32, (5, 5)⟩] := fun h =>
  (h [⟨0, mouseDown, 0, (5, 5)⟩] ⟨10, mouseDown, 32, (5, 5)⟩ [] rfl ⟨_, rfl, by decide⟩).1.2 (by unfold Drags; decide)

end InputEngine

end Terminal.Parser
