import Terminal.Buffer.Row
import Terminal.Types.Positions

/-!
# The cell iterator (`textBufferCellIterator.cpp`)

`operator+=` is written out by hand. Its comment gives the loop that it stands for.
-/

namespace Terminal.Buffer

open Terminal.Types Viewport

variable {G A : Type}

structure RowCells (G A : Type) where
  glyphAt : Int → G
  dbcsAttrAt : Int → DbcsAttribute
  attrs : Int → A

structure AttrIter (A : Type) where
  attrs : Int → A
  offset : Int

structure CellView (G A : Type) where
  text : G
  dbcsAttr : DbcsAttribute
  textAttr : A

structure CellIterator (G A : Type) where
  pos : Types.Point
  row : RowCells G A
  attrIter : AttrIter A
  view : CellView G A
  exceeded : Bool

namespace CellIterator

def generateView (it : CellIterator G A) : CellIterator G A :=
  { it with
    view := ⟨it.row.glyphAt it.pos.x, it.row.dbcsAttrAt it.pos.x, it.attrIter.attrs it.attrIter.offset⟩ }

section
variable (buffer : Int → RowCells G A) (bounds : Types.Viewport)

def start (pos : Types.Point) : CellIterator G A :=
  let row := buffer pos.y
  ⟨pos, row, ⟨row.attrs, pos.x⟩, ⟨row.glyphAt pos.x, row.dbcsAttrAt pos.x, row.attrs pos.x⟩, false⟩

def setPos (newPos : Types.Point) (it : CellIterator G A) : CellIterator G A :=
  let it := if newPos.y ≠ it.pos.y then
      { it with row := buffer newPos.y, attrIter := ⟨(buffer newPos.y).attrs, 0⟩, pos := ⟨0, it.pos.y⟩ }
    else it
  let it := if newPos.x ≠ it.pos.x then
      { it with attrIter := ⟨it.attrIter.attrs, it.attrIter.offset + (newPos.x - it.pos.x)⟩ }
    else it
  generateView { it with pos := newPos }

def walkChecked (step : Types.Point → Types.Point × Bool) : Nat → Types.Point → Bool → Types.Point × Bool
  | 0, newPos, exceeded => (newPos, exceeded)
  | move + 1, newPos, exceeded =>
    if exceeded then (newPos, exceeded) else walkChecked step move (step newPos).1 (!(step newPos).2)

def reference (move : Nat) (it : CellIterator G A) : CellIterator G A :=
  let walked := walkChecked bounds.incrementInBounds move it.pos it.exceeded
  setPos buffer walked.1 { it with exceeded := walked.2 }

def retreat (move : Nat) (it : CellIterator G A) : CellIterator G A :=
  let walked := walkChecked bounds.decrementInBounds move it.pos it.exceeded
  generateView (setPos buffer walked.1 { it with exceeded := walked.2 })

/-- The loop of `operator+=`: the new position and the flag. -/
def walk : Nat → Types.Point → Bool → Types.Point × Bool
  | 0, new, exceeded => (new, exceeded)
  | move + 1, new, exceeded =>
    if new.x = bounds.rightInclusive then
      if new.y + 1 > bounds.bottomInclusive then (⟨bounds.left, bounds.top⟩, true)
      else walk move ⟨bounds.left, new.y + 1⟩ exceeded
    else walk move ⟨new.x + 1, new.y⟩ false

def advance (movement : Int) (it : CellIterator G A) : CellIterator G A :=
  if movement < 0 then retreat buffer bounds (-movement).toNat it
  else
    let walked := walk bounds movement.toNat it.pos it.exceeded
    let new := walked.1
    if walked.2 then { it with exceeded := true }
    else if new.y = it.pos.y then
      let attrIter : AttrIter A := ⟨it.attrIter.attrs, it.attrIter.offset + (new.x - it.pos.x)⟩
      { it with
        exceeded := false, pos := ⟨new.x, it.pos.y⟩, attrIter
        view := ⟨it.row.glyphAt new.x, it.row.dbcsAttrAt new.x, attrIter.attrs attrIter.offset⟩ }
    else
      let row := buffer new.y
      generateView { it with exceeded := false, pos := new, row, attrIter := ⟨row.attrs, new.x⟩ }

/-! ## Iterators at a position -/

def atPos (pos : Types.Point) (exceeded : Bool) : CellIterator G A where
  pos
  row := buffer pos.y
  attrIter := ⟨(buffer pos.y).attrs, pos.x⟩
  view := ⟨(buffer pos.y).glyphAt pos.x, (buffer pos.y).dbcsAttrAt pos.x, (buffer pos.y).attrs pos.x⟩
  exceeded

variable {buffer bounds} {p : Types.Point} {exceeded : Bool}

theorem setPos_atPos (q : Types.Point) : setPos buffer q (atPos buffer p exceeded) = atPos buffer q exceeded := by
  unfold setPos atPos generateView
  dsimp only
  split_ifs with hy hx hx
  all_goals simp_all

theorem advance_atPos (n : Nat) : advance buffer bounds n (atPos buffer p exceeded) =
    if (walk bounds n p exceeded).2 then atPos buffer p true else atPos buffer (walk bounds n p exceeded).1 false := by
  unfold advance atPos generateView
  simp only [Int.toNat_natCast, if_neg (show ¬(n : Int) < 0 by omega)]
  split_ifs with he hy
  · rfl
  · simp [← hy]
  · rfl

theorem walkChecked_true (step : Types.Point → Types.Point × Bool) (n : Nat) :
    walkChecked step n p true = (p, true) := by
  cases n <;> rfl

theorem walkChecked_false (step : Types.Point → Types.Point × Bool) (n : Nat) : ∀ p, walkChecked step n p false =
    ((repeatStep step n p).1, !(repeatStep step n p).2) := by
  induction n with
  | zero => simp [walkChecked, repeatStep]
  | succ n ih =>
    intro p
    unfold walkChecked repeatStep
    cases (step p).2
    · simp [walkChecked_true]
    · simp [ih]

def OnlyTurns (bounds : Types.Viewport) (n : Nat) (p : Types.Point) : Prop :=
  n = 0 ∨ bounds.left = bounds.rightInclusive ∨ n = 1 ∧ p.x = bounds.rightInclusive

instance (n : Nat) : Decidable (OnlyTurns bounds n p) := inferInstanceAs (Decidable (_ ∨ _ ∨ _ ∧ _))

theorem incrementInBounds_eq (p : Types.Point) : bounds.incrementInBounds p =
    if p.x = bounds.rightInclusive then
      if p.y + 1 > bounds.bottomInclusive then (p, false) else (⟨bounds.left, p.y + 1⟩, true)
    else (⟨p.x + 1, p.y⟩, true) := by
  unfold incrementInBounds walkInBounds walkInBoundsCircular
  split_ifs <;> simp_all

theorem walk_eq (n : Nat) : ∀ p exceeded, bounds.Contains p → walk bounds n p exceeded =
    if (repeatStep bounds.incrementInBounds n p).2 then
      ((repeatStep bounds.incrementInBounds n p).1, exceeded && OnlyTurns bounds n p)
    else (bounds.origin, true) := by
  induction n with
  | zero => simp [walk, repeatStep, OnlyTurns]
  | succ n ih =>
    intro p exceeded hp
    unfold Viewport.Contains rightExclusive bottomExclusive at *
    rw [walk, repeatStep, incrementInBounds_eq]
    by_cases hx : p.x = bounds.rightInclusive
    · by_cases hy : p.y + 1 > bounds.bottomInclusive
      · simp [hx, hy, origin]
      · rw [ih _ _ (by dsimp only; omega)]
        have hturns : OnlyTurns bounds n ⟨bounds.left, p.y + 1⟩ ↔ OnlyTurns bounds (n + 1) p := by
          unfold OnlyTurns
          dsimp only
          omega
        simp [hx, hy, hturns]
    · rw [if_neg hx, if_neg hx, ih _ _ (by dsimp only; omega)]
      have hturns : ¬OnlyTurns bounds (n + 1) p := by
        unfold OnlyTurns
        omega
      simp [hturns]

theorem reference_atPos (n : Nat) : reference buffer bounds n (atPos buffer p exceeded) =
    if exceeded then atPos buffer p true else
      atPos buffer (repeatStep bounds.incrementInBounds n p).1
        (!(repeatStep bounds.incrementInBounds n p).2) := by
  have hflag (e : Bool) : { atPos buffer p exceeded with exceeded := e } = atPos buffer p e := rfl
  simp only [reference, hflag, setPos_atPos]
  cases exceeded
  · simp only [atPos, walkChecked_false, Bool.false_eq_true, if_false]
  · simp only [atPos, walkChecked_true, if_true]

def Agree (it it' : CellIterator G A) : Prop := it.pos = it'.pos ∧ it.exceeded = it'.exceeded ∧ it.view = it'.view

theorem agree_atPos {q : Types.Point} {exceeded' : Bool} :
    Agree (atPos buffer p exceeded) (atPos buffer q exceeded') ↔ p = q ∧ exceeded = exceeded' := by
  constructor
  · rintro ⟨hpos, hexceeded, -⟩
    exact ⟨hpos, hexceeded⟩
  · rintro ⟨rfl, rfl⟩
    exact ⟨rfl, rfl, rfl⟩

/-- They agree unless the end is passed, or a row begun after it. -/
theorem advance_agrees_iff (hp : bounds.Contains p) (n : Nat) :
    Agree (advance buffer bounds n (atPos buffer p exceeded)) (reference buffer bounds n (atPos buffer p exceeded)) ↔
      if exceeded then bounds.cellCount ≤ bounds.index p + n ∨ OnlyTurns bounds n p
      else bounds.index p + n < bounds.cellCount ∨ bounds.index p + 1 = bounds.cellCount := by
  obtain ⟨hin, hsuccess, -, hlast⟩ := repeat_increment_spec hp n
  rw [advance_atPos, walk_eq n p exceeded hp, reference_atPos]
  generalize repeatStep bounds.incrementInBounds n p = walked at *
  obtain ⟨q, success⟩ := walked
  simp only at *
  cases success
  · have hrange : ¬bounds.index p + n < bounds.cellCount := by simpa using hsuccess
    have hpq : p = q ↔ bounds.index p + 1 = bounds.cellCount := by
      constructor
      · rintro rfl
        exact hlast rfl
      · intro h
        exact index_injOn (Or.inr hp : bounds.isInBounds p) (Or.inr hin) (by have := hlast rfl; omega)
    cases exceeded
    · simp [agree_atPos, hpq, hrange]
    · simp [agree_atPos, not_lt.1 hrange]
  · have hrange : bounds.index p + n < bounds.cellCount := by simpa using hsuccess
    cases exceeded
    · simp [agree_atPos, hrange]
    · by_cases hturns : OnlyTurns bounds n p
      · simp [agree_atPos, hturns]
      · simp [agree_atPos, hturns, hrange]

theorem exists_advance_eq_atPos (hp : bounds.Contains p) (movement : Int) :
    ∃ q e, bounds.Contains q ∧ advance buffer bounds movement (atPos buffer p exceeded) = atPos buffer q e := by
  have hne := hp.nonempty
  obtain hneg | hnonneg := lt_or_ge movement 0
  · have hstep (q : Types.Point) (hq : bounds.Contains q) : bounds.MovesBy false (-1) q (bounds.decrementInBounds q) :=
      (decrement_turns hne (Or.inr hq)).movesBy hne
    have hin := (repeatStep_spec (Or.inr rfl) hstep (-movement).toNat p hp).1
    have hflag (e : Bool) : { atPos buffer p exceeded with exceeded := e } = atPos buffer p e := rfl
    simp only [advance, if_pos hneg, retreat, hflag, setPos_atPos]
    cases exceeded
    · exact ⟨_, _, hin, by simp only [atPos, walkChecked_false]; rfl⟩
    · exact ⟨p, true, hp, by simp only [atPos, walkChecked_true]; rfl⟩
  · lift movement to Nat using hnonneg
    obtain ⟨hin, -⟩ := repeat_increment_spec hp movement
    rw [advance_atPos, walk_eq movement p exceeded hp]
    split_ifs with he hflag hflag
    · exact ⟨p, true, hp, rfl⟩
    · exact ⟨_, false, hin, rfl⟩
    · exact ⟨p, true, hp, rfl⟩
    · exact absurd rfl hflag

/-- However it is moved, the iterator stays inside of its bounds and shows the cell at its position. -/
theorem advances_eq_atPos (hp : bounds.Contains p) (movements : List Int) : ∃ q e, bounds.Contains q ∧
    movements.foldl (fun it movement => advance buffer bounds movement it) (atPos buffer p exceeded)
      = atPos buffer q e := by
  induction movements generalizing p exceeded with
  | nil => exact ⟨p, exceeded, hp, rfl⟩
  | cons movement movements ih =>
    obtain ⟨q, e, hq, hstep⟩ := exists_advance_eq_atPos hp movement
    rw [List.foldl_cons, hstep]
    exact ih hq

def blankCells (_ : Int) : RowCells Unit Unit := ⟨fun _ => (), fun _ => .single, fun _ => ()⟩

theorem advances_eq_atPos_back : ∃ q e, (⟨0, 0, 1, 0⟩ : Types.Viewport).Contains q ∧
    [-1, 2].foldl (fun it movement => advance blankCells ⟨0, 0, 1, 0⟩ movement it)
      (start blankCells ⟨0, 0⟩) = atPos blankCells q e :=
  advances_eq_atPos (by decide) _

/-- Three cells on, into the second row of two. -/
theorem advance_agrees_iff_step : Agree (advance blankCells ⟨0, 0, 1, 1⟩ 3 (start blankCells ⟨0, 0⟩))
    (reference blankCells ⟨0, 0, 1, 1⟩ 3 (start blankCells ⟨0, 0⟩)) :=
  (advance_agrees_iff (show (⟨0, 0, 1, 1⟩ : Types.Viewport).Contains ⟨0, 0⟩ by decide) 3).2 (by decide)

/-- One loop ends at the second cell, the other at the first. -/
theorem not_agree_overshoot : ¬Agree (advance blankCells ⟨0, 0, 1, 0⟩ 2 (start blankCells ⟨0, 0⟩))
    (reference blankCells ⟨0, 0, 1, 0⟩ 2 (start blankCells ⟨0, 0⟩)) := fun h => absurd h.1 (by decide)

end

end CellIterator

end Terminal.Buffer
