import Terminal.Lib.Lap
import Terminal.Buffer.Row
import Terminal.Types.Positions

/-!
# Searches (`search.cpp`)

A search goes around the text from its anchor and reports where the needle matches.
-/

namespace Terminal.Buffer

open Terminal.Types
open Terminal.Parser (Wchar)
open Viewport

inductive Direction where
  | forward
  | backward
deriving DecidableEq, Repr

inductive Sensitivity where
  | caseInsensitive
  | caseSensitive
deriving DecidableEq, Repr

/-- The text up to its end position, `towlower`, and the arguments. -/
structure Search where
  size : Types.Size
  endPosition : Types.Point
  isDoubleWidthLine : Int → Bool
  textAt : Types.Point → List Wchar
  towlower : Wchar → Wchar
  needle : List (List Wchar)
  direction : Direction
  sensitivity : Sensitivity
  coordAnchor : Types.Point

structure SearchState where
  coordNext : Types.Point
  coordSelStart : Types.Point := ⟨0, 0⟩
  coordSelEnd : Types.Point := ⟨0, 0⟩
  reachedEnd : Bool := false

namespace Search

variable (search : Search)

def getSize : Types.Viewport := .fromDimensions ⟨0, 0⟩ search.size

def screenToBufferPosition (position : Types.Point) : Types.Point :=
  ⟨if search.isDoubleWidthLine position.y then position.x / 2 else position.x, position.y⟩

def getInitialAnchor (selectionAnchor : Option Types.Point) : Types.Point :=
  match selectionAnchor.map search.screenToBufferPosition, search.direction with
  | some anchor, .forward => (search.getSize.incrementInBoundsCircular anchor).1
  | some anchor, .backward =>
    let anchor := (search.getSize.decrementInBoundsCircular anchor).1
    ⟨min search.endPosition.x anchor.x, min search.endPosition.y anchor.y⟩
  | none, .forward => ⟨0, 0⟩
  | none, .backward => search.endPosition

def applySensitivity (wch : Wchar) : Wchar :=
  if search.sensitivity = .caseInsensitive then search.towlower wch else wch

def compareChars (one two : List Wchar) : Bool :=
  one.length = two.length && (one.zip two).all fun c => search.applySensitivity c.1 = search.applySensitivity c.2

def matchNeedle : List (List Wchar) → Types.Point → Option Types.Point
  | [], bufferPos => some bufferPos
  | needleChars :: needle, bufferPos =>
    if search.compareChars (search.textAt bufferPos) needleChars then
      matchNeedle needle (search.getSize.incrementInBoundsCircular bufferPos).1
    else none

def findNeedleInHaystackAt (pos : Types.Point) : Option (Types.Point × Types.Point) :=
  (search.matchNeedle search.needle pos).map
    fun bufferPos => (pos, (search.getSize.decrementInBoundsCircular bufferPos).1)

def updateNextPosition (coordNext : Types.Point) : Types.Point :=
  let next := match search.direction with
    | .forward => (search.getSize.incrementInBoundsCircular coordNext).1
    | .backward => (search.getSize.decrementInBoundsCircular coordNext).1
  if next.y > search.endPosition.y ∨ next.y = search.endPosition.y ∧ next.x > search.endPosition.x then
    match search.direction with
    | .forward => ⟨0, 0⟩
    | .backward => search.endPosition
  else next

def findLoop : Nat → SearchState → Option (SearchState × Bool)
  | 0, _ => none
  | fuel + 1, s =>
    let next := search.updateNextPosition s.coordNext
    match search.findNeedleInHaystackAt s.coordNext with
    | some (start, stop) => some (⟨next, start, stop, next = search.coordAnchor⟩, true)
    | none =>
      if next ≠ search.coordAnchor then findLoop fuel ⟨next, ⟨0, 0⟩, ⟨0, 0⟩, s.reachedEnd⟩
      else some (⟨next, ⟨0, 0⟩, ⟨0, 0⟩, s.reachedEnd⟩, false)

def findNext (fuel : Nat) (s : SearchState) : Option (SearchState × Bool) :=
  if s.reachedEnd then some ({ s with reachedEnd := false }, false) else search.findLoop fuel s

def start : SearchState where
  coordNext := search.coordAnchor

/-! ## Whole searches -/

def Call (s s' : SearchState) (found : Bool) : Prop := ∃ fuel, search.findNext fuel s = some (s', found)

inductive Reports : SearchState → List Types.Point → Prop
  | done {s s' : SearchState} : search.Call s s' false → Reports s []
  | found {s s' : SearchState} {ps : List Types.Point} :
    search.Call s s' true → Reports s' ps → Reports s (s'.coordSelStart :: ps)

inductive Reached (s : SearchState) : SearchState → Prop
  | refl : Reached s s
  | call {s' s'' : SearchState} {found : Bool} : Reached s s' → search.Call s' s'' found → Reached s s''

def Matches (p : Types.Point) : Prop :=
  ∀ i (h : i < search.needle.length),
    search.compareChars (search.textAt
      ((fun q => (search.getSize.incrementInBoundsCircular q).1)^[i] p)) search.needle[i]

/-- Calls return, and report each match once up to the first `false`. -/
structure Exhaustive : Prop where
  returns : ∀ s, search.Reached search.start s → ∃ s' found, search.Call s s' found
  complete : ∃ ps, search.Reports search.start ps ∧ ps.Nodup ∧
    ∀ p, p ∈ ps ↔ search.getSize.Contains p ∧ p ≤ search.endPosition ∧ search.Matches p

variable {search}

theorem isSome_matchNeedle (needle : List (List Wchar)) (p : Types.Point) : (search.matchNeedle needle p).isSome ↔
    ∀ i (h : i < needle.length),
      search.compareChars (search.textAt
        ((fun q => (search.getSize.incrementInBoundsCircular q).1)^[i] p)) needle[i] := by
  induction needle generalizing p with
  | nil => simp [matchNeedle]
  | cons chars needle ih =>
    rw [matchNeedle]
    split_ifs with h
    · rw [ih]
      constructor
      · rintro hrest (_ | i) hi
        · exact h
        · exact hrest i (by simpa using hi)
      · intro hall i hi
        exact hall (i + 1) (by simpa using hi)
    · exact iff_of_false (by simp) fun hall => h (hall 0 (by simp))

theorem isSome_findNeedleInHaystackAt (p : Types.Point) : (search.findNeedleInHaystackAt p).isSome ↔
    search.Matches p := by
  rw [findNeedleInHaystackAt, Option.isSome_map, isSome_matchNeedle]
  rfl

variable (hend : search.getSize.Contains search.endPosition) {p : Types.Point}

def InText (search : Search) (p : Types.Point) : Prop := search.getSize.Contains p ∧ p ≤ search.endPosition

theorem add_one_emod {i m : Int} (h : 0 ≤ i ∧ i < m) : (i + 1) % m = if i + 1 = m then 0 else i + 1 := by
  split_ifs with heq
  · rw [heq, Int.emod_self]
  · exact Int.emod_eq_of_lt (by omega) (by omega)

theorem sub_one_emod {i m : Int} (h : 0 ≤ i ∧ i < m) : (i + -1) % m = if i = 0 then m - 1 else i - 1 := by
  split_ifs with heq
  · rw [← Int.add_emod_right, Int.emod_eq_of_lt] <;> omega
  · exact Int.emod_eq_of_lt (by omega) (by omega)

section
include hend

theorem inText_origin : search.InText ⟨0, 0⟩ := by
  have horigin : search.getSize.Contains ⟨0, 0⟩ := by
    unfold getSize fromDimensions Viewport.Contains rightExclusive bottomExclusive at *
    dsimp only at *
    omega
  have hindex : search.getSize.index ⟨0, 0⟩ = 0 := search.getSize.index_origin
  refine ⟨horigin, (le_iff_index_le horigin hend).2 ?_⟩
  rw [hindex]
  exact (index_bounds hend).1

theorem updateNextPosition_spec (hp : search.getSize.Contains p) : search.InText (search.updateNextPosition p) ∧
    (p ≤ search.endPosition → search.getSize.index (search.updateNextPosition p) =
      (search.getSize.index p + if search.direction = .forward then 1 else -1) %
        (search.getSize.index search.endPosition + 1)) := by
  have hrange := index_bounds hp
  have hrange' := index_bounds hend
  have hle {q : Types.Point} : (q.y > search.endPosition.y ∨ q.y = search.endPosition.y ∧ q.x > search.endPosition.x) ↔
      ¬q ≤ search.endPosition := by
    rw [Point.le_def]
    omega
  have hinText {q r : Types.Point} (hq : search.getSize.Contains q) (hr : search.InText r) :
      search.InText (if q ≤ search.endPosition then q else r) := by
    split_ifs with h
    · exact ⟨hq, h⟩
    · exact hr
  have horigin : search.getSize.index ⟨0, 0⟩ = 0 := search.getSize.index_origin
  unfold updateNextPosition
  simp only [hle, ite_not]
  cases search.direction
  · obtain ⟨hin, hindex⟩ := (increment_turns hp.nonempty (Or.inr hp : search.getSize.isInBounds p)).circular
    refine ⟨hinText hin (inText_origin hend), fun hple => ?_⟩
    have hple := (le_iff_index_le hp hend).1 hple
    simp only [incrementInBoundsCircular, apply_ite search.getSize.index, le_iff_index_le hin hend,
      hindex, horigin, if_true]
    rw [add_one_emod hrange, add_one_emod (by omega)]
    split_ifs <;> omega
  · obtain ⟨hin, hindex⟩ := (decrement_turns hp.nonempty (Or.inr hp : search.getSize.isInBounds p)).circular
    refine ⟨hinText hin ⟨hend, Point.le_refl _⟩, fun hple => ?_⟩
    have hple := (le_iff_index_le hp hend).1 hple
    simp only [decrementInBoundsCircular, apply_ite search.getSize.index, le_iff_index_le hin hend,
      hindex, reduceCtorEq, if_false]
    rw [sub_one_emod hrange, sub_one_emod (by omega)]
    split_ifs <;> omega
end

/-! ## Laps -/

open Terminal.Lib (Lap)

section
variable {s s' : SearchState} {c : Types.Point} {l : List Types.Point}

theorem findLoop_succ (fuel : Nat) (s : SearchState) : search.findLoop (fuel + 1) s =
    let next := search.updateNextPosition s.coordNext
    match search.findNeedleInHaystackAt s.coordNext with
    | some (_, stop) => some (⟨next, s.coordNext, stop, next = search.coordAnchor⟩, true)
    | none =>
      if next ≠ search.coordAnchor then search.findLoop fuel ⟨next, ⟨0, 0⟩, ⟨0, 0⟩, s.reachedEnd⟩
      else some (⟨next, ⟨0, 0⟩, ⟨0, 0⟩, s.reachedEnd⟩, false) := by
  rw [findLoop, findNeedleInHaystackAt]
  cases search.matchNeedle search.needle s.coordNext <;> rfl

theorem Reports.of_skip {ps : List Types.Point} (h : search.Reports s' ps)
    (hskip : ∀ fuel, search.findNext (fuel + 1) s = search.findNext fuel s') : search.Reports s ps := by
  obtain ⟨fuel, hcall⟩ | ⟨⟨fuel, hcall⟩, hrest⟩ := h
  · exact .done ⟨fuel + 1, (hskip fuel).trans hcall⟩
  · exact .found ⟨fuel + 1, (hskip fuel).trans hcall⟩ hrest

theorem Reports.exists_call {ps : List Types.Point} (h : search.Reports s ps) : ∃ s' found, search.Call s s' found := by
  obtain hcall | ⟨hcall, -⟩ := h
  · exact ⟨_, _, hcall⟩
  · exact ⟨_, _, hcall⟩

theorem reports_of_lap (h : Lap search.updateNextPosition search.coordAnchor c l) (s : SearchState)
    (hc : s.coordNext = c)
    (hs : s.reachedEnd = false) : search.Reports s (l.filter fun p => (search.findNeedleInHaystackAt p).isSome) := by
  induction h generalizing s with
  | @last c hnext =>
    subst hc
    have hround := search.findLoop_succ 0 s
    cases hfind : search.findNeedleInHaystackAt s.coordNext with
    | none =>
      simp only [hfind, hnext, ne_eq] at hround
      simpa [hfind] using Reports.done ⟨1, (if_neg (by simp [hs])).trans hround⟩
    | some span =>
      simp only [hfind, hnext] at hround
      simpa [hfind] using Reports.found ⟨1, (if_neg (by simp [hs])).trans hround⟩ (.done ⟨0, if_pos rfl⟩)
  | @step c l hnext hlap ih =>
    subst hc
    cases hfind : search.findNeedleInHaystackAt s.coordNext with
    | none =>
      rw [List.filter_cons_of_neg (by simp [hfind])]
      apply (ih ⟨search.updateNextPosition s.coordNext, ⟨0, 0⟩, ⟨0, 0⟩, false⟩ rfl rfl).of_skip
      simp [findNext, hs, findLoop_succ, hfind, hnext]
    | some span =>
      have hround := search.findLoop_succ 0 s
      simp only [hfind, hnext] at hround
      simpa [hfind] using Reports.found ⟨1, (if_neg (by simp [hs])).trans hround⟩ (ih _ rfl rfl)

theorem call_keeps {I : Types.Point → Prop} (hI : ∀ p, I p → I (search.updateNextPosition p)) {found : Bool}
    (hcall : search.Call s s' found) (hs : I s.coordNext) : I s'.coordNext := by
  obtain ⟨fuel, hcall⟩ := hcall
  unfold findNext at hcall
  split_ifs at hcall
  · obtain ⟨rfl, -⟩ := Prod.mk.inj (Option.some.inj hcall)
    exact hs
  · induction fuel generalizing s with
    | zero => simp [findLoop] at hcall
    | succ fuel ih =>
      rw [findLoop_succ] at hcall
      dsimp only at hcall
      split at hcall
      · obtain ⟨rfl, -⟩ := Prod.mk.inj (Option.some.inj hcall)
        exact hI _ hs
      · split_ifs at hcall
        · exact ih (hI _ hs) ‹_› hcall
        · obtain ⟨rfl, -⟩ := Prod.mk.inj (Option.some.inj hcall)
          exact hI _ hs

theorem call_found {I : Types.Point → Prop} (hI : ∀ p, I p → I (search.updateNextPosition p) ∧
    search.updateNextPosition p ≠ search.coordAnchor)
    {found : Bool} (hcall : search.Call s s' found) (hs : I s.coordNext) (hend : s.reachedEnd = false) :
    found = true ∧ s'.reachedEnd = false := by
  obtain ⟨fuel, hcall⟩ := hcall
  rw [findNext, if_neg (by simp [hend])] at hcall
  induction fuel generalizing s with
  | zero => simp [findLoop] at hcall
  | succ fuel ih =>
    rw [findLoop_succ] at hcall
    simp only [ne_eq, (hI _ hs).2] at hcall
    split at hcall
    · obtain ⟨rfl, rfl⟩ := Prod.mk.inj (Option.some.inj hcall)
      exact ⟨rfl, rfl⟩
    · exact ih (s := ⟨_, ⟨0, 0⟩, ⟨0, 0⟩, s.reachedEnd⟩) (hI _ hs).1 hend hcall

end

theorem exhaustive_iff_anchor (hend : search.getSize.Contains search.endPosition)
    (hanchor : search.getSize.Contains search.coordAnchor) :
    search.Exhaustive ↔ search.coordAnchor ≤ search.endPosition := by
  have hupdate (p : Types.Point) (hp : search.getSize.Contains p) := updateNextPosition_spec hend hp
  constructor
  · intro h
    by_contra hbehind
    have hnever (p : Types.Point) (hp : search.getSize.Contains p) :
        search.getSize.Contains (search.updateNextPosition p) ∧ search.updateNextPosition p ≠ search.coordAnchor :=
      ⟨(hupdate p hp).1.1, fun heq => hbehind (heq ▸ (hupdate p hp).1.2)⟩
    obtain ⟨ps, hreports, -⟩ := h.complete
    have hs : search.getSize.Contains search.start.coordNext ∧ search.start.reachedEnd = false := ⟨hanchor, rfl⟩
    generalize search.start = s at hreports hs
    induction hreports with
    | done hcall => exact absurd (call_found hnever hcall hs.1 hs.2).1 (by simp)
    | found hcall _ ih =>
      exact ih ⟨call_keeps (fun p hp => (hnever p hp).1) hcall hs.1, (call_found hnever hcall hs.1 hs.2).2⟩
  · intro hle
    have hrange (p : Types.Point) (hp : search.InText p) :
        0 ≤ search.getSize.index p ∧ search.getSize.index p < search.getSize.index search.endPosition + 1 := by
      have := (le_iff_index_le hp.1 hend).1 hp.2
      exact ⟨(index_bounds hp.1).1, by omega⟩
    obtain ⟨l, hlap, hnodup, hmem⟩ := Terminal.Lib.exists_lap
      (fun p hp => ⟨(hupdate p hp.1).1, (hupdate p hp.1).2 hp.2⟩) hrange ⟨hanchor, hle⟩
      (by cases search.direction <;> simp) fun p q hp hq => index_injOn
        (Or.inr hp.1 : search.getSize.isInBounds p) (Or.inr hq.1)
    refine ⟨fun s hs => ?_, _, reports_of_lap hlap _ rfl rfl, hnodup.filter _, fun p => ?_⟩
    · have hlaps : ∃ l, Lap search.updateNextPosition search.coordAnchor s.coordNext l := by
        induction hs with
        | refl => exact ⟨l, hlap⟩
        | call _ hcall ih =>
          refine call_keeps (I := fun c => ∃ l, Lap _ _ c l) ?_ hcall ih
          rintro p ⟨l', hlap'⟩
          exact hlap'.exists_next hlap
      obtain ⟨l', hlap'⟩ := hlaps
      cases hs : s.reachedEnd
      · exact (reports_of_lap hlap' s rfl hs).exists_call
      · exact ⟨_, _, 0, if_pos hs⟩
    · rw [List.mem_filter, hmem, isSome_findNeedleInHaystackAt]
      exact and_assoc

/-! ## Where a search may begin -/

inductive Start where
  | anchor (anchor : Types.Point)
  | selection (selectionAnchor : Option Types.Point)

def startAt (search : Search) (start : Start) : Search :=
  { search with
    coordAnchor := match start with
      | .anchor anchor => anchor
      | .selection selectionAnchor => search.getInitialAnchor selectionAnchor }

def InBuffer (search : Search) : Start → Prop
  | .anchor anchor | .selection (some anchor) => search.getSize.Contains anchor
  | .selection none => True

/-- An anchor in the text, or a selection before its end or in the last cell. -/
def InTextAt (search : Search) : Start → Prop
  | .anchor anchor => anchor ≤ search.endPosition
  | .selection (some anchor) => search.direction = .forward →
    search.getSize.index (search.screenToBufferPosition anchor) < search.getSize.index search.endPosition ∨
      search.getSize.index (search.screenToBufferPosition anchor) + 1 = search.getSize.cellCount
  | .selection none => True

theorem contains_screenToBufferPosition (hp : search.getSize.Contains p) :
    search.getSize.Contains (search.screenToBufferPosition p) := by
  unfold getSize fromDimensions Viewport.Contains screenToBufferPosition rightExclusive
    bottomExclusive at *
  dsimp only at *
  split_ifs <;> omega

theorem getInitialAnchor_spec (hend : search.getSize.Contains search.endPosition) {anchor : Option Types.Point}
    (hin : search.InBuffer (.selection anchor)) : search.getSize.Contains (search.getInitialAnchor anchor) ∧
      (search.getInitialAnchor anchor ≤ search.endPosition ↔ search.InTextAt (.selection anchor)) := by
  cases anchor with
  | none =>
    unfold getInitialAnchor InTextAt
    cases search.direction
    · exact ⟨(inText_origin hend).1, iff_of_true (inText_origin hend).2 trivial⟩
    · exact ⟨hend, iff_of_true (Point.le_refl _) trivial⟩
  | some anchor =>
    have hp := contains_screenToBufferPosition hin
    have hrange := index_bounds hp
    simp only [getInitialAnchor, InTextAt, Option.map_some]
    generalize search.screenToBufferPosition anchor = p at *
    cases search.direction
    · obtain ⟨hq, hindex⟩ := (increment_turns hp.nonempty (Or.inr hp : search.getSize.isInBounds p)).circular
      refine ⟨hq, (le_iff_index_le hq hend).trans ?_⟩
      have hend := index_bounds hend
      rw [hindex, add_one_emod hrange]
      simp only [true_imp_iff]
      split_ifs <;> omega
    · obtain ⟨hq, -⟩ := (decrement_turns hp.nonempty (Or.inr hp : search.getSize.isInBounds p)).circular
      constructor
      · unfold Viewport.Contains at *
        simp only [decrementInBoundsCircular]
        omega
      · simp only [Point.le_def, reduceCtorEq, false_imp_iff, iff_true]
        omega

theorem exhaustive_iff (hend : search.getSize.Contains search.endPosition) {start : Start}
    (hin : search.InBuffer start) :
    (search.startAt start).Exhaustive ↔ search.InTextAt start := by
  cases start with
  | anchor anchor => exact (search.startAt (.anchor anchor)).exhaustive_iff_anchor hend hin
  | selection anchor =>
    obtain ⟨hanchor, hiff⟩ := getInitialAnchor_spec hend hin
    exact ((search.startAt (.selection anchor)).exhaustive_iff_anchor hend hanchor).trans hiff

/-- The text is `ab`, in the first two of three cells. -/
def short : Search where
  size := ⟨3, 1⟩
  endPosition := ⟨1, 0⟩
  isDoubleWidthLine _ := false
  textAt p := if p.x = 0 then [0x61] else if p.x = 1 then [0x62] else []
  towlower := id
  needle := [[0x61]]
  direction := .forward
  sensitivity := .caseSensitive
  coordAnchor := ⟨0, 0⟩

/-- The first cell is found, and no other. -/
theorem exhaustive_iff_short : (short.startAt (.selection none)).Exhaustive ∧
    (short.startAt (.selection none)).Matches ⟨0, 0⟩ ∧ ¬(short.startAt (.selection none)).Matches ⟨1, 0⟩ :=
  ⟨(@exhaustive_iff short (by decide) (.selection none) trivial).2 trivial, (isSome_matchNeedle _ _).1 (by decide),
    fun h => absurd ((isSome_matchNeedle _ _).2 h) (by decide)⟩

/-- A search from behind the text never ends. -/
theorem not_exhaustive_short : ¬(short.startAt (.anchor ⟨2, 0⟩)).Exhaustive := fun h =>
  absurd ((exhaustive_iff_anchor (by decide) (by decide)).1 h) (by decide)

end Search

end Terminal.Buffer
