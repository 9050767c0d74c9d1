import Mathlib.Tactic.Linarith
import Mathlib.Tactic.Ring
import Terminal.Types.Viewport

/-!
# Positions as indices (`viewport.cpp`)

Cells count from zero in reading order, and every move is arithmetic on that count.
-/

namespace Terminal.Types.Viewport

variable (vp : Viewport)

def isInBounds (pos : Point) (allowEndExclusive : Bool := false) : Prop :=
  (allowEndExclusive ∧ pos = vp.endExclusive) ∨ vp.Contains pos

/-- The first `n` steps of a loop that stops at a step that fails. -/
def repeatStep (step : Point → Point × Bool) : Nat → Point → Point × Bool
  | 0, pos => (pos, true)
  | n + 1, pos => if (step pos).2 then repeatStep step n (step pos).1 else ((step pos).1, false)

def moveInBounds (move : Int) (pos : Point) : Point × Bool :=
  let moved :=
    if 0 ≤ move then repeatStep vp.incrementInBounds move.toNat pos
    else repeatStep vp.decrementInBounds (-move).toNat pos
  if moved.2 then moved else (pos, false)

def incrementInBoundsCircular (pos : Point) : Point × Bool :=
  vp.walkInBoundsCircular pos ⟨.leftToRight, .topToBottom⟩ false

def decrementInBoundsCircular (pos : Point) : Point × Bool :=
  vp.walkInBoundsCircular pos ⟨.rightToLeft, .bottomToTop⟩ false

def index (pos : Point) : Int := (pos.y - vp.top) * vp.width + (pos.x - vp.left)

def cellCount : Int := vp.width * vp.height

def limit (allowEndExclusive : Bool) : Int := if allowEndExclusive then vp.cellCount + 1 else vp.cellCount

/-- A step by `d` fails just where it would leave the bounds, and then stays. -/
structure MovesBy (vp : Viewport) (allowEndExclusive : Bool) (d : Int) (pos : Point)
    (result : Point × Bool) : Prop where
  success : result.2 = true ↔ 0 ≤ vp.index pos + d ∧ vp.index pos + d < vp.limit allowEndExclusive
  moves : result.2 = true → vp.isInBounds result.1 allowEndExclusive ∧ vp.index result.1 = vp.index pos + d
  stays : result.2 = false → result.1 = pos

variable {vp : Viewport} {p q : Point} {allow : Bool}

theorem Contains.nonempty (hp : vp.Contains p) : vp.left ≤ vp.rightInclusive ∧ vp.top ≤ vp.bottomInclusive := by
  unfold Contains rightExclusive bottomExclusive at hp
  omega

theorem compareInBounds_eq (p q : Point) : vp.compareInBounds p q = vp.index p - vp.index q := by
  unfold compareInBounds index
  ring

theorem le_iff_index_le (hp : vp.Contains p) (hq : vp.Contains q) : p ≤ q ↔ vp.index p ≤ vp.index q := by
  rw [← compareInBounds_nonpos hp hq, compareInBounds_eq, sub_nonpos]

theorem index_bounds (hp : vp.Contains p) : 0 ≤ vp.index p ∧ vp.index p < vp.cellCount := by
  unfold Contains at hp
  unfold index cellCount width height
  constructor
  · have := mul_nonneg (show 0 ≤ p.y - vp.top by omega) (show 0 ≤ vp.rightExclusive - vp.left by omega)
    omega
  · have := mul_le_mul_of_nonneg_left (show p.y - vp.top + 1 ≤ vp.bottomExclusive - vp.top by omega)
      (show 0 ≤ vp.rightExclusive - vp.left by omega)
    linarith

theorem index_endExclusive : vp.index vp.endExclusive = vp.cellCount := by
  unfold index endExclusive cellCount height
  ring

theorem index_lt_limit (hne : vp.left ≤ vp.rightInclusive ∧ vp.top ≤ vp.bottomInclusive) (hp : vp.isInBounds p allow) :
    0 ≤ vp.index p ∧ vp.index p < vp.limit allow := by
  unfold limit
  obtain ⟨rfl, rfl⟩ | hp := hp
  · have := mul_nonneg (show 0 ≤ vp.rightInclusive + 1 - vp.left by omega)
      (show 0 ≤ vp.bottomInclusive + 1 - vp.top by omega)
    rw [index_endExclusive]
    exact ⟨this, by simp⟩
  · have := index_bounds hp
    split_ifs <;> omega

theorem index_origin : vp.index vp.origin = 0 := by simp [index, origin]

theorem index_last : vp.index ⟨vp.rightInclusive, vp.bottomInclusive⟩ = vp.cellCount - 1 := by
  unfold index cellCount width height rightExclusive bottomExclusive
  ring

theorem index_nextRow (y : Int) : vp.index ⟨vp.left, y + 1⟩ = vp.index ⟨vp.rightInclusive, y⟩ + 1 := by
  unfold index width rightExclusive
  ring

theorem index_right (x y : Int) : vp.index ⟨x + 1, y⟩ = vp.index ⟨x, y⟩ + 1 := by
  unfold index
  ring

/-- What a step that may go around does to the index. -/
structure Turns (vp : Viewport) (allowEndExclusive : Bool) (d : Int) (pos : Point) (result : Point × Bool) : Prop where
  inBounds : vp.isInBounds result.1 allowEndExclusive
  moves : result.2 = true → vp.index result.1 = vp.index pos + d
  leaves : result.2 = false → ¬(0 ≤ vp.index pos + d ∧ vp.index pos + d < vp.limit allowEndExclusive)
  wraps : result.2 = false → allowEndExclusive = false → vp.index result.1 = (vp.index pos + d) % vp.cellCount

section
variable (hne : vp.left ≤ vp.rightInclusive ∧ vp.top ≤ vp.bottomInclusive) (hp : vp.isInBounds p allow)
include hne hp

theorem increment_turns : vp.Turns allow 1 p (vp.walkInBoundsCircular p ⟨.leftToRight, .topToBottom⟩ allow) := by
  obtain ⟨x, y⟩ := p
  unfold isInBounds endExclusive Contains rightExclusive bottomExclusive at hp
  unfold walkInBoundsCircular bottomExclusive
  simp only [Point.mk.injEq] at *
  have horigin : vp.isInBounds vp.origin allow := by
    unfold isInBounds Contains rightExclusive bottomExclusive origin
    dsimp only
    omega
  split_ifs with hend hx hnext hbottom
  · obtain ⟨rfl, rfl, rfl⟩ := hend
    have hindex := vp.index_endExclusive
    exact ⟨horigin, by simp, fun _ => by simp_all [endExclusive, bottomExclusive, limit], by simp⟩
  · obtain ⟨rfl, hy⟩ := hnext
    exact ⟨Or.inl ⟨rfl, by simp [endExclusive, bottomExclusive, ← hy]⟩, fun _ => hx ▸ index_nextRow y, by simp, by simp⟩
  · obtain rfl : y = vp.bottomInclusive := by have := hp.resolve_left hend; omega
    obtain rfl : allow = false := by simpa using hnext
    exact ⟨horigin, by simp, by simp [hx, index_last, limit], by simp [hx, index_last, index_origin, ← origin.eq_1]⟩
  · refine ⟨Or.inr ?_, fun _ => hx ▸ index_nextRow y, by simp, by simp⟩
    unfold Contains rightExclusive bottomExclusive
    dsimp only
    omega
  · have hp := hp.resolve_left hend
    refine ⟨Or.inr ?_, fun _ => index_right x y, by simp, by simp⟩
    unfold Contains rightExclusive bottomExclusive
    dsimp only
    omega

theorem decrement_turns : vp.Turns allow (-1) p (vp.walkInBoundsCircular p ⟨.rightToLeft, .bottomToTop⟩ allow) := by
  obtain ⟨x, y⟩ := p
  unfold isInBounds endExclusive Contains rightExclusive bottomExclusive at hp
  unfold walkInBoundsCircular
  simp only [Point.mk.injEq] at *
  have hin {q : Point} (hq : vp.left ≤ q.x ∧ q.x ≤ vp.rightInclusive ∧ vp.top ≤ q.y ∧ q.y ≤ vp.bottomInclusive) :
      vp.isInBounds q allow := by
    unfold isInBounds Contains rightExclusive bottomExclusive
    omega
  split_ifs with hx htop
  · obtain rfl : y = vp.top := by omega
    have hzero := vp.index_origin
    have hlast := index_bounds (show vp.Contains ⟨vp.rightInclusive, vp.bottomInclusive⟩ by
      unfold Contains rightExclusive bottomExclusive; dsimp only; omega)
    rw [origin, ← hx] at hzero
    refine ⟨hin (by dsimp only; omega), by simp, by simp [hzero], fun _ _ => ?_⟩
    rw [← Int.add_emod_right, Int.emod_eq_of_lt]
    all_goals simp only [index_last] at *; omega
  · have := vp.index_nextRow (y - 1)
    rw [sub_add_cancel] at this
    exact ⟨hin (by dsimp only; omega), fun _ => by simp [hx, this], by simp, by simp⟩
  · have := vp.index_right (x - 1) y
    rw [sub_add_cancel] at this
    exact ⟨hin (by dsimp only; omega), fun _ => by simp [this], by simp, by simp⟩
end

theorem Turns.movesBy {d : Int} {dir : WalkDir} (h : vp.Turns allow d p (vp.walkInBoundsCircular p dir allow))
    (hne : vp.left ≤ vp.rightInclusive ∧ vp.top ≤ vp.bottomInclusive) :
    vp.MovesBy allow d p (vp.walkInBounds p dir allow) := by
  unfold walkInBounds
  have hlt := index_lt_limit hne h.inBounds
  split_ifs with hr
  · have hmoves := h.moves hr
    exact ⟨iff_of_true rfl (hmoves ▸ hlt), fun _ => ⟨h.inBounds, hmoves⟩, by simp⟩
  · exact ⟨iff_of_false (by simp) (h.leaves (by simpa using hr)), by simp, by simp⟩

theorem Turns.circular {d : Int} {result : Point × Bool} (h : vp.Turns false d p result) :
    vp.Contains result.1 ∧ vp.index result.1 = (vp.index p + d) % vp.cellCount := by
  have hin : vp.Contains result.1 := by simpa [isInBounds] using h.inBounds
  refine ⟨hin, ?_⟩
  cases hr : result.2
  · exact h.wraps hr rfl
  · rw [← h.moves hr, Int.emod_eq_of_lt (index_bounds hin).1 (index_bounds hin).2]

/-- A loop of steps stops where it would leave the viewport. -/
theorem repeatStep_spec {step : Point → Point × Bool} {d : Int} (hd : d = 1 ∨ d = -1)
    (hstep : ∀ q, vp.Contains q → vp.MovesBy false d q (step q)) (n : Nat) :
    ∀ p, vp.Contains p → vp.Contains (repeatStep step n p).1 ∧
      ((repeatStep step n p).2 = true ↔ 0 ≤ vp.index p + n * d ∧ vp.index p + n * d < vp.cellCount) ∧
      ((repeatStep step n p).2 = true → vp.index (repeatStep step n p).1 = vp.index p + n * d) ∧
      ((repeatStep step n p).2 = false →
        ¬(0 ≤ vp.index (repeatStep step n p).1 + d ∧ vp.index (repeatStep step n p).1 + d < vp.cellCount)) := by
  induction n with
  | zero =>
    intro p hp
    simp [repeatStep, hp, index_bounds hp]
  | succ n ih =>
    intro p hp
    obtain ⟨hsuccess, hmoves, hstays⟩ := hstep p hp
    have hrange := index_bounds hp
    unfold repeatStep
    split_ifs with hr
    · obtain ⟨hin, hindex⟩ := hmoves hr
      have hin : vp.Contains (step p).1 := by simpa [isInBounds] using hin
      obtain ⟨hc, hs, hm, hf⟩ := ih _ hin
      have hsum : vp.index (step p).1 + n * d = vp.index p + ((n + 1 : Nat) : Int) * d := by
        rw [hindex]
        push_cast
        ring
      rw [hsum] at hs hm
      exact ⟨hc, hs, hm, hf⟩
    · have hno := hsuccess.not.1 hr
      simp only [limit] at hno
      have heq := hstays (by simpa using hr)
      rw [heq]
      refine ⟨hp, iff_of_false (by simp) ?_, by simp, fun _ => hno⟩
      obtain rfl | rfl := hd
      all_goals omega

theorem repeat_increment_spec (hp : vp.Contains p) (n : Nat) : let r := repeatStep vp.incrementInBounds n p
    vp.Contains r.1 ∧ (r.2 = true ↔ vp.index p + n < vp.cellCount) ∧ (r.2 = true → vp.index r.1 = vp.index p + n) ∧
      (r.2 = false → vp.index r.1 + 1 = vp.cellCount) := by
  have hne := hp.nonempty
  have hstep (q : Point) (hq : vp.Contains q) : vp.MovesBy false 1 q (vp.incrementInBounds q) :=
    (increment_turns hne (Or.inr hq)).movesBy hne
  obtain ⟨hin, hsuccess, hmoves, hfail⟩ := repeatStep_spec (Or.inl rfl) hstep n p hp
  have hp := index_bounds hp
  have hq := index_bounds hin
  refine ⟨hin, hsuccess.trans (by omega), fun h => (hmoves h).trans (by omega), fun h => ?_⟩
  have := hfail h
  omega

theorem moveInBounds_movesBy (hne : vp.left ≤ vp.rightInclusive ∧ vp.top ≤ vp.bottomInclusive)
    (hp : vp.Contains p) (n : Int) :
    vp.MovesBy false n p (vp.moveInBounds n p) := by
  have key {step : Point → Point × Bool} {d : Int} {k : Nat} (hd : d = 1 ∨ d = -1) (hk : n = k * d)
      (hstep : ∀ q, vp.Contains q → vp.MovesBy false d q (step q)) : vp.MovesBy false n p
        (if (repeatStep step k p).2 then repeatStep step k p else (p, false)) := by
    obtain ⟨hin, hsuccess, hmoves, -⟩ := repeatStep_spec hd hstep k p hp
    rw [hk]
    split_ifs with hr
    · exact ⟨hsuccess, fun _ => ⟨Or.inr hin, hmoves hr⟩, by simp [hr]⟩
    · exact ⟨iff_of_false (by simp) (hsuccess.not.1 hr), by simp, by simp⟩
  unfold moveInBounds
  split_ifs with hn
  · exact key (Or.inl rfl) (by omega) fun q hq => (increment_turns hne (Or.inr hq)).movesBy hne
  · exact key (Or.inr rfl) (by omega) fun q hq => (decrement_turns hne (Or.inr hq)).movesBy hne

theorem index_injOn : Set.InjOn vp.index {p | vp.isInBounds p allow} := by
  intro p hp q hq heq
  have hcompare : vp.compareInBounds p q = 0 ∧ vp.compareInBounds q p = 0 := by simp [compareInBounds_eq, heq]
  obtain ⟨-, rfl⟩ | hp := hp
  · obtain ⟨-, rfl⟩ | hq := hq
    · rfl
    · exact absurd (compareInBounds_endExclusive hq) (by omega)
  · obtain ⟨-, rfl⟩ | hq := hq
    · exact absurd (compareInBounds_endExclusive hp) (by omega)
    · have hpq := Point.le_def.1 ((compareInBounds_nonpos hp hq).1 (by omega))
      have hqp := Point.le_def.1 ((compareInBounds_nonpos hq hp).1 (by omega))
      ext <;> omega

/-- Every move is arithmetic on the index. -/
theorem positions_are_indices (hne : vp.left ≤ vp.rightInclusive ∧ vp.top ≤ vp.bottomInclusive) :
    (∀ allow, Set.InjOn vp.index {p | vp.isInBounds p allow}) ∧
    (∀ p q, vp.compareInBounds p q = vp.index p - vp.index q) ∧
    (∀ allow p, vp.isInBounds p allow →
      vp.MovesBy allow 1 p (vp.incrementInBounds p allow) ∧ vp.MovesBy allow (-1) p (vp.decrementInBounds p allow)) ∧
    ∀ p, vp.Contains p → (∀ n, vp.MovesBy false n p (vp.moveInBounds n p)) ∧
      (vp.Contains (vp.incrementInBoundsCircular p).1 ∧
        vp.index (vp.incrementInBoundsCircular p).1 = (vp.index p + 1) % vp.cellCount) ∧
      vp.Contains (vp.decrementInBoundsCircular p).1 ∧
        vp.index (vp.decrementInBoundsCircular p).1 = (vp.index p + -1) % vp.cellCount := by
  refine ⟨fun _ => index_injOn, compareInBounds_eq, fun allow p hp => ⟨?_, ?_⟩, fun p hp => ⟨?_, ?_, ?_⟩⟩
  · exact (increment_turns hne hp).movesBy hne
  · exact (decrement_turns hne hp).movesBy hne
  · exact moveInBounds_movesBy hne hp
  · exact (increment_turns hne (Or.inr hp)).circular
  · exact (decrement_turns hne (Or.inr hp)).circular

/-- Four cells on from the middle of the first row of three. -/
theorem positions_are_indices_cell :
    let vp : Viewport := ⟨3, 4, 5, 6⟩
    vp.moveInBounds 4 ⟨4, 4⟩ = (⟨5, 5⟩, true) ∧ vp.MovesBy false 4 ⟨4, 4⟩ (vp.moveInBounds 4 ⟨4, 4⟩) ∧
      vp.index (vp.incrementInBoundsCircular ⟨5, 6⟩).1 = (vp.index ⟨5, 6⟩ + 1) % vp.cellCount := by
  intro vp
  obtain ⟨-, -, -, hmoves⟩ := @positions_are_indices vp (by decide)
  exact ⟨by decide, (hmoves ⟨4, 4⟩ (by decide)).1 4, (hmoves ⟨5, 6⟩ (by decide)).2.1.2⟩

end Terminal.Types.Viewport
