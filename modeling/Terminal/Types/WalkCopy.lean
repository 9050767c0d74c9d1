import Terminal.Lib.InPlace
import Terminal.Types.Viewport

/-!
# Copying a rectangle over itself

The walk direction follows from the two origins, so that a cell is read before it is written.
-/

namespace Terminal.Types

open InPlace List

namespace Viewport

/-! ## The loops -/

def area (vp : Viewport) : Nat := vp.width.toNat * vp.height.toNat

def walk (vp : Viewport) (dir : WalkDir) : Option (List Point) :=
  let body (s : List Point × Point) := ((s.1 ++ [s.2], (vp.walkInBounds s.2 dir).1), (vp.walkInBounds s.2 dir).2)
  (doWhile body vp.area ([], vp.getWalkOrigin dir)).map (·.1)

section

variable {α : Type} (source target : Viewport)

def copyWalk (buffer : Point → α) : Option (Point → α) :=
  let dir := determineWalkDirection source target
  let body (s : (Point → α) × Point × Point) :=
    ((Function.update s.1 s.2.2 (s.1 s.2.1), (source.walkInBounds s.2.1 dir).1, (target.walkInBounds s.2.2 dir).1),
      (target.walkInBounds s.2.2 dir).2)
  (doWhile body target.area (buffer, source.getWalkOrigin dir, target.getWalkOrigin dir)).map (·.1)

/-- The loop of `_CopyRectangle`: two cells are read before the first write. -/
def copyAhead (buffer : Point → α) : Option (Point → α) :=
  let dir := determineWalkDirection source target
  let body (s : (Point → α) × α × Point × Point) :=
    let sourcePos := (source.walkInBounds s.2.2.1 dir).1
    ((Function.update s.1 s.2.2.2 s.2.1, s.1 sourcePos, sourcePos, (target.walkInBounds s.2.2.2 dir).1),
      (target.walkInBounds s.2.2.2 dir).2)
  let sourcePos := source.getWalkOrigin dir
  (doWhile body target.area (buffer, buffer sourcePos, sourcePos, target.getWalkOrigin dir)).map (·.1)

def copySnapshot (buffer : Point → α) (pos : Point) : α :=
  if target.Contains pos then buffer ⟨pos.x + (source.left - target.left), pos.y + (source.top - target.top)⟩
  else buffer pos

end

/-! ## One walk -/

def walkPos (vp : Viewport) (dir : WalkDir) (k : Nat) : Point :=
  vp.walkAt dir (k % vp.width.toNat) (k / vp.width.toNat)

section

variable {vp : Viewport}

theorem isValid.width_pos (h : vp.isValid) : 0 < vp.width.toNat := by
  obtain ⟨-, -, h, -⟩ := h
  unfold width rightExclusive
  omega

theorem isValid.height_pos (h : vp.isValid) : 0 < vp.height.toNat := by
  obtain ⟨-, -, -, h⟩ := h
  unfold height bottomExclusive
  omega

theorem isValid.area_pos (h : vp.isValid) : 0 < vp.area := Nat.mul_pos h.width_pos h.height_pos

theorem walkPos_zero (vp : Viewport) (dir : WalkDir) : vp.walkPos dir 0 = vp.getWalkOrigin dir := by
  unfold walkPos
  rw [Nat.zero_mod, Nat.zero_div, walkAt_zero]

theorem column_lt (hvalid : vp.isValid) (k : Nat) : ((k % vp.width.toNat : Nat) : Int) < vp.width := by
  have := Nat.mod_lt k hvalid.width_pos
  omega

theorem row_lt {k : Nat} (h : k < vp.area) : ((k / vp.width.toNat : Nat) : Int) < vp.height := by
  have := Nat.div_lt_of_lt_mul h
  generalize k / vp.width.toNat = row at *
  omega

def walkStop (vp : Viewport) (dir : WalkDir) (k : Nat) : Point := vp.walkPos dir (min k (vp.area - 1))

theorem walkStop_eq (dir : WalkDir) {k : Nat} (h : k < vp.area) : vp.walkStop dir k = vp.walkPos dir k := by
  unfold walkStop
  rw [Nat.min_eq_left (by omega)]

theorem walkInBounds_walkStop (hvalid : vp.isValid) (dir : WalkDir) {k : Nat} (h : k < vp.area) :
    vp.walkInBounds (vp.walkStop dir k) dir = (vp.walkStop dir (k + 1), decide (k + 1 < vp.area)) := by
  have hw := hvalid.width_pos
  have hmod := Nat.mod_lt k hw
  have hk := Nat.div_add_mod k vp.width.toNat
  rw [walkStop_eq dir h, walkPos, walkInBounds_walkAt dir (column_lt hvalid k) (row_lt h)]
  have hrow := row_lt h
  by_cases hcolumn : k % vp.width.toNat + 1 < vp.width.toNat
  · have hnext : k + 1 < vp.area := by
      have : k / vp.width.toNat + 1 ≤ vp.height.toNat := by omega
      have := Nat.mul_le_mul_left vp.width.toNat this
      rw [Nat.mul_add] at this
      unfold area
      omega
    rw [if_pos (by omega), walkStop_eq dir hnext, walkPos, decide_eq_true hnext]
    have hdiv : (k + 1) / vp.width.toNat = k / vp.width.toNat := by
      rw [← hk, Nat.add_assoc, Nat.mul_add_div hw, Nat.mul_add_div hw, Nat.div_eq_of_lt hcolumn, Nat.div_eq_of_lt hmod]
    have hrem : (k + 1) % vp.width.toNat = k % vp.width.toNat + 1 := by
      rw [Nat.add_mod, Nat.mod_eq_of_lt (show 1 < vp.width.toNat by omega), Nat.mod_eq_of_lt hcolumn]
    rw [hdiv, hrem]
  · have hk' : k + 1 = vp.width.toNat * (k / vp.width.toNat + 1) := by
      rw [Nat.mul_add]
      omega
    have hdiv : (k + 1) / vp.width.toNat = k / vp.width.toNat + 1 := by
      rw [hk', Nat.mul_div_cancel_left _ hw]
    have hrem : (k + 1) % vp.width.toNat = 0 := by
      rw [hk', Nat.mul_mod_right]
    rw [if_neg (by omega)]
    by_cases hnext : k + 1 < vp.area
    · have hrow' := row_lt hnext
      rw [if_pos (by omega), walkStop_eq dir hnext, walkPos, hdiv, hrem, decide_eq_true hnext]
    · have hend : ¬(k / vp.width.toNat : Nat) + (1 : Int) < vp.height := by
        intro hlt
        have : k / vp.width.toNat + 2 ≤ vp.height.toNat := by omega
        have := Nat.mul_le_mul_left vp.width.toNat this
        rw [Nat.mul_add] at this hk'
        unfold area at hnext
        omega
      rw [if_neg hend, decide_eq_false hnext, walkStop, Nat.min_eq_right (by omega), walkPos,
        show vp.area - 1 = k by omega]

theorem walk_eq (hvalid : vp.isValid) (dir : WalkDir) : vp.walk dir = some ((range vp.area).map (vp.walkPos dir)) := by
  unfold walk
  rw [← walkPos_zero]
  refine congrArg (Option.map (·.1)) (doWhile_eq (fun k => ((range k).map (vp.walkPos dir), vp.walkStop dir k))
    ?_ hvalid.area_pos (Nat.le_add_left ..))
  intro k hk
  rw [walkInBounds_walkStop hvalid dir hk, range_succ, map_append, walkStop_eq dir hk]
  rfl

theorem walkPos_lex {i j : Nat} (w : Nat) (h : i < j) : i / w < j / w ∨ i / w = j / w ∧ i % w < j % w := by
  rcases Nat.lt_or_ge (i / w) (j / w) with hlt | hge
  · exact .inl hlt
  · have hle := Nat.div_le_div_right (c := w) (Nat.le_of_lt h)
    have hi := Nat.div_add_mod i w
    have hj := Nat.div_add_mod j w
    have heq : i / w = j / w := by omega
    rw [heq] at hi
    exact .inr ⟨heq, by omega⟩

theorem walkPos_ne (dir : WalkDir) {i j : Nat} (h : i < j) : vp.walkPos dir i ≠ vp.walkPos dir j := by
  intro heq
  obtain ⟨hcolumn, hrow⟩ := walkAt_inj dir heq
  rcases walkPos_lex vp.width.toNat h with hlt | hlt <;> omega

theorem walk_nodup (vp : Viewport) (dir : WalkDir) : ((range vp.area).map (vp.walkPos dir)).Nodup := by
  refine List.Pairwise.map _ (fun i j hij => ?_) pairwise_lt_range
  exact walkPos_ne dir hij

theorem mem_walk (hvalid : vp.isValid) (dir : WalkDir) {pos : Point} :
    pos ∈ (range vp.area).map (vp.walkPos dir) ↔ vp.Contains pos := by
  rw [contains_iff_walkAt dir, mem_map]
  constructor
  · rintro ⟨k, hk, rfl⟩
    exact ⟨_, _, column_lt hvalid k, row_lt (mem_range.mp hk), rfl⟩
  · rintro ⟨i, j, hi, hj, rfl⟩
    have hw := hvalid.width_pos
    have hcolumn : i < vp.width.toNat := by omega
    refine ⟨vp.width.toNat * j + i, mem_range.mpr ?_, ?_⟩
    · have : j + 1 ≤ vp.height.toNat := by omega
      have := Nat.mul_le_mul_left vp.width.toNat this
      rw [Nat.mul_add] at this
      unfold area
      omega
    · rw [walkPos, Nat.mul_add_mod, Nat.mod_eq_of_lt hcolumn, Nat.mul_add_div hw,
        Nat.div_eq_of_lt hcolumn, Nat.add_zero]

end

/-! ## Two walks -/

section

variable {α : Type} {source target : Viewport}

def moves (source target : Viewport) : List (Point × Point) :=
  let dir := determineWalkDirection source target
  (List.range target.area).map fun k => (source.walkPos dir k, target.walkPos dir k)

theorem width_eq (hsize : target.dimensions = source.dimensions) :
    target.width = source.width := congrArg Size.width hsize

theorem height_eq (hsize : target.dimensions = source.dimensions) : target.height = source.height :=
  congrArg Size.height hsize

theorem area_eq (hsize : target.dimensions = source.dimensions) : target.area = source.area := by
  unfold area
  rw [width_eq hsize, height_eq hsize]

theorem walkPos_shift (hsize : target.dimensions = source.dimensions) (dir : WalkDir) (k : Nat) :
    source.walkPos dir k = ⟨(target.walkPos dir k).x + (source.left - target.left),
      (target.walkPos dir k).y + (source.top - target.top)⟩ := by
  have hw := width_eq hsize
  have hh := height_eq hsize
  obtain ⟨x, y⟩ := dir
  unfold walkPos
  rw [hw]
  unfold width rightExclusive at hw
  unfold height bottomExclusive at hh
  cases x <;> cases y
  all_goals
    simp only [walkAt, Point.mk.injEq]
    omega

theorem walkPos_target_ne (hsize : target.dimensions = source.dimensions) {i j : Nat} (h : i < j) :
    target.walkPos (determineWalkDirection source target) i ≠
      source.walkPos (determineWalkDirection source target) j := by
  rw [walkPos_shift hsize]
  have hlex := walkPos_lex target.width.toNat h
  unfold walkPos walkAt determineWalkDirection
  generalize i % target.width.toNat = column, i / target.width.toNat = row at *
  split_ifs with hx hy hy
  all_goals
    simp only [ne_eq, Point.mk.injEq]
    omega

theorem safe_moves (hsize : target.dimensions = source.dimensions) : Safe (moves source target) := by
  refine List.Pairwise.map _ (fun i j hij => ?_) pairwise_lt_range
  exact ⟨walkPos_target_ne hsize hij, walkPos_ne _ hij⟩

theorem copyEach_moves (htarget : target.isValid) (hsize : target.dimensions = source.dimensions)
    (buffer : Point → α) : copyEach (moves source target) buffer = copySnapshot source target buffer := by
  funext pos
  unfold copySnapshot
  split
  · next hin =>
    obtain ⟨k, hk, rfl⟩ := mem_map.mp ((mem_walk htarget (determineWalkDirection source target)).mpr hin)
    rw [← walkPos_shift hsize]
    exact copyEach_moved (safe_moves hsize) buffer (mem_map.mpr ⟨k, hk, rfl⟩)
  · next hout =>
    refine copyEach_frame _ _ fun move hmove heq => hout ?_
    obtain ⟨k, hk, rfl⟩ := mem_map.mp hmove
    rw [← mem_walk htarget (determineWalkDirection source target), ← heq]
    exact mem_map.mpr ⟨k, hk, rfl⟩

def copied (source target : Viewport) (buffer : Point → α) (k : Nat) : Point → α :=
  copyEach ((moves source target).take k) buffer

theorem copied_area (buffer : Point → α) :
    copied source target buffer target.area = copyEach (moves source target) buffer := by
  unfold copied
  rw [take_of_length_le (by simp [moves])]

theorem copied_succ (buffer : Point → α) {k : Nat} (hk : k < target.area) : copied source target buffer (k + 1) =
      Function.update (copied source target buffer k) (target.walkPos (determineWalkDirection source target) k)
        (copied source target buffer k (source.walkPos (determineWalkDirection source target) k)) := by
  unfold copied copyEach
  rw [take_add_one, getElem?_eq_getElem (by simpa [moves] using hk)]
  simp [moves]

theorem copied_pred (hsize : target.dimensions = source.dimensions) (buffer : Point → α) {k : Nat}
    (hk : k < target.area) :
    copied source target buffer (k - 1) (source.walkPos (determineWalkDirection source target) k) =
      copied source target buffer k (source.walkPos (determineWalkDirection source target) k) := by
  rcases k with _ | k
  · rfl
  · rw [copied_succ buffer (by omega)]
    exact (Function.update_of_ne (walkPos_target_ne hsize (Nat.lt_succ_self k)).symm _ _).symm

theorem copyWalk_eq (hsource : source.isValid) (htarget : target.isValid)
    (hsize : target.dimensions = source.dimensions) (buffer : Point → α) :
    copyWalk source target buffer = some (copySnapshot source target buffer) := by
  have harea := area_eq hsize
  unfold copyWalk
  dsimp only
  rw [← copyEach_moves htarget hsize, ← copied_area buffer, ← walkPos_zero, ← walkPos_zero,
    ← walkStop_eq _ htarget.area_pos, ← walkStop_eq _ hsource.area_pos]
  refine congrArg (Option.map (·.1)) (doWhile_eq (fun k => (copied source target buffer k,
    source.walkStop (determineWalkDirection source target) k,
    target.walkStop (determineWalkDirection source target) k)) ?_ htarget.area_pos (Nat.le_add_left ..))
  intro k hk
  have hk' : k < source.area := harea ▸ hk
  rw [walkInBounds_walkStop hsource _ hk', walkInBounds_walkStop htarget _ hk, walkStop_eq _ hk, walkStop_eq _ hk',
    copied_succ buffer hk]

theorem copyAhead_eq (hsource : source.isValid) (htarget : target.isValid)
    (hsize : target.dimensions = source.dimensions) (buffer : Point → α) :
    copyAhead source target buffer = some (copySnapshot source target buffer) := by
  have harea := area_eq hsize
  unfold copyAhead
  dsimp only
  rw [← copyEach_moves htarget hsize, ← copied_area buffer, ← walkPos_zero, ← walkPos_zero,
    ← walkStop_eq _ htarget.area_pos, ← walkStop_eq _ hsource.area_pos]
  -- what was read ahead was read before the last write
  refine congrArg (Option.map (·.1)) (doWhile_eq (fun k => (copied source target buffer k,
    copied source target buffer (k - 1) (source.walkStop (determineWalkDirection source target) k),
    source.walkStop (determineWalkDirection source target) k,
    target.walkStop (determineWalkDirection source target) k)) ?_ htarget.area_pos (Nat.le_add_left ..))
  intro k hk
  have hk' : k < source.area := harea ▸ hk
  rw [walkInBounds_walkStop hsource _ hk', walkInBounds_walkStop htarget _ hk, walkStop_eq _ hk, walkStop_eq _ hk',
    copied_succ buffer hk, copied_pred hsize buffer hk, Nat.add_sub_cancel]

/-- In place or from a snapshot it is the same. -/
theorem copy_in_place (hsource : source.isValid) (htarget : target.isValid)
    (hsize : target.dimensions = source.dimensions) (buffer : Point → α) :
    copyWalk source target buffer = some (copySnapshot source target buffer) ∧
      copyAhead source target buffer = some (copySnapshot source target buffer) ∧
      ∀ vp ∈ [source, target], ∃ visited, vp.walk (determineWalkDirection source target) = some visited ∧
        visited.Nodup ∧ ∀ pos, pos ∈ visited ↔ vp.Contains pos := by
  refine ⟨copyWalk_eq hsource htarget hsize buffer, copyAhead_eq hsource htarget hsize buffer, ?_⟩
  intro vp hvp
  have hvalid : vp.isValid := by
    rcases mem_pair.mp hvp with rfl | rfl
    · exact hsource
    · exact htarget
  exact ⟨_, walk_eq hvalid _, walk_nodup vp _, fun pos => mem_walk hvalid _⟩

theorem copy_in_place_shift :
    let source : Viewport := ⟨0, 1, 2, 2⟩
    let target : Viewport := ⟨1, 0, 3, 1⟩
    ∃ copy, copyWalk source target (fun pos => (pos.x, pos.y)) = some copy ∧ copy ⟨2, 1⟩ = (1, 2) ∧
      copy ⟨0, 1⟩ = (0, 1) := by
  refine ⟨_, (copy_in_place (by decide) (by decide) (by decide) _).1, by decide, by decide⟩

end

end Viewport

end Terminal.Types
