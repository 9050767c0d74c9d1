import Mathlib.Algebra.Order.Archimedean.Basic
import Mathlib.Algebra.Order.Field.Basic
import Mathlib.Algebra.Order.Floor.Ring
import Mathlib.Data.Rat.Floor
import Terminal.App.Pane
import Terminal.Lib.Bracket

/-!
# Snapping the sizes of panes (`Pane::_CalcSnappedChildrenSizes`)

The children grow from their minimum sizes, one cell of one terminal after the other, until they
fill the pane. Sizes are exact; `widthOrHeight` is the axis.
-/

namespace Terminal.App

variable {K : Type} [Field K] [LinearOrder K]

/-- The sizes of a control. Above the minimum `SnapDimensionToGrid` finds the grid line below. -/
structure TermControl (K : Type) [Field K] [LinearOrder K] where
  minimumSize : Bool → K
  characterDimensions : Bool → K
  nonTerminalArea : Bool → K
  snapDimensionToGrid : Bool → K → K
  minimumSize_pos : ∀ widthOrHeight, 0 < minimumSize widthOrHeight
  characterDimensions_pos : ∀ widthOrHeight, 0 < characterDimensions widthOrHeight
  snapDimensionToGrid_line : ∀ widthOrHeight dimension, minimumSize widthOrHeight < dimension → ∃ cells : ℤ,
    snapDimensionToGrid widthOrHeight dimension =
      cells * characterDimensions widthOrHeight + nonTerminalArea widthOrHeight
  snapDimensionToGrid_le : ∀ widthOrHeight dimension, minimumSize widthOrHeight < dimension →
    snapDimensionToGrid widthOrHeight dimension ≤ dimension
  lt_snapDimensionToGrid : ∀ widthOrHeight dimension, minimumSize widthOrHeight < dimension →
    dimension < snapDimensionToGrid widthOrHeight dimension + characterDimensions widthOrHeight

section Grid

variable [IsStrictOrderedRing K] [FloorRing K] (fontDimension nonTerminalArea dimension : K)

/-- The conversion to `int` drops the fraction. -/
def truncate (x : K) : ℤ := if 0 ≤ x then ⌊x⌋ else ⌈x⌉

def snapToGrid : K :=
  let gridSize := dimension - nonTerminalArea
  let cells := truncate (gridSize / fontDimension)
  cells * fontDimension + nonTerminalArea

variable {fontDimension nonTerminalArea dimension}

theorem snapToGrid_spec (hfont : 0 < fontDimension) (hmin : fontDimension + nonTerminalArea < dimension) :
    snapToGrid fontDimension nonTerminalArea dimension ≤ dimension ∧
      dimension < snapToGrid fontDimension nonTerminalArea dimension + fontDimension := by
  have hgrid : 0 < dimension - nonTerminalArea := hfont.trans (lt_sub_iff_add_lt.mpr hmin)
  simp only [snapToGrid, truncate]
  rw [if_pos (div_pos hgrid hfont).le]
  constructor
  · rw [← le_sub_iff_add_le, ← le_div_iff₀ hfont]
    exact Int.floor_le _
  · have hlt := Int.lt_floor_add_one ((dimension - nonTerminalArea) / fontDimension)
    rw [div_lt_iff₀ hfont, add_mul, one_mul, sub_lt_iff_lt_add] at hlt
    rwa [add_right_comm]

def TermControl.ofGrid (width height nonTerminalArea : K) (hwidth : 0 < width) (hheight : 0 < height)
    (harea : 0 ≤ nonTerminalArea) : TermControl K where
  minimumSize widthOrHeight := (if widthOrHeight then width else height) + nonTerminalArea
  characterDimensions widthOrHeight := if widthOrHeight then width else height
  nonTerminalArea _ := nonTerminalArea
  snapDimensionToGrid widthOrHeight := snapToGrid (if widthOrHeight then width else height) nonTerminalArea
  minimumSize_pos := by rintro (_ | _) <;> exact add_pos_of_pos_of_nonneg ‹_› harea
  characterDimensions_pos := by rintro (_ | _) <;> assumption
  snapDimensionToGrid_line _ _ _ := ⟨_, rfl⟩
  snapDimensionToGrid_le := by rintro (_ | _) dimension hmin <;> exact (snapToGrid_spec ‹_› hmin).1
  lt_snapDimensionToGrid := by rintro (_ | _) dimension hmin <;> exact (snapToGrid_spec ‹_› hmin).2

end Grid

structure Borders where
  top : Bool
  bottom : Bool
  left : Bool
  right : Bool
deriving DecidableEq, Repr

def paneBorderSize : Nat := 2

variable (widthOrHeight : Bool)

def Borders.size (borders : Borders) : K :=
  if widthOrHeight then
    (if borders.left then (paneBorderSize : K) else 0) + (if borders.right then (paneBorderSize : K) else 0)
  else
    (if borders.top then (paneBorderSize : K) else 0) + (if borders.bottom then (paneBorderSize : K) else 0)

structure SnapSizeResult (K : Type) where
  lower : K
  higher : K
deriving DecidableEq, Repr

def SnapSizeResult.closest (dimension : K) (sizes : SnapSizeResult K) : K :=
  if dimension - sizes.lower < sizes.higher - dimension then sizes.lower else sizes.higher

structure SnapChildrenSizeResult (K : Type) where
  lower : K × K
  higher : K × K
deriving DecidableEq, Repr

structure LeafPane (K : Type) [Field K] [LinearOrder K] where
  control : TermControl K
  borders : Borders

def LeafPane.getMinSize (leaf : LeafPane K) : K :=
  leaf.control.minimumSize widthOrHeight + leaf.borders.size widthOrHeight

def LeafPane.calcSnappedDimension (dimension : K) (leaf : LeafPane K) : SnapSizeResult K :=
  let minDimension := leaf.getMinSize widthOrHeight
  if dimension ≤ minDimension then ⟨minDimension, minDimension⟩
  else
    let lower := leaf.control.snapDimensionToGrid widthOrHeight dimension + leaf.borders.size widthOrHeight
    if lower = dimension then ⟨lower, lower⟩
    else ⟨lower, lower + leaf.control.characterDimensions widthOrHeight⟩

/-- The sizes of a pane, with the children's next step where known. -/
inductive LayoutSizeNode (K : Type) where
  | leaf (size : K) (isMinimumSize : Bool)
  | split (size : K) (isMinimumSize : Bool) (firstChild secondChild : LayoutSizeNode K)
    (nextFirstChild nextSecondChild : Option (LayoutSizeNode K))

namespace LayoutSizeNode

def size : LayoutSizeNode K → K
  | leaf size _ => size
  | split size _ _ _ _ _ => size

def childSizes : LayoutSizeNode K → K × K
  | leaf .. => (0, 0)
  | split _ _ firstChild secondChild _ _ => (firstChild.size, secondChild.size)

end LayoutSizeNode

namespace Pane

variable (splitState : SplitState)

def isAlong : Bool :=
  splitState = if widthOrHeight then .horizontal else .vertical

def getMinSize (widthOrHeight : Bool) : Pane (LeafPane K) K → K
  | leaf control _ _ => control.getMinSize widthOrHeight
  | split splitState _ _ first second =>
    let firstSize := first.getMinSize widthOrHeight
    let secondSize := second.getMinSize widthOrHeight
    if widthOrHeight then
      if splitState = .vertical then firstSize + secondSize else max firstSize secondSize
    else
      if splitState = .horizontal then firstSize + secondSize else max firstSize secondSize

def createMinSizeTree (widthOrHeight : Bool) : Pane (LeafPane K) K → LayoutSizeNode K
  | leaf control _ _ => .leaf (control.getMinSize widthOrHeight) true
  | split splitState position active first second =>
    .split ((split splitState position active first second).getMinSize widthOrHeight) true
      (first.createMinSizeTree widthOrHeight) (second.createMinSizeTree widthOrHeight) none none

def advanceFirstOrSecond (desiredSplitPosition : K)
    (firstSize secondSize nextFirstSize nextSecondSize : K) : Bool :=
  if isAlong widthOrHeight splitState then nextFirstSize < nextSecondSize
  else
    let deviation1 := nextFirstSize - (nextFirstSize + secondSize) * desiredSplitPosition
    let deviation2 := -1 * (firstSize - (firstSize + nextSecondSize) * desiredSplitPosition)
    deviation1 ≤ deviation2

def splitSize (firstSize secondSize : K) : K :=
  if isAlong widthOrHeight splitState then max firstSize secondSize else firstSize + secondSize

def advanceSnappedDimension (widthOrHeight : Bool) : Pane (LeafPane K) K → LayoutSizeNode K → LayoutSizeNode K
  | leaf control _ _, .leaf size isMinimumSize =>
    if isMinimumSize then .leaf (control.calcSnappedDimension widthOrHeight (size + 1)).higher false
    else .leaf (size + control.control.characterDimensions widthOrHeight) false
  | split splitState position _ first second, .split _ _ firstChild secondChild nextFirstChild nextSecondChild =>
    let nextFirst := nextFirstChild.getD (first.advanceSnappedDimension widthOrHeight firstChild)
    let nextSecond := nextSecondChild.getD (second.advanceSnappedDimension widthOrHeight secondChild)
    if advanceFirstOrSecond widthOrHeight splitState position firstChild.size secondChild.size
      nextFirst.size nextSecond.size then
      .split (splitSize widthOrHeight splitState nextFirst.size secondChild.size) false nextFirst secondChild
        (some (first.advanceSnappedDimension widthOrHeight nextFirst)) (some nextSecond)
    else
      .split (splitSize widthOrHeight splitState firstChild.size nextSecond.size) false firstChild nextSecond
        (some nextFirst) (some (second.advanceSnappedDimension widthOrHeight nextSecond))
  -- A node has the shape of its pane.
  | _, node => node

def calcSnappedChildrenSizes (fuel : Nat) (fullSize : K) : Pane (LeafPane K) K → Option (SnapChildrenSizeResult K)
  | leaf .. => none
  | split splitState position active first second =>
    let pane := split splitState position active first second
    let sizeTree := pane.createMinSizeTree widthOrHeight
    (Bracket.growTo (pane.advanceSnappedDimension widthOrHeight) LayoutSizeNode.size fullSize fuel
      sizeTree sizeTree).map
      fun (lastSizeTree, sizeTree) => ⟨lastSizeTree.childSizes, sizeTree.childSizes⟩

def calcSnappedDimension (widthOrHeight : Bool) (fuel : Nat) (dimension : K) :
    Pane (LeafPane K) K → Option (SnapSizeResult K)
  | leaf control _ _ => some (control.calcSnappedDimension widthOrHeight dimension)
  | split splitState position active first second =>
    if isAlong widthOrHeight splitState then do
      let firstSnapped ← first.calcSnappedDimension widthOrHeight fuel dimension
      let secondSnapped ← second.calcSnappedDimension widthOrHeight fuel dimension
      return ⟨max firstSnapped.lower secondSnapped.lower, min firstSnapped.higher secondSnapped.higher⟩
    else do
      let childSizes ← (split splitState position active first second).calcSnappedChildrenSizes
        widthOrHeight fuel dimension
      return ⟨childSizes.lower.1 + childSizes.lower.2, childSizes.higher.1 + childSizes.higher.2⟩

end Pane

/-! ## One step -/

namespace Pane

variable {axis : Bool} {state : SplitState} {position : K} {active : Bool} {first second pane : Pane (LeafPane K) K}
  {node : LayoutSizeNode K}

/-- A node fits its pane, and what is known of the next step is right. -/
def WellSized (axis : Bool) : Pane (LeafPane K) K → LayoutSizeNode K → Prop
  | leaf .., .leaf size _ => 0 < size
  | split state _ _ first second, .split size _ a b na nb =>
    first.WellSized axis a ∧ second.WellSized axis b ∧
    (∀ next ∈ na, next = first.advanceSnappedDimension axis a) ∧
    (∀ next ∈ nb, next = second.advanceSnappedDimension axis b) ∧
    size = splitSize axis state a.size b.size
  | _, _ => False

theorem WellSized.advance_cases (h : (split state position active first second).WellSized axis node) :
    ∃ size minimal a b na nb, node = .split size minimal a b na nb ∧ first.WellSized axis a ∧ second.WellSized axis b ∧
      size = splitSize axis state a.size b.size ∧
      ((split state position active first second).advanceSnappedDimension axis node =
          .split (splitSize axis state (first.advanceSnappedDimension axis a).size b.size)
            false (first.advanceSnappedDimension axis a) b
            (some (first.advanceSnappedDimension axis (first.advanceSnappedDimension axis a)))
            (some (second.advanceSnappedDimension axis b)) ∨
        (split state position active first second).advanceSnappedDimension axis node =
          .split (splitSize axis state a.size (second.advanceSnappedDimension axis b).size)
            false a (second.advanceSnappedDimension axis b)
            (some (first.advanceSnappedDimension axis a))
            (some (second.advanceSnappedDimension axis (second.advanceSnappedDimension axis b)))) := by
  cases node with
  | leaf => exact h.elim
  | split size minimal a b na nb =>
    obtain ⟨hfirst, hsecond, hnextFirst, hnextSecond, hsize⟩ := h
    refine ⟨size, minimal, a, b, na, nb, rfl, hfirst, hsecond, hsize, ?_⟩
    have hgetFirst : na.getD (first.advanceSnappedDimension axis a) = first.advanceSnappedDimension axis a := by
      cases na with
      | none => rfl
      | some next => exact hnextFirst next rfl
    have hgetSecond : nb.getD (second.advanceSnappedDimension axis b) = second.advanceSnappedDimension axis b := by
      cases nb with
      | none => rfl
      | some next => exact hnextSecond next rfl
    rw [advanceSnappedDimension, hgetFirst, hgetSecond]
    split_ifs
    · exact .inl rfl
    · exact .inr rfl

theorem getMinSize_split (axis : Bool) (state : SplitState) (position : K) (active : Bool)
    (first second : Pane (LeafPane K) K) :
    (split state position active first second).getMinSize axis =
      splitSize axis state (first.getMinSize axis) (second.getMinSize axis) := by
  cases axis <;> cases state <;> rfl

theorem size_createMinSizeTree (axis : Bool) (pane : Pane (LeafPane K) K) :
    (pane.createMinSizeTree axis).size = pane.getMinSize axis := by
  cases pane <;> rfl

/-- From the grid line below, there is room for the borders of each leaf. -/
def SnapsInside (axis : Bool) (dimension : K) : Pane (LeafPane K) K → Prop
  | leaf control _ _ => dimension ≤ control.getMinSize axis ∨ ∃ cells : ℤ,
      let line := cells * control.control.characterDimensions axis + control.control.nonTerminalArea axis
      line + control.borders.size axis ≤ dimension ∧ dimension < line + control.control.characterDimensions axis
  | split state _ _ first second =>
    isAlong axis state → first.SnapsInside axis dimension ∧ second.SnapsInside axis dimension

theorem WellSized.childSizes_add (h : (split state position active first second).WellSized axis node)
    (hacross : ¬ isAlong axis state) : node.childSizes.1 + node.childSizes.2 = node.size := by
  obtain ⟨size, minimal, a, b, na, nb, rfl, -, -, rfl, -⟩ := h.advance_cases
  rw [splitSize, if_neg hacross]
  rfl

end Pane

variable [IsStrictOrderedRing K]

theorem Borders.size_nonneg (axis : Bool) (borders : Borders) : 0 ≤ (borders.size axis : K) := by
  have h : ∀ flag : Bool, 0 ≤ (if flag then (paneBorderSize : K) else 0) := by
    intro flag
    split_ifs
    · exact Nat.cast_nonneg _
    · exact le_rfl
  cases axis <;> exact add_nonneg (h _) (h _)

theorem LeafPane.getMinSize_pos (axis : Bool) (leaf : LeafPane K) : 0 < leaf.getMinSize axis :=
  add_pos_of_pos_of_nonneg (leaf.control.minimumSize_pos axis) (leaf.borders.size_nonneg axis)

theorem LeafPane.minimumSize_le (axis : Bool) (leaf : LeafPane K) :
    leaf.control.minimumSize axis ≤ leaf.getMinSize axis :=
  le_add_of_nonneg_right (leaf.borders.size_nonneg axis)

theorem LeafPane.le_higher (axis : Bool) (dimension : K) (leaf : LeafPane K) :
    dimension ≤ (leaf.calcSnappedDimension axis dimension).higher := by
  simp only [calcSnappedDimension]
  split_ifs with hmin hsnapped
  · exact hmin
  · exact hsnapped.ge
  · calc dimension ≤ leaf.control.snapDimensionToGrid axis dimension + leaf.control.characterDimensions axis :=
          (leaf.control.lt_snapDimensionToGrid axis dimension ((leaf.minimumSize_le axis).trans_lt (not_le.1 hmin))).le
      _ ≤ _ := add_le_add_left (le_add_of_nonneg_right (leaf.borders.size_nonneg axis)) _

/-- One size is not above, one not below, the closest is chosen. -/
structure SnapSizeResult.Brackets (dimension : K) (sizes : SnapSizeResult K) : Prop where
  lower : sizes.lower ≤ dimension
  higher : dimension ≤ sizes.higher
  closest : ∀ size ∈ [sizes.lower, sizes.higher], |dimension - sizes.closest dimension| ≤ |dimension - size|

theorem SnapSizeResult.Brackets.of_le {dimension : K} {sizes : SnapSizeResult K} (hlower : sizes.lower ≤ dimension)
    (hhigher : dimension ≤ sizes.higher) : sizes.Brackets dimension := by
  have hbelow : |dimension - sizes.lower| = dimension - sizes.lower := abs_of_nonneg (sub_nonneg.2 hlower)
  have habove : |dimension - sizes.higher| = sizes.higher - dimension := by
    rw [abs_sub_comm, abs_of_nonneg (sub_nonneg.2 hhigher)]
  refine ⟨hlower, hhigher, ?_⟩
  rw [List.forall_mem_cons, List.forall_mem_singleton, SnapSizeResult.closest]
  split_ifs with hcloser
  · rw [hbelow, habove]
    exact ⟨le_rfl, hcloser.le⟩
  · rw [hbelow, habove]
    exact ⟨not_lt.1 hcloser, le_rfl⟩

namespace Pane

variable {axis : Bool} {state : SplitState} {position : K} {active : Bool} {first second pane : Pane (LeafPane K) K}
  {node : LayoutSizeNode K}

/-- There is one grid line at or below a dimension and less than a cell away. -/
theorem gridLine_unique {cell offset dimension : K} (hcell : 0 < cell) {m n : ℤ} (hm : m * cell + offset ≤ dimension)
    (hm' : dimension < m * cell + offset + cell) (hn : n * cell + offset ≤ dimension)
    (hn' : dimension < n * cell + offset + cell) : m = n := by
  have hlt : ∀ i j : ℤ, i * cell + offset ≤ dimension → dimension < j * cell + offset + cell → i < j + 1 := by
    intro i j hi hj
    have hscaled : (i : K) * cell < (j + 1 : ℤ) * cell := by
      rw [Int.cast_add, Int.cast_one, add_mul, one_mul]
      rw [add_right_comm] at hj
      exact lt_of_add_lt_add_right (hi.trans_lt hj)
    exact_mod_cast lt_of_mul_lt_mul_right hscaled hcell.le
  exact le_antisymm (Int.lt_add_one_iff.1 (hlt m n hm hn')) (Int.lt_add_one_iff.1 (hlt n m hn hm'))

theorem leaf_lower_le_iff {control : LeafPane K} {dimension : K} (hmin : control.getMinSize axis ≤ dimension)
    (id : Option PaneId) (active : Bool) :
    (control.calcSnappedDimension axis dimension).lower ≤ dimension ↔
      (leaf control id active).SnapsInside axis dimension := by
  by_cases hle : dimension ≤ control.getMinSize axis
  · simp [LeafPane.calcSnappedDimension, SnapsInside, hle, hmin]
  have habove := (control.minimumSize_le axis).trans_lt (not_le.1 hle)
  have hsnap := control.control.snapDimensionToGrid_le axis dimension habove
  have hnext := control.control.lt_snapDimensionToGrid axis dimension habove
  obtain ⟨cells, hline⟩ := control.control.snapDimensionToGrid_line axis dimension habove
  have hlower : (control.calcSnappedDimension axis dimension).lower =
      control.control.snapDimensionToGrid axis dimension + control.borders.size axis := by
    simp only [LeafPane.calcSnappedDimension, if_neg hle]
    split_ifs <;> rfl
  rw [hline] at hsnap hnext hlower
  rw [hlower]
  constructor
  · exact fun h => .inr ⟨cells, h, hnext⟩
  · rintro (h | ⟨cells', hroom, hbelow⟩)
    · exact absurd h hle
    · have hline' := (le_add_of_nonneg_right (control.borders.size_nonneg axis)).trans hroom
      rwa [gridLine_unique (control.control.characterDimensions_pos axis) hsnap hnext hline' hbelow]

theorem le_splitSize (axis : Bool) (state : SplitState) {x y : K} (hfirst : 0 < x) (hsecond : 0 < y) :
    x ≤ splitSize axis state x y ∧
    y ≤ splitSize axis state x y := by
  rw [splitSize]
  split_ifs
  · exact ⟨le_max_left _ _, le_max_right _ _⟩
  · exact ⟨le_add_of_nonneg_right hsecond.le, le_add_of_nonneg_left hfirst.le⟩

theorem splitSize_mono {a b c d : K} (hac : a ≤ c) (hbd : b ≤ d) :
    splitSize axis state a b ≤ splitSize axis state c d := by
  rw [splitSize, splitSize]
  split_ifs
  · exact max_le_max hac hbd
  · exact add_le_add hac hbd

theorem WellSized.size_pos (h : pane.WellSized axis node) : 0 < node.size := by
  induction pane generalizing node with
  | leaf =>
    cases node with
    | leaf => exact h
    | split => exact h.elim
  | split state position active first second ihFirst ihSecond =>
    cases node with
    | leaf => exact h.elim
    | split =>
      obtain ⟨hfirst, hsecond, -, -, rfl⟩ := h
      exact (ihFirst hfirst).trans_le (le_splitSize axis state (ihFirst hfirst) (ihSecond hsecond)).1

theorem leaf_advance (axis : Bool) (control : LeafPane K) (id : Option PaneId) (active : Bool)
    (size : K) (minimal : Bool) :
    ∃ grown, (leaf control id active).advanceSnappedDimension axis (.leaf size minimal) = .leaf grown false ∧
      size + min 1 (control.control.characterDimensions axis) ≤ grown := by
  rw [advanceSnappedDimension]
  split_ifs
  · refine ⟨_, rfl, ?_⟩
    exact (add_le_add_right (min_le_left _ _) size).trans (control.le_higher axis (size + 1))
  · exact ⟨_, rfl, add_le_add_right (min_le_right _ _) size⟩

theorem WellSized.advance (h : pane.WellSized axis node) :
    pane.WellSized axis (pane.advanceSnappedDimension axis node) ∧
    node.size ≤ (pane.advanceSnappedDimension axis node).size := by
  induction pane generalizing node with
  | leaf control id active =>
    cases node with
    | split => exact h.elim
    | leaf size minimal =>
      obtain ⟨grown, hadvance, hgrows⟩ := leaf_advance axis control id active size minimal
      have hle : size ≤ grown :=
        (le_add_of_nonneg_right (le_min zero_le_one (control.control.characterDimensions_pos axis).le)).trans hgrows
      rw [hadvance]
      exact ⟨lt_of_lt_of_le h hle, hle⟩
  | split state position active first second ihFirst ihSecond =>
    obtain ⟨size, minimal, a, b, na, nb, rfl, hfirst, hsecond, rfl, hadvance⟩ := h.advance_cases
    rcases hadvance with hadvance | hadvance
    · rw [hadvance]
      exact ⟨⟨(ihFirst hfirst).1, hsecond, by simp, by simp, rfl⟩, splitSize_mono (ihFirst hfirst).2 le_rfl⟩
    · rw [hadvance]
      exact ⟨⟨hfirst, (ihSecond hsecond).1, by simp, by simp, rfl⟩, splitSize_mono le_rfl (ihSecond hsecond).2⟩

theorem wellSized_createMinSizeTree (axis : Bool) (pane : Pane (LeafPane K) K) :
    pane.WellSized axis (pane.createMinSizeTree axis) := by
  induction pane with
  | leaf control => exact control.getMinSize_pos axis
  | split state position active first second ihFirst ihSecond =>
    refine ⟨ihFirst, ihSecond, by simp, by simp, ?_⟩
    rw [size_createMinSizeTree, size_createMinSizeTree, getMinSize_split]

/-! ## All steps -/

theorem WellSized.iterate (h : pane.WellSized axis node) (n : Nat) :
    pane.WellSized axis ((pane.advanceSnappedDimension axis)^[n] node) := by
  induction n with
  | zero => exact h
  | succ n ih =>
    rw [Function.iterate_succ_apply']
    exact ih.advance.1

theorem WellSized.size_mono (h : pane.WellSized axis node) :
    Monotone fun n => ((pane.advanceSnappedDimension axis)^[n] node).size := by
  apply monotone_nat_of_le_succ
  intro n
  rw [Function.iterate_succ_apply']
  exact (h.iterate n).advance.2

theorem WellSized.childSizes_le_advance (h : (split state position active first second).WellSized axis node) :
    node.childSizes ≤ ((split state position active first second).advanceSnappedDimension axis node).childSizes := by
  obtain ⟨size, minimal, a, b, na, nb, rfl, hfirst, hsecond, -, hadvance⟩ := h.advance_cases
  rcases hadvance with hadvance | hadvance
  · rw [hadvance]
    exact ⟨hfirst.advance.2, le_rfl⟩
  · rw [hadvance]
    exact ⟨le_rfl, hsecond.advance.2⟩

theorem WellSized.childSizes_mono (h : (split state position active first second).WellSized axis node) :
    Monotone fun n => (((split state position active first second).advanceSnappedDimension axis)^[n]
      node).childSizes := by
  apply monotone_nat_of_le_succ
  intro n
  rw [Function.iterate_succ_apply']
  exact (h.iterate n).childSizes_le_advance

theorem WellSized.iterate_split {a b : LayoutSizeNode K} {size : K} {minimal : Bool} {na nb : Option (LayoutSizeNode K)}
    (h : (split state position active first second).WellSized axis (.split size minimal a b na nb)) (n : Nat) :
    ∃ i j grown minimal' na' nb', i + j = n ∧
      ((split state position active first second).advanceSnappedDimension axis)^[n]
        (.split size minimal a b na nb) =
      .split grown minimal' ((first.advanceSnappedDimension axis)^[i] a)
        ((second.advanceSnappedDimension axis)^[j] b) na' nb' := by
  induction n with
  | zero => exact ⟨0, 0, size, minimal, na, nb, rfl, rfl⟩
  | succ n ih =>
    obtain ⟨i, j, grown, minimal', na', nb', rfl, hnode⟩ := ih
    obtain ⟨_, _, _, _, _, _, heq, -, -, -, hadvance⟩ := (h.iterate (i + j)).advance_cases
    obtain ⟨-, -, rfl, rfl, -, -⟩ := LayoutSizeNode.split.inj (hnode.symm.trans heq)
    rw [← Function.iterate_succ_apply' (first.advanceSnappedDimension axis),
      ← Function.iterate_succ_apply' (second.advanceSnappedDimension axis)] at hadvance
    rw [Function.iterate_succ_apply']
    rcases hadvance with hadvance | hadvance
    · exact ⟨i + 1, j, _, _, _, _, by omega, hadvance⟩
    · exact ⟨i, j + 1, _, _, _, _, by omega, hadvance⟩

variable [Archimedean K]

theorem leaf_unbounded (axis : Bool) (control : LeafPane K) (id : Option PaneId) (active : Bool) (size : K)
    (minimal : Bool) (bound : K) :
    ∃ n, bound ≤ (((leaf control id active).advanceSnappedDimension axis)^[n] (.leaf size minimal)).size := by
  have hpos : 0 < min 1 (control.control.characterDimensions axis) :=
    lt_min zero_lt_one (control.control.characterDimensions_pos axis)
  have hgrows : ∀ n, ∃ grown minimal',
      ((leaf control id active).advanceSnappedDimension axis)^[n] (.leaf size minimal) = .leaf grown minimal' ∧
      size + n • min 1 (control.control.characterDimensions axis) ≤ grown := by
    intro n
    induction n with
    | zero => exact ⟨size, minimal, rfl, by simp⟩
    | succ n ih =>
      obtain ⟨grown, minimal', hnode, hle⟩ := ih
      obtain ⟨nextSize, hadvance, hnext⟩ := leaf_advance axis control id active grown minimal'
      rw [Function.iterate_succ_apply', hnode]
      refine ⟨nextSize, false, hadvance, ?_⟩
      rw [succ_nsmul, ← add_assoc]
      exact (add_le_add_left hle _).trans hnext
  obtain ⟨n, hn⟩ := Archimedean.arch (bound - size) hpos
  obtain ⟨grown, minimal', hnode, hle⟩ := hgrows n
  refine ⟨n, ?_⟩
  rw [hnode]
  exact (sub_le_iff_le_add'.1 hn).trans hle

theorem WellSized.unbounded (h : pane.WellSized axis node) (bound : K) :
    ∃ n, bound ≤ ((pane.advanceSnappedDimension axis)^[n] node).size := by
  induction pane generalizing node with
  | leaf control id active =>
    cases node with
    | leaf size minimal => exact leaf_unbounded axis control id active size minimal bound
    | split => exact h.elim
  | split state position active first second ihFirst ihSecond =>
    cases node with
    | leaf => exact h.elim
    | split size minimal a b na nb =>
      obtain ⟨m, hm⟩ := ihFirst h.1
      obtain ⟨n, hn⟩ := ihSecond h.2.1
      -- After as many steps as both children need, one of them has taken its own.
      refine ⟨m + n, ?_⟩
      obtain ⟨i, j, grown, minimal', na', nb', hij, hnode⟩ := h.iterate_split (m + n)
      have hwell := h.iterate (m + n)
      rw [hnode] at hwell ⊢
      obtain ⟨hfirst, hsecond, -, -, rfl⟩ := hwell
      obtain ⟨hleFirst, hleSecond⟩ := le_splitSize axis state hfirst.size_pos hsecond.size_pos
      rcases Nat.lt_or_ge i m with hi | hi
      · exact hn.trans ((h.2.1.size_mono (by omega : n ≤ j)).trans hleSecond)
      · exact hm.trans ((h.1.size_mono hi).trans hleFirst)

/-- The children's sizes are found for every size, and grow with it. -/
theorem calcSnappedChildrenSizes_mono (axis : Bool) (state : SplitState) (position : K) (active : Bool)
    (first second : Pane (LeafPane K) K) {smaller larger : K} (hle : smaller ≤ larger) :
    ∃ fuel₀ small large, (∀ fuel ≥ fuel₀,
        (split state position active first second).calcSnappedChildrenSizes axis fuel smaller = some small ∧
        (split state position active first second).calcSnappedChildrenSizes axis fuel larger = some large) ∧
      small.lower ≤ large.lower ∧ small.higher ≤ large.higher := by
  have hwell := wellSized_createMinSizeTree axis (split state position active first second)
  obtain ⟨i₁, k₁, i₂, k₂, hi, hk, hrun⟩ := Bracket.growTo_mono hle (hwell.unbounded larger)
  refine ⟨k₂, ⟨_, _⟩, ⟨_, _⟩, ?_, hwell.childSizes_mono hi, hwell.childSizes_mono hk⟩
  intro fuel hfuel
  rw [calcSnappedChildrenSizes, calcSnappedChildrenSizes, (hrun fuel hfuel).1, (hrun fuel hfuel).2]
  exact ⟨rfl, rfl⟩

theorem calcSnappedChildrenSizes_mono_wider :
    let terminal : LeafPane ℚ := ⟨.ofGrid 8 16 10 (by decide) (by decide) (by decide), ⟨false, false, false, true⟩⟩
    (200 : ℚ) ≤ 300 ∧ ∃ fuel₀ small large, (∀ fuel ≥ fuel₀,
        (split .vertical (1 / 2) true (leaf terminal (some 0) true)
          (leaf terminal (some 1) false)).calcSnappedChildrenSizes true fuel 200 = some small ∧
        (split .vertical (1 / 2) true (leaf terminal (some 0) true)
          (leaf terminal (some 1) false)).calcSnappedChildrenSizes true fuel 300 = some large) ∧
      small.lower ≤ large.lower ∧ small.higher ≤ large.higher := by
  intro terminal
  have hle : (200 : ℚ) ≤ 300 := by decide
  exact ⟨hle, calcSnappedChildrenSizes_mono true .vertical (1 / 2) true (leaf terminal (some 0) true)
    (leaf terminal (some 1) false) hle⟩

/-! ## The sizes around a dimension -/

theorem exists_calcSnappedDimension (axis : Bool) (dimension : K) (pane : Pane (LeafPane K) K) :
    ∃ fuel₀ sizes, (∀ fuel ≥ fuel₀, pane.calcSnappedDimension axis fuel dimension = some sizes) ∧
      (pane.getMinSize axis ≤ dimension →
        dimension ≤ sizes.higher ∧ (sizes.lower ≤ dimension ↔ pane.SnapsInside axis dimension)) := by
  induction pane with
  | leaf control id active =>
    exact ⟨0, _, fun _ _ => rfl, fun hmin => ⟨control.le_higher axis dimension, leaf_lower_le_iff hmin id active⟩⟩
  | split state position active first second ihFirst ihSecond =>
    rw [getMinSize_split, splitSize, SnapsInside]
    by_cases halong : isAlong axis state = true
    · obtain ⟨m, one, hfirst, hone⟩ := ihFirst
      obtain ⟨n, two, hsecond, htwo⟩ := ihSecond
      refine ⟨max m n, ⟨max one.lower two.lower, min one.higher two.higher⟩, ?_, ?_⟩
      · intro fuel hfuel
        rw [calcSnappedDimension, if_pos halong, hfirst fuel (le_of_max_le_left hfuel),
          hsecond fuel (le_of_max_le_right hfuel)]
        rfl
      · intro hmin
        rw [if_pos halong, max_le_iff] at hmin
        rw [max_le_iff, le_min_iff, (hone hmin.1).2, (htwo hmin.2).2]
        exact ⟨⟨(hone hmin.1).1, (htwo hmin.2).1⟩, by simp [halong]⟩
    · have hwell := wellSized_createMinSizeTree axis (split state position active first second)
      rw [if_neg halong]
      by_cases hmin : first.getMinSize axis + second.getMinSize axis ≤ dimension
      · have hstart : ((split state position active first second).createMinSizeTree axis).size ≤ dimension := by
          rwa [size_createMinSizeTree, getMinSize_split, splitSize, if_neg halong]
        obtain ⟨i, k, hi, hk, hrun⟩ := Bracket.growTo_around hstart (hwell.unbounded dimension)
        rw [← (hwell.iterate _).childSizes_add halong] at hi hk
        refine ⟨k, ⟨_, _⟩, fun fuel hfuel => ?_, fun _ => ⟨hk, iff_of_true hi fun h => absurd h halong⟩⟩
        simp only [calcSnappedDimension, if_neg halong, calcSnappedChildrenSizes, hrun fuel hfuel]
        rfl
      · obtain ⟨_, _, i, n, -, -, hrun⟩ := Bracket.growTo_mono le_rfl (hwell.unbounded dimension)
        refine ⟨n, ?_⟩
        simp only [calcSnappedDimension, if_neg halong, calcSnappedChildrenSizes]
        exact ⟨_, fun fuel hfuel => by rw [(hrun fuel hfuel).2]; rfl, fun h => absurd h hmin⟩

/-- A dimension is between its snapped sizes as long as the borders fit. -/
theorem calcSnappedDimension_brackets_iff (axis : Bool) (dimension : K) (pane : Pane (LeafPane K) K)
    (hmin : pane.getMinSize axis ≤ dimension) :
    ∃ fuel₀ sizes, (∀ fuel ≥ fuel₀, pane.calcSnappedDimension axis fuel dimension = some sizes) ∧
      (sizes.Brackets dimension ↔ pane.SnapsInside axis dimension) := by
  obtain ⟨fuel₀, sizes, hrun, hsizes⟩ := exists_calcSnappedDimension axis dimension pane
  obtain ⟨hhigher, hlower⟩ := hsizes hmin
  refine ⟨fuel₀, sizes, hrun, ?_⟩
  rw [← hlower]
  exact ⟨fun h => h.lower, fun h => .of_le h hhigher⟩

/-- The last grid line is 98, and the borders fit behind it. -/
theorem calcSnappedDimension_brackets_plain :
    let terminal : LeafPane ℚ := ⟨.ofGrid 8 16 10 (by decide) (by decide) (by decide), ⟨false, false, false, true⟩⟩
    let pane := split .horizontal (1 / 2) true (leaf terminal (some 0) true) (leaf terminal (some 1) false)
    ∃ fuel₀ sizes, (∀ fuel ≥ fuel₀, pane.calcSnappedDimension true fuel 101 = some sizes) ∧ sizes.Brackets 101 := by
  intro terminal pane
  have hmin : pane.getMinSize true ≤ 101 := by decide +kernel
  obtain ⟨fuel₀, sizes, hrun, hbrackets⟩ := calcSnappedDimension_brackets_iff true 101 pane hmin
  have hroom : ∀ id active, (leaf terminal id active).SnapsInside true 101 := fun id active =>
    .inr ⟨11, by decide +kernel⟩
  exact ⟨fuel₀, sizes, hrun, hbrackets.2 fun _ => ⟨hroom _ _, hroom _ _⟩⟩

/-- A whole number of cells, and a border. -/
theorem calcSnappedDimension_above :
    let terminal : LeafPane ℚ := ⟨.ofGrid 8 16 0 (by decide) (by decide) (by decide), ⟨false, false, false, true⟩⟩
    (leaf terminal (some 0) true).getMinSize true ≤ 16 ∧
      (leaf terminal (some 0) true).calcSnappedDimension true 0 16 = some ⟨18, 26⟩ := by
  decide +kernel

end Pane

end Terminal.App
