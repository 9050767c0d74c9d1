import Mathlib.Algebra.Ring.Defs
import Mathlib.Data.List.Nodup

/-!
# Panes (`Pane.cpp`)

A pointer to a pane is the path to it from the root. A control stands for all that moves with it.
Borders, handlers and drawing are left out, and of the focus all but the last active pane.
-/

namespace Terminal.App

open List

abbrev PaneId := BitVec 32

inductive SplitState where
  | horizontal
  | vertical
deriving DecidableEq, Repr

inductive SplitDirection where
  | automatic
  | up
  | right
  | down
  | left
deriving DecidableEq, Repr

inductive Side where
  | first
  | second
deriving DecidableEq, Repr

def Side.other : Side → Side
  | .first => .second
  | .second => .first

abbrev Path := List Side

inductive Pane (κ K : Type) where
  | leaf (control : κ) (id : Option PaneId) (lastActive : Bool)
  | split (splitState : SplitState) (desiredSplitPosition : K) (lastActive : Bool) (firstChild secondChild : Pane κ K)
deriving DecidableEq, Repr

namespace Pane

variable {κ K σ : Type}

def isLeaf : Pane κ K → Bool
  | leaf .. => true
  | split .. => false

def lastActive : Pane κ K → Bool
  | leaf _ _ active => active
  | split _ _ active _ _ => active

def id : Pane κ K → Option PaneId
  | leaf _ id _ => id
  | split .. => none

def get? : Pane κ K → Path → Option (Pane κ K)
  | pane, [] => some pane
  | leaf .., _ :: _ => none
  | split _ _ _ first _, .first :: path => first.get? path
  | split _ _ _ _ second, .second :: path => second.get? path

def modifyAt (f : Pane κ K → Pane κ K) : Path → Pane κ K → Pane κ K
  | [], pane => f pane
  | _ :: _, leaf control id active => leaf control id active
  | .first :: path, split state position active first second => split state position active
      (modifyAt f path first) second
  | .second :: path, split state position active first second => split state position active first
      (modifyAt f path second)

/-! ## Walking through the tree -/

def walkTree (f : Path → Pane κ K → σ → Bool × σ) : Path → Pane κ K → σ → Bool × σ
  | path, leaf control id active, s => f path (leaf control id active) s
  | path, split state position active first second, s =>
    match f path (split state position active first second) s with
    | (true, s) => (true, s)
    | (false, s) =>
      match walkTree f (path ++ [.first]) first s with
      | (true, s) => (true, s)
      | (false, s) => walkTree f (path ++ [.second]) second s

def hasChild (target child : Path) : Bool := target.isPrefixOf child && target != child

structure NextSearch where
  firstLeaf : Option Path := none
  nextPane : Option Path := none
  foundTarget : Bool := false

def visitNext (target path : Path) (pane : Pane κ K) (s : NextSearch) : Bool × NextSearch :=
  if s.foundTarget ∧ hasChild target path then (false, s)
  else
    let s := if s.firstLeaf = none ∧ pane.isLeaf then { s with firstLeaf := some path } else s
    if s.foundTarget ∧ pane.isLeaf then (true, { s with nextPane := some path })
    else (false, if path = target then { s with foundTarget := true } else s)

def nextPane (target : Path) (root : Pane κ K) : Option Path :=
  if root.isLeaf then none
  else
    let (foundNext, s) := root.walkTree (visitNext target) [] {}
    if foundNext then s.nextPane else if s.foundTarget then s.firstLeaf else none

structure PreviousSearch where
  lastLeaf : Option Path := none
  foundTarget : Bool := false

def visitPrevious (target path : Path) (pane : Pane κ K) (s : PreviousSearch) : Bool × PreviousSearch :=
  let found := s.foundTarget || path == target
  if path = target ∧ s.lastLeaf ≠ none then (true, { s with foundTarget := found })
  else (false, { lastLeaf := if pane.isLeaf then some path else s.lastLeaf, foundTarget := found })

def previousPane (target : Path) (root : Pane κ K) : Option Path :=
  if root.isLeaf then none
  else
    let s := (root.walkTree (visitPrevious target) [] {}).2
    if s.foundTarget then s.lastLeaf else none

/-! ## Splitting -/

/-- `_convertAutomaticOrDirectionalSplitState`; `wider` also if as wide as high. -/
def convertSplitState (wider : Bool) : SplitDirection → SplitState
  | .automatic => if wider then .vertical else .horizontal
  | .up | .down => .horizontal
  | .left | .right => .vertical

def originalSide : SplitDirection → Side
  | .up | .left => .second
  | .automatic | .right | .down => .first

def takeOver : Pane κ K → Pane κ K
  | leaf control _ _ => leaf control none false
  | split state position _ first second => split state position false first second

def splitWith [Ring K] (wider : Bool) (splitType : SplitDirection) (splitSize : K)
    (newPane pane : Pane κ K) : Pane κ K :=
  match originalSide splitType with
  | .first => split (convertSplitState wider splitType) (1 - splitSize) false pane.takeOver newPane
  | .second => split (convertSplitState wider splitType) (1 - splitSize) false newPane pane.takeOver

def clearActive : Pane κ K → Pane κ K
  | leaf control id _ => leaf control id false
  | split state position _ first second => split state position false first.clearActive second.clearActive

def setActive : Pane κ K → Pane κ K
  | leaf control id _ => leaf control id true
  | split state position _ first second => split state position true first second

def setId (id : PaneId) : Pane κ K → Pane κ K
  | leaf control _ active => leaf control (some id) active
  | split state position active first second => split state position active first second

/-! ## Closing -/

def child : Side → Pane κ K → Pane κ K → Pane κ K
  | .first, first, _ => first
  | .second, _, second => second

def closeChild (side : Side) : Pane κ K → Pane κ K
  | leaf control id active => leaf control id active
  | split _ position active first second =>
    match child side.other first second with
    | leaf control id _ => leaf control id (active || first.lastActive || second.lastActive)
    | split remainingState _ _ remainingFirst remainingSecond =>
      split remainingState position active remainingFirst remainingSecond

/-- A leaf raises `Closed`, and its parent closes it. -/
def closePane (parent : Path) (side : Side) (root : Pane κ K) : Pane κ K := modifyAt (closeChild side) parent root

def detachPane : Path → Pane κ K → Option (Pane κ K × Pane κ K)
  | _, leaf .. => none
  | path, split state position active first second =>
    match path with
    | [] => none
    | [side] => some (child side first second, closeChild side (split state position active first second))
    | .first :: path => (first.detachPane path).map fun found => (found.1, split state position active found.2 second)
    | .second :: path => (second.detachPane path).map fun found => (found.1, split state position active first found.2)

/-! ## Paths -/

variable {pane sub : Pane κ K} {f g : Pane κ K → Pane κ K}

@[simp] theorem get?_nil (pane : Pane κ K) : pane.get? [] = some pane := by
  cases pane <;> rfl

@[simp] theorem modifyAt_nil (f : Pane κ K → Pane κ K) (pane : Pane κ K) : modifyAt f [] pane = f pane := by
  cases pane <;> rfl

theorem get?_append (pane : Pane κ K) (path rest : Path) :
    pane.get? (path ++ rest) = (pane.get? path).bind (·.get? rest) := by
  induction path generalizing pane with
  | nil => simp
  | cons side path ih =>
    cases pane with
    | leaf => rfl
    | split => cases side <;> exact ih _

theorem modifyAt_append (f : Pane κ K → Pane κ K) (path rest : Path) (pane : Pane κ K) :
    modifyAt f (path ++ rest) pane = modifyAt (modifyAt f rest) path pane := by
  induction path generalizing pane with
  | nil => simp
  | cons side path ih =>
    cases pane with
    | leaf => rfl
    | split => cases side <;> simp [modifyAt, ih]

theorem modifyAt_modifyAt (f g : Pane κ K → Pane κ K) (path : Path) (pane : Pane κ K) :
    modifyAt f path (modifyAt g path pane) = modifyAt (fun pane => f (g pane)) path pane := by
  induction path generalizing pane with
  | nil => simp
  | cons side path ih =>
    cases pane with
    | leaf => rfl
    | split => cases side <;> simp [modifyAt, ih]

theorem modifyAt_congr {path : Path} (h : pane.get? path = some sub) (hfg : f sub = g sub) :
    modifyAt f path pane = modifyAt g path pane := by
  induction path generalizing pane with
  | nil =>
    obtain rfl : pane = sub := by simpa using h
    simpa using hfg
  | cons side path ih =>
    cases pane with
    | leaf => rfl
    | split => cases side <;> simp only [modifyAt, ih h]

theorem get?_modifyAt {path : Path} (h : pane.get? path = some sub) (f : Pane κ K → Pane κ K) :
    (modifyAt f path pane).get? path = some (f sub) := by
  induction path generalizing pane with
  | nil =>
    obtain rfl : pane = sub := by simpa using h
    simp
  | cons side path ih =>
    cases pane with
    | leaf => exact absurd h (by simp [get?])
    | split => cases side <;> exact ih h

theorem get?_clearActive (pane : Pane κ K) (path : Path) :
    pane.clearActive.get? path = (pane.get? path).map clearActive := by
  induction path generalizing pane with
  | nil => simp
  | cons side path ih =>
    cases pane with
    | leaf => rfl
    | split => cases side <;> exact ih _

theorem clearActive_modifyAt {f g : Pane κ K → Pane κ K} (h : ∀ pane, (f pane).clearActive =
    g pane.clearActive) (path : Path)
    (pane : Pane κ K) : (modifyAt f path pane).clearActive = modifyAt g path pane.clearActive := by
  induction path generalizing pane with
  | nil => simpa using h pane
  | cons side path ih =>
    cases pane with
    | leaf => rfl
    | split => cases side <;> simp [modifyAt, clearActive, ih]

theorem modifyAt_id (path : Path) (pane : Pane κ K) : modifyAt (fun pane => pane) path pane = pane := by
  induction path generalizing pane with
  | nil => simp
  | cons side path ih =>
    cases pane with
    | leaf => rfl
    | split => cases side <;> simp [modifyAt, ih]

@[simp] theorem clearActive_clearActive (pane : Pane κ K) : pane.clearActive.clearActive = pane.clearActive := by
  induction pane with
  | leaf => rfl
  | split _ _ _ _ _ ihFirst ihSecond => simp [clearActive, ihFirst, ihSecond]

@[simp] theorem clearActive_setActive (pane : Pane κ K) : pane.setActive.clearActive = pane.clearActive := by
  cases pane <;> rfl

/-! ## The order of the leaves -/

def panes : Path → Pane κ K → List (Path × Pane κ K)
  | path, leaf control id active => [(path, leaf control id active)]
  | path, split state position active first second =>
    (path, split state position active first second) :: (panes (path ++ [.first]) first ++
      panes (path ++ [.second]) second)

def visitAll {σ : Type} (f : Path → Pane κ K → σ → Bool × σ) : List (Path × Pane κ K) → σ → Bool × σ
  | [], s => (false, s)
  | (path, pane) :: rest, s =>
    match f path pane s with
    | (true, s) => (true, s)
    | (false, s) => visitAll f rest s

def leafPaths : Path → Pane κ K → List Path
  | path, leaf .. => [path]
  | path, split _ _ _ first second => leafPaths (path ++ [.first]) first ++ leafPaths (path ++ [.second]) second

section

variable {σ : Type} (f : Path → Pane κ K → σ → Bool × σ)

theorem visitAll_append (xs ys : List (Path × Pane κ K)) (s : σ) : visitAll f (xs ++ ys) s = match visitAll f xs s with
      | (true, s) => (true, s)
      | (false, s) => visitAll f ys s := by
  induction xs generalizing s with
  | nil => rfl
  | cons x xs ih =>
    rw [cons_append, visitAll, visitAll]
    rcases f x.1 x.2 s with ⟨_ | _, s⟩
    · exact ih s
    · rfl

theorem walkTree_eq (path : Path) (pane : Pane κ K) (s : σ) :
    pane.walkTree f path s = visitAll f (panes path pane) s := by
  induction pane generalizing path s with
  | leaf control id active =>
    rw [walkTree, panes, visitAll]
    rcases f path (leaf control id active) s with ⟨_ | _, s⟩ <;> rfl
  | split state position active first second ihFirst ihSecond =>
    rw [walkTree, panes, visitAll]
    rcases f path (split state position active first second) s with ⟨_ | _, s⟩
    · simp only [visitAll_append, ihFirst, ihSecond]
    · rfl

theorem visitAll_filter {f : Path → Pane κ K → σ → Bool × σ} {xs : List (Path × Pane κ K)}
    (h : ∀ x ∈ xs, x.2.isLeaf = false → ∀ s, f x.1 x.2 s = (false, s)) (s : σ) :
    visitAll f xs s = visitAll f (xs.filter fun x => x.2.isLeaf) s := by
  induction xs generalizing s with
  | nil => rfl
  | cons x xs ih =>
    obtain ⟨hx, hxs⟩ := forall_mem_cons.1 h
    cases hleaf : x.2.isLeaf with
    | true =>
      rw [filter_cons, if_pos hleaf, visitAll, visitAll]
      rcases f x.1 x.2 s with ⟨_ | _, s'⟩
      · exact ih hxs s'
      · rfl
    | false =>
      rw [filter_cons, if_neg (by simp [hleaf]), visitAll, hx hleaf]
      exact ih hxs s

theorem visitAll_keeps {f : Path → Pane κ K → σ → Bool × σ} {P : σ → Prop} {xs : List (Path × Pane κ K)}
    (h : ∀ x ∈ xs, ∀ s, P s → ∃ s', f x.1 x.2 s = (false, s') ∧ P s') (s : σ) (hs : P s) :
    ∃ s', visitAll f xs s = (false, s') ∧ P s' := by
  induction xs generalizing s with
  | nil => exact ⟨s, rfl, hs⟩
  | cons x xs ih =>
    obtain ⟨hx, hxs⟩ := forall_mem_cons.1 h
    obtain ⟨s₁, hvisit, hs₁⟩ := hx s hs
    rw [visitAll, hvisit]
    exact ih hxs s₁ hs₁

end

theorem get?_of_mem_panes {path q : Path} {pane sub : Pane κ K} (h : (path, sub) ∈ panes q pane) :
    ∃ rest, path = q ++ rest ∧ pane.get? rest = some sub := by
  induction pane generalizing q with
  | leaf =>
    obtain ⟨rfl, rfl⟩ : path = q ∧ sub = _ := by simpa [panes] using h
    exact ⟨[], by simp, rfl⟩
  | split state position active first second ihFirst ihSecond =>
    rw [panes, mem_cons, mem_append] at h
    rcases h with h | h | h
    · obtain ⟨rfl, rfl⟩ : path = q ∧ sub = _ := by simpa using h
      exact ⟨[], by simp, rfl⟩
    · obtain ⟨rest, rfl, hrest⟩ := ihFirst h
      exact ⟨.first :: rest, by simp, hrest⟩
    · obtain ⟨rest, rfl, hrest⟩ := ihSecond h
      exact ⟨.second :: rest, by simp, hrest⟩

theorem leafPaths_eq (q : Path) (pane : Pane κ K) :
    leafPaths q pane = ((panes q pane).filter fun x => x.2.isLeaf).map Prod.fst := by
  induction pane generalizing q with
  | leaf => simp [leafPaths, panes, isLeaf]
  | split state position active first second ihFirst ihSecond =>
    simp [leafPaths, panes, isLeaf, ihFirst, ihSecond]

theorem nodup_leafPaths (q : Path) (pane : Pane κ K) : (leafPaths q pane).Nodup := by
  induction pane generalizing q with
  | leaf => simp [leafPaths]
  | split state position active first second ihFirst ihSecond =>
    refine List.Nodup.append (ihFirst _) (ihSecond _) ?_
    -- The paths part at the first step below `q`.
    intro path hfirst hsecond
    rw [leafPaths_eq, mem_map] at hfirst hsecond
    obtain ⟨⟨path₁, sub₁⟩, hmem₁, rfl⟩ := hfirst
    obtain ⟨⟨path₂, sub₂⟩, hmem₂, heq⟩ := hsecond
    obtain ⟨rest₁, h₁, -⟩ := get?_of_mem_panes (mem_filter.1 hmem₁).1
    obtain ⟨rest₂, h₂, -⟩ := get?_of_mem_panes (mem_filter.1 hmem₂).1
    rw [h₁, h₂] at heq
    exact absurd heq (by simp)

theorem exists_leafPaths {pane sub : Pane κ K} {path : Path} (h : pane.get? path = some sub) (q : Path) :
    ∃ before behind, leafPaths q pane = before ++ (leafPaths (q ++ path) sub ++ behind) := by
  induction path generalizing pane q with
  | nil =>
    obtain rfl : pane = sub := by simpa using h
    exact ⟨[], [], by simp⟩
  | cons side path ih =>
    cases pane with
    | leaf => exact absurd h (by simp [get?])
    | split state position active first second =>
      cases side with
      | first =>
        obtain ⟨before, behind, heq⟩ := @ih first h (q ++ [.first])
        exact ⟨before, behind ++ leafPaths (q ++ [.second]) second, by simp [leafPaths, heq]⟩
      | second =>
        obtain ⟨before, behind, heq⟩ := @ih second h (q ++ [.second])
        exact ⟨leafPaths (q ++ [.first]) first ++ before, behind, by simp [leafPaths, heq]⟩

/-! ## Next and previous leaf -/

section

variable {root : Pane κ K} {target : Path} {control : κ} {id : Option PaneId} {active : Bool}

variable {path : Path} {before behind : List Path}

theorem hasChild_leaf (hleaf : root.get? target = some (leaf control id active)) {sub : Pane κ K}
    (hsub : root.get? path = some sub) : hasChild target path = false := by
  by_contra hchild
  simp only [hasChild, Bool.not_eq_false, Bool.and_eq_true, isPrefixOf_iff_prefix, bne_iff_ne] at hchild
  obtain ⟨⟨rest, rfl⟩, hne⟩ := hchild
  rw [get?_append, hleaf] at hsub
  cases rest with
  | nil => exact hne (by simp)
  | cons => exact absurd hsub (by simp [get?])

theorem ne_of_mem_panes (hleaf : root.get? target = some (leaf control id active)) :
    ∀ x ∈ panes [] root, x.2.isLeaf = false → x.1 ≠ target := by
  rintro ⟨path, sub⟩ hx hnot rfl
  obtain ⟨rest, rfl, hget⟩ := get?_of_mem_panes hx
  obtain rfl : sub = leaf control id active := by simpa [hget] using hleaf
  exact absurd hnot (by simp [isLeaf])

theorem isLeaf_of_leafPaths {p q : Path} (h : leafPaths [] root = before ++ p :: q :: behind) :
    root.isLeaf = false := by
  cases root with
  | leaf =>
    have hlen := congrArg length h
    simp only [leafPaths, length_append, length_cons, length_nil] at hlen
    omega
  | split => rfl

theorem exists_neighbours {p q : Path} (h : leafPaths [] root = before ++ p :: q :: behind) :
    ∃ xs P Q ys, (panes [] root).filter (fun x => x.2.isLeaf) = xs ++ (p, P) :: (q, Q) :: ys ∧
      (∀ x ∈ xs, x.1 ≠ p ∧ x.1 ≠ q) ∧ p ≠ q ∧ P.isLeaf = true ∧ Q.isLeaf = true ∧ root.get? q = some Q := by
  have hnodup := h ▸ nodup_leafPaths [] root
  rw [leafPaths_eq, map_eq_append_iff] at h
  obtain ⟨xs, rest, heq, rfl, hrest⟩ := h
  rw [map_eq_cons_iff] at hrest
  obtain ⟨⟨p, P⟩, rest, rfl, rfl, hrest⟩ := hrest
  rw [map_eq_cons_iff] at hrest
  obtain ⟨⟨q, Q⟩, ys, rfl, rfl, rfl⟩ := hrest
  have hmem : ∀ x, x ∈ xs ++ _ → x ∈ panes [] root ∧ x.2.isLeaf = true := fun x hx => mem_filter.1 (heq ▸ hx)
  obtain ⟨path, hpath, hget⟩ := get?_of_mem_panes (hmem (q, Q) (by simp)).1
  obtain ⟨-, hpq, hbefore⟩ := nodup_append.1 hnodup
  refine ⟨xs, P, Q, ys, heq, ?_, ?_, (hmem (p, P) (by simp)).2, (hmem (q, Q) (by simp)).2, ?_⟩
  · intro x hx
    exact ⟨hbefore _ (mem_map_of_mem hx) _ (by simp), hbefore _ (mem_map_of_mem hx) _ (by simp)⟩
  · rintro rfl
    simp at hpq
  · exact hpath ▸ hget

theorem visitNext_split {x : Path × Pane κ K} (hx : x.2.isLeaf = false) (hne : x.1 ≠ target) (s : NextSearch) :
    visitNext target x.1 x.2 s = (false, s) := by
  simp [visitNext, hx, hne]

theorem visitNext_ne (hne : path ≠ target) (pane : Pane κ K) (s : NextSearch) (hs : s.foundTarget = false) :
    ∃ s', visitNext target path pane s = (false, s') ∧ s'.foundTarget = false := by
  by_cases hfirst : s.firstLeaf = none ∧ pane.isLeaf = true <;> simp [visitNext, hs, hne, hfirst]

theorem visitNext_target (target : Path) (pane : Pane κ K) (s : NextSearch) (hs : s.foundTarget = false) :
    ∃ s', visitNext target target pane s = (false, s') ∧ s'.foundTarget = true := by
  by_cases hfirst : s.firstLeaf = none ∧ pane.isLeaf = true <;> simp [visitNext, hs, hfirst]

theorem visitNext_found {pane : Pane κ K} (hchild : hasChild target path = false) (hpane : pane.isLeaf = true)
    (s : NextSearch) (hs : s.foundTarget = true) :
    ∃ s', visitNext target path pane s = (true, s') ∧ s'.nextPane = some path := by
  by_cases hfirst : s.firstLeaf = none <;> simp [visitNext, hs, hchild, hpane, hfirst]

theorem nextPane_eq (hleaf : root.get? target = some (leaf control id active)) {next : Path}
    (h : leafPaths [] root = before ++ target :: next :: behind) : root.nextPane target = some next := by
  obtain ⟨xs, P, Q, ys, heq, hxs, -, -, hQ, hget⟩ := exists_neighbours h
  obtain ⟨s₁, hs₁, hfound₁⟩ := visitAll_keeps (f := visitNext target) (P := (·.foundTarget = false))
    (fun x hx => visitNext_ne (hxs x hx).1 x.2) {} rfl
  obtain ⟨s₂, hs₂, hfound₂⟩ := visitNext_target target P s₁ hfound₁
  obtain ⟨s₃, hs₃, hnext⟩ := visitNext_found (hasChild_leaf hleaf hget) hQ s₂ hfound₂
  have hwalk : root.walkTree (visitNext target) [] {} = (true, s₃) := by
    rw [walkTree_eq, visitAll_filter (fun x hx hsplit => visitNext_split hsplit (ne_of_mem_panes hleaf x hx hsplit)),
      heq, visitAll_append, hs₁]
    simp only [visitAll, hs₂, hs₃]
  simp [nextPane, isLeaf_of_leafPaths h, hwalk, hnext]

theorem visitPrevious_ne (hne : path ≠ target) (pane : Pane κ K) (s : PreviousSearch) :
    visitPrevious target path pane s = (false, ⟨if pane.isLeaf then some path else s.lastLeaf, s.foundTarget⟩) := by
  simp [visitPrevious, hne]

theorem previousPane_eq (hleaf : root.get? target = some (leaf control id active)) {previous : Path}
    (h : leafPaths [] root = before ++ previous :: target :: behind) : root.previousPane target = some previous := by
  obtain ⟨xs, P, Q, ys, heq, hxs, hne, hP, -, -⟩ := exists_neighbours h
  obtain ⟨s₁, hs₁, hfound₁⟩ := visitAll_keeps (f := visitPrevious target) (P := (·.foundTarget = false))
    (fun x hx s hs => ⟨_, visitPrevious_ne (hxs x hx).2 x.2 s, hs⟩) {} rfl
  have hsplit : ∀ x ∈ panes [] root, x.2.isLeaf = false → ∀ s, visitPrevious target x.1 x.2 s = (false, s) := by
    intro x hx hsplit s
    rw [visitPrevious_ne (ne_of_mem_panes hleaf x hx hsplit), hsplit]
    rfl
  have hwalk : root.walkTree (visitPrevious target) [] {} = (true, ⟨some previous, true⟩) := by
    rw [walkTree_eq, visitAll_filter hsplit, heq, visitAll_append, hs₁]
    simp only [visitAll, visitPrevious_ne hne, hP]
    simp [visitPrevious]
  simp [previousPane, isLeaf_of_leafPaths h, hwalk]

end

/-! ## The rest of the layout -/

/-- A split is laid out the same with this position. -/
def KeepsPosition (position : K) : Pane κ K → Prop
  | leaf .. => True
  | split _ own _ _ _ => own = position

theorem clearActive_closeChild_iff (side : Side) (state : SplitState) (position : K) (active : Bool)
    (first second : Pane κ K) :
    (closeChild side (split state position active first second)).clearActive =
      (child side.other first second).clearActive ↔
      (child side.other first second).KeepsPosition position := by
  rw [closeChild]
  cases child side.other first second with
  | leaf => simp [clearActive, KeepsPosition]
  | split => simp [clearActive, KeepsPosition, eq_comm]

theorem clearActive_modifyAt_iff {path : Path} (h : pane.get? path = some sub) (f g : Pane κ K → Pane κ K) :
    (modifyAt f path pane).clearActive = (modifyAt g path pane).clearActive ↔ (f sub).clearActive =
      (g sub).clearActive := by
  induction path generalizing pane with
  | nil =>
    obtain rfl : pane = sub := by simpa using h
    simp
  | cons side path ih =>
    cases pane with
    | leaf => exact absurd h (by simp [get?])
    | split => cases side <;> simp [modifyAt, clearActive, ih h]

theorem detachPane_eq {root first second : Pane κ K} {parent : Path} {state : SplitState} {position : K} {active : Bool}
    (hparent : root.get? parent = some (split state position active first second)) (side : Side) :
    root.detachPane (parent ++ [side]) = some (child side first second, root.closePane parent side) := by
  induction parent generalizing root with
  | nil =>
    obtain rfl : root = split state position active first second := by simpa using hparent
    simp [detachPane, closePane]
  | cons step parent ih =>
    cases root with
    | leaf => exact absurd hparent (by simp [get?])
    | split =>
      have hne : parent ++ [side] ≠ [] := by simp
      obtain ⟨head, tail, htail⟩ := exists_cons_of_ne_nil hne
      cases step
      all_goals
        have hfound := ih hparent
        rw [htail] at hfound
        simp [detachPane, htail, hfound, closePane, modifyAt]

/-- The sibling takes the place of the parent, if it is a leaf or split where that was. -/
theorem closePane_layout_iff (root first second : Pane κ K) (parent : Path) (state : SplitState)
    (position : K) (active : Bool)
    (hparent : root.get? parent = some (split state position active first second)) (side : Side) :
    ((root.closePane parent side).clearActive =
      (modifyAt (fun _ => child side.other first second) parent root).clearActive ↔
      (child side.other first second).KeepsPosition position) ∧
    ∃ remaining, root.detachPane (parent ++ [side]) = some (child side first second, remaining) ∧
      (remaining.clearActive = (modifyAt (fun _ => child side.other first second) parent root).clearActive ↔
        (child side.other first second).KeepsPosition position) := by
  have hiff : (root.closePane parent side).clearActive =
      (modifyAt (fun _ => child side.other first second) parent root).clearActive ↔
        (child side.other first second).KeepsPosition position := by
    rw [closePane, clearActive_modifyAt_iff hparent, clearActive_closeChild_iff]
  exact ⟨hiff, _, detachPane_eq hparent side, hiff⟩

theorem closePane_layout_nested : (closePane [.second] .second (split .vertical 60 false (leaf 'a' (some 0) false)
      (split .horizontal 40 false (leaf 'b' (some 1) false) (leaf 'c' (some 2) true)))).clearActive =
    split .vertical 60 false (leaf 'a' (some 0) false) (leaf 'b' (some 1) false) :=
  (closePane_layout_iff (split .vertical 60 false (leaf 'a' (some 0) false)
    (split .horizontal 40 false (leaf 'b' (some 1) false) (leaf 'c' (some 2) true))) (leaf 'b' (some 1) false)
    (leaf 'c' (some 2) true) [.second] .horizontal 40 false rfl .second).1.2 trivial

/-- The first is closed: the others are split at 60 percent, no longer at 40. -/
theorem closePane_loses_position : (closePane [] .first (split .vertical 60 false (leaf 'a' (some 0) false)
      (split .horizontal 40 false (leaf 'b' (some 1) false) (leaf 'c' (some 2) true)))).clearActive =
      split .horizontal 60 false (leaf 'b' (some 1) false) (leaf 'c' (some 2) false) ∧
    split .horizontal 60 false (leaf 'b' (some 1) false) (leaf 'c' (some 2) false) ≠
      (split .horizontal 40 false (leaf 'b' (some 1) false) (leaf 'c' (some 2) true)).clearActive := ⟨rfl, by decide⟩

end Pane

end Terminal.App
