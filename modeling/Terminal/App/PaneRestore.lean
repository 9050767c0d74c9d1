import Mathlib.Algebra.Field.Rat
import Mathlib.Algebra.Group.Basic
import Terminal.App.Pane

/-!
# Restoring the panes of a tab (`Pane::BuildStartupActions`, `TerminalTab.cpp`)

A tab is saved as the actions that build it again: splits of the active pane, and moves of the
focus. `args` gives the arguments to start a control like a saved one.
-/

namespace Terminal.App

variable {κ A K : Type}

inductive FocusDirection where
  | previousInOrder
  | nextInOrder
deriving DecidableEq, Repr

inductive StartupAction (A K : Type) where
  | splitPane (splitDirection : SplitDirection) (splitSize : K) (terminalArgs : A)
  | moveFocus (direction : FocusDirection)

/-! ## Saving -/

/-- `firstPane` is a leaf, given by its control. -/
structure BuildStartupState (κ A K : Type) where
  args : List (StartupAction A K)
  firstPane : κ
  focusedPaneId : Option PaneId
  panesCreated : BitVec 32

namespace Pane

variable [Ring K]

/-- The split size is the size of the new pane and not the position. -/
def buildSplitPane (args : κ → A) (state : SplitState) (position : K) (newPane : κ) : StartupAction A K :=
  .splitPane (if state = .horizontal then .down else .right) (1 - position) (args newPane)

def aroundFirst (actions : List (StartupAction A K)) : List (StartupAction A K) :=
  if actions.length > 0 then
    .moveFocus .previousInOrder :: (actions ++ [.moveFocus .nextInOrder])
  else []

def buildStartupActions (args : κ → A) : Pane κ K → PaneId → PaneId → BuildStartupState κ A K
  | leaf control _ active, currentId, _ => ⟨[], control, if active then some currentId else none, 0⟩
  | split state position _ (leaf first _ firstActive) (leaf second _ secondActive), currentId, nextId =>
    ⟨[buildSplitPane args state position second], first,
      if firstActive then some currentId else if secondActive then some nextId else none, 1⟩
  | split state position _ first second, currentId, nextId =>
    let firstState := first.buildStartupActions args currentId (nextId + 1)
    let secondState := second.buildStartupActions args nextId (nextId + firstState.panesCreated + 1)
    ⟨buildSplitPane args state position secondState.firstPane :: (aroundFirst firstState.args ++ secondState.args),
      firstState.firstPane,
      if firstState.focusedPaneId.isSome then firstState.focusedPaneId else secondState.focusedPaneId,
      firstState.panesCreated + secondState.panesCreated + 1⟩

end Pane

/-! ## Restoring -/

def Pane.navigateDirection (sourcePane : Path) (root : Pane A K) : FocusDirection → Option Path
  | .previousInOrder => root.previousPane sourcePane
  | .nextInOrder => root.nextPane sourcePane

structure TerminalTab (A K : Type) where
  rootPane : Pane A K
  activePane : Path
  nextPaneId : PaneId

namespace TerminalTab

def updateActivePane (pane : Path) (tab : TerminalTab A K) : TerminalTab A K :=
  { tab with rootPane := Pane.modifyAt Pane.setActive pane tab.rootPane.clearActive, activePane := pane }

/-- `Split` clears the id of the active pane, so it is set again. -/
def splitPane [Ring K] (wider : Bool) (splitType : SplitDirection) (splitSize : K)
    (terminalArgs : A) (tab : TerminalTab A K) : TerminalTab A K :=
  let newPane := Pane.leaf terminalArgs (some tab.nextPaneId) false
  let activePaneId := (tab.rootPane.get? tab.activePane).bind Pane.id
  let root := Pane.modifyAt (Pane.splitWith wider splitType splitSize newPane) tab.activePane tab.rootPane
  let side := Pane.originalSide splitType
  let root := match activePaneId with
    | some id => Pane.modifyAt (Pane.setId id) (tab.activePane ++ [side]) root
    | none => root
  updateActivePane (tab.activePane ++ [side.other]) ⟨root, tab.activePane ++ [side], tab.nextPaneId + 1⟩

def navigateFocus (direction : FocusDirection) (tab : TerminalTab A K) : TerminalTab A K :=
  match tab.rootPane.navigateDirection tab.activePane direction with
  | some pane => if pane ≠ tab.activePane then tab.updateActivePane pane else tab
  | none => tab

def doAction [Ring K] (wider : Bool) (tab : TerminalTab A K) : StartupAction A K → TerminalTab A K
  | .splitPane splitType splitSize terminalArgs => tab.splitPane wider splitType splitSize terminalArgs
  | .moveFocus direction => tab.navigateFocus direction

def clearActive (tab : TerminalTab A K) : TerminalTab A K := { tab with rootPane := tab.rootPane.clearActive }

/-! ## One action -/

variable {tab : TerminalTab A K} {args : A} {id : PaneId}

theorem clearActive_updateActivePane (pane : Path) (tab : TerminalTab A K) :
    (tab.updateActivePane pane).clearActive = { tab.clearActive with activePane := pane } := by
  have hroot := Pane.clearActive_modifyAt (f := Pane.setActive) (g := fun pane => pane)
    Pane.clearActive_setActive pane tab.rootPane.clearActive
  rw [Pane.modifyAt_id] at hroot
  simp [clearActive, updateActivePane, hroot]

theorem get?_of_clearActive {root : Pane A K} {path : Path}
    (h : root.clearActive.get? path = some (.leaf args (some id) false)) :
    ∃ active, root.get? path = some (.leaf args (some id) active) := by
  rw [Pane.get?_clearActive, Option.map_eq_some_iff] at h
  obtain ⟨pane, hget, hpane⟩ := h
  cases pane with
  | leaf control paneId active =>
    obtain ⟨rfl, rfl⟩ : control = args ∧ paneId = some id := by simpa [Pane.clearActive] using hpane
    exact ⟨active, hget⟩
  | split => exact absurd hpane (by simp [Pane.clearActive])

theorem clearActive_splitPane [Ring K] (wider : Bool) {splitType : SplitDirection}
    (hside : Pane.originalSide splitType = .first) (splitSize : K) (newArgs : A)
    (hleaf : tab.rootPane.clearActive.get? tab.activePane = some (.leaf args (some id) false)) :
    (tab.splitPane wider splitType splitSize newArgs).clearActive =
      ⟨Pane.modifyAt (fun _ => .split (Pane.convertSplitState wider splitType) (1 - splitSize) false
          (.leaf args (some id) false) (.leaf newArgs (some tab.nextPaneId) false))
        tab.activePane tab.rootPane.clearActive, tab.activePane ++ [.second], tab.nextPaneId + 1⟩ := by
  obtain ⟨active, hget⟩ := get?_of_clearActive hleaf
  set newSplit := Pane.split (Pane.convertSplitState wider splitType) (1 - splitSize) false
    (.leaf args (some id) false) (.leaf newArgs (some tab.nextPaneId) false)
  rw [splitPane, clearActive_updateActivePane]
  simp only [hget, Option.bind_some, Pane.id, hside, Pane.modifyAt_append, Pane.modifyAt_modifyAt,
    clearActive, Side.other]
  rw [Pane.modifyAt_congr hget (g := fun _ => newSplit)
    (by simp [newSplit, Pane.splitWith, hside, Pane.takeOver, Pane.setId, Pane.modifyAt]),
    Pane.clearActive_modifyAt (g := fun _ => newSplit) (fun _ => rfl)]

theorem clearActive_navigateFocus {direction : FocusDirection} {pane : Path}
    (h : tab.rootPane.navigateDirection tab.activePane direction = some pane) :
    (tab.navigateFocus direction).clearActive = { tab.clearActive with activePane := pane } := by
  rw [navigateFocus, h]
  simp only
  split_ifs with hne
  · rw [clearActive_updateActivePane]
  · rw [not_not] at hne
    rw [hne]
    rfl

end TerminalTab

namespace Pane

/-! ## The tree that is built -/

def firstLeaf : Pane κ K → κ
  | leaf control _ _ => control
  | split _ _ _ first _ => first.firstLeaf

def lastLeaf : Pane κ K → Path
  | leaf .. => []
  | split _ _ _ _ second => .second :: second.lastLeaf

def splits : Pane κ K → Nat
  | leaf .. => 0
  | split _ _ _ first second => first.splits + second.splits + 1

def rebuilt (args : κ → A) : Pane κ K → PaneId → PaneId → Pane A K
  | leaf control _ _, currentId, _ => leaf (args control) (some currentId) false
  | split state position _ first second, currentId, nextId =>
    split state position false (first.rebuilt args currentId (nextId + 1))
      (second.rebuilt args nextId (nextId + 1 + BitVec.ofNat 32 first.splits))

def arrangement (args : κ → A) : Pane κ K → Pane A K
  | leaf control _ _ => leaf (args control) none false
  | split state position _ first second => split state position false (first.arrangement args) (second.arrangement args)

section

variable (args : κ → A) (pane : Pane κ K) (currentId nextId : PaneId)

theorem arrangement_rebuilt : (pane.rebuilt args currentId nextId).arrangement
    (fun terminalArgs => terminalArgs) = pane.arrangement args := by
  induction pane generalizing currentId nextId with
  | leaf => rfl
  | split _ _ _ _ _ ihFirst ihSecond => simp [rebuilt, arrangement, ihFirst, ihSecond]

theorem arrangement_clearActive : pane.clearActive.arrangement args = pane.arrangement args := by
  induction pane with
  | leaf => rfl
  | split _ _ _ _ _ ihFirst ihSecond => simp [clearActive, arrangement, ihFirst, ihSecond]

theorem lastLeaf_rebuilt : (pane.rebuilt args currentId nextId).lastLeaf = pane.lastLeaf := by
  induction pane generalizing currentId nextId with
  | leaf => rfl
  | split _ _ _ _ _ _ ihSecond => simp [rebuilt, lastLeaf, ihSecond]

theorem leafPaths_clearActive (q : Path) : leafPaths q pane.clearActive = leafPaths q pane := by
  induction pane generalizing q with
  | leaf => rfl
  | split _ _ _ _ _ ihFirst ihSecond => simp [clearActive, leafPaths, ihFirst, ihSecond]

theorem exists_leafPaths_lastLeaf (q : Path) : ∃ before, leafPaths q pane = before ++ [q ++ pane.lastLeaf] := by
  induction pane generalizing q with
  | leaf => exact ⟨[], by simp [leafPaths, lastLeaf]⟩
  | split state position active first second _ ihSecond =>
    obtain ⟨before, hbefore⟩ := ihSecond (q ++ [.second])
    exact ⟨leafPaths (q ++ [.first]) first ++ before, by simp [leafPaths, lastLeaf, hbefore]⟩

theorem get?_lastLeaf_rebuilt : ∃ control id, (pane.rebuilt args currentId nextId).get?
    pane.lastLeaf = some (leaf control (some id) false) := by
  induction pane generalizing currentId nextId with
  | leaf control => exact ⟨args control, currentId, rfl⟩
  | split _ _ _ _ _ _ ihSecond => exact ihSecond _ _

/-! ## Saving -/

variable [Ring K]

theorem buildStartupActions_split (state : SplitState) (position : K) (active : Bool) (first second : Pane κ K) :
    (split state position active first second).buildStartupActions args currentId nextId =
      let firstState := first.buildStartupActions args currentId (nextId + 1)
      let secondState := second.buildStartupActions args nextId (nextId + firstState.panesCreated + 1)
      ⟨buildSplitPane args state position secondState.firstPane :: (aroundFirst firstState.args ++ secondState.args),
        firstState.firstPane,
        if firstState.focusedPaneId.isSome then firstState.focusedPaneId else secondState.focusedPaneId,
        firstState.panesCreated + secondState.panesCreated + 1⟩ := by
  cases first with
  | split => rfl
  | leaf firstControl firstId firstActive =>
    cases second with
    | split => rfl
    | leaf secondControl secondId secondActive => cases firstActive <;> cases secondActive <;> rfl

theorem firstPane_buildStartupActions :
    (pane.buildStartupActions args currentId nextId).firstPane = pane.firstLeaf := by
  induction pane generalizing currentId nextId with
  | leaf => rfl
  | split _ _ _ _ _ ihFirst _ => simp [buildStartupActions_split, firstLeaf, ihFirst]

theorem panesCreated_buildStartupActions :
    (pane.buildStartupActions args currentId nextId).panesCreated = BitVec.ofNat 32 pane.splits := by
  induction pane generalizing currentId nextId with
  | leaf => rfl
  | split _ _ _ _ _ ihFirst ihSecond => simp [buildStartupActions_split, splits, ihFirst, ihSecond, BitVec.ofNat_add]

theorem args_leaf (control : κ) (id : Option PaneId) (active : Bool) :
    ((leaf control id active : Pane κ K).buildStartupActions args currentId nextId).args = [] := rfl

theorem args_split (state : SplitState) (position : K) (active : Bool) (first second : Pane κ K) :
    ((split state position active first second).buildStartupActions args currentId nextId).args =
      buildSplitPane args state position second.firstLeaf ::
        (aroundFirst (first.buildStartupActions args currentId (nextId + 1)).args ++
          (second.buildStartupActions args nextId (nextId + 1 + BitVec.ofNat 32 first.splits)).args) := by
  rw [buildStartupActions_split]
  simp only [firstPane_buildStartupActions, panesCreated_buildStartupActions]
  rw [BitVec.add_assoc, BitVec.add_comm (BitVec.ofNat 32 first.splits), ← BitVec.add_assoc]

/-! ## The focus -/

def activeLeaves : Pane κ K → Nat
  | leaf _ _ active => if active then 1 else 0
  | split _ _ _ first second => first.activeLeaves + second.activeLeaves

variable {pane}

omit [Ring K] in
theorem activeLeaves_pos {path : Path} {control : κ} {id : Option PaneId}
    (hget : pane.get? path = some (leaf control id true)) :
    0 < pane.activeLeaves := by
  induction pane generalizing path with
  | leaf =>
    cases path with
    | nil =>
      obtain ⟨rfl, rfl, rfl⟩ := leaf.inj (Option.some.inj hget)
      exact Nat.one_pos
    | cons => exact absurd hget (by simp [get?])
  | split _ _ _ first second ihFirst ihSecond =>
    cases path with
    | nil => exact absurd hget (by simp [get?])
    | cons side path =>
      cases side with
      | first => exact Nat.add_pos_left (ihFirst hget) _
      | second => exact Nat.add_pos_right _ (ihSecond hget)

theorem focusedPaneId_of_forall_ne (h : ∀ path control id, pane.get? path ≠ some (leaf control id true)) :
    (pane.buildStartupActions args currentId nextId).focusedPaneId = none := by
  induction pane generalizing currentId nextId with
  | leaf control id active =>
    cases active with
    | false => rfl
    | true => exact absurd rfl (h [] control id)
  | split state position active first second ihFirst ihSecond =>
    rw [buildStartupActions_split]
    simp [ihFirst _ _ fun path => h (.first :: path), ihSecond _ _ fun path => h (.second :: path)]

theorem focusedPaneId_of_get? (hactive : pane.activeLeaves ≤ 1) {path : Path} {control : κ} {id : Option PaneId}
    (hget : pane.get? path = some (leaf control id true)) :
    ∃ newId, (pane.buildStartupActions args currentId nextId).focusedPaneId = some newId ∧
      (pane.rebuilt args currentId nextId).get? path = some (leaf (args control) (some newId) false) := by
  induction pane generalizing currentId nextId path with
  | leaf =>
    cases path with
    | nil =>
      obtain ⟨rfl, rfl, rfl⟩ := leaf.inj (Option.some.inj hget)
      exact ⟨currentId, rfl, rfl⟩
    | cons => exact absurd hget (by simp [get?])
  | split state position active first second ihFirst ihSecond =>
    rw [buildStartupActions_split]
    cases path with
    | nil => exact absurd hget (by simp [get?])
    | cons side path =>
      cases side with
      | first =>
        have hfirst : first.activeLeaves ≤ 1 := Nat.le_trans (Nat.le_add_right _ _) hactive
        obtain ⟨newId, hfocused, hnew⟩ := ihFirst currentId (nextId + 1) hfirst hget
        refine ⟨newId, ?_, hnew⟩
        simp only [hfocused, Option.isSome_some, if_true]
      | second =>
        have hsecond : second.activeLeaves ≤ 1 := Nat.le_trans (Nat.le_add_left _ _) hactive
        -- Both children cannot be active.
        have hnone : ∀ q d j, first.get? q ≠ some (leaf d j true) := by
          intro q d j hq
          have hpos : 0 < second.activeLeaves := activeLeaves_pos hget
          have hboth := Nat.add_le_add (activeLeaves_pos hq) hpos
          exact absurd (Nat.le_trans hboth hactive) (by decide)
        obtain ⟨newId, hfocused, hnew⟩ := ihSecond nextId (nextId + 1 + BitVec.ofNat 32 first.splits) hsecond hget
        refine ⟨newId, ?_, hnew⟩
        simp only [focusedPaneId_of_forall_ne args currentId (nextId + 1) hnone, panesCreated_buildStartupActions]
        rw [BitVec.add_assoc, BitVec.add_comm (BitVec.ofNat 32 first.splits), ← BitVec.add_assoc]
        exact hfocused

end

end Pane

namespace TerminalTab

open Pane

/-! ## Running the actions -/

section

variable {tab : TerminalTab A K} {root sub first second : Pane A K} {path : Path}
  {state : SplitState} {position : K} {next : PaneId} {control : A} {id : PaneId}

theorem exists_leafPaths_split
    (htab : tab.rootPane.clearActive = modifyAt (fun _ => split state position false first second) path root)
    (hpath : root.get? path = some sub) :
    ∃ before behind, leafPaths [] tab.rootPane =
      before ++ (leafPaths (path ++ [.first]) first ++ leafPaths (path ++ [.second]) second ++ behind) := by
  have hget := get?_modifyAt hpath (fun _ => split state position false first second)
  rw [← htab] at hget
  obtain ⟨before, behind, heq⟩ := exists_leafPaths hget []
  exact ⟨before, behind, by simpa [leafPaths_clearActive, leafPaths] using heq⟩

theorem get?_split (htab : tab.rootPane.clearActive =
    modifyAt (fun _ => split state position false first second) path root)
    (hpath : root.get? path = some sub) (rest : Path) :
    tab.rootPane.clearActive.get? (path ++ rest) = (split state position false first second).get? rest := by
  rw [htab, get?_append, get?_modifyAt hpath, Option.bind_some]

theorem clearActive_previousInOrder {firstControl : A} {firstId : PaneId}
    (htab : tab.clearActive = ⟨modifyAt (fun _ => split state position false (leaf firstControl (some firstId) false)
      (leaf control (some id) false)) path root, path ++ [.second], next⟩) (hpath : root.get? path = some sub) :
    (tab.navigateFocus .previousInOrder).clearActive = { tab.clearActive with activePane := path ++ [.first] } := by
  obtain ⟨hroot, hactive, -⟩ := TerminalTab.mk.inj htab
  obtain ⟨active, hleaf⟩ := get?_of_clearActive (get?_split hroot hpath [.second])
  obtain ⟨before, behind, heq⟩ := exists_leafPaths_split hroot hpath
  apply clearActive_navigateFocus
  rw [hactive]
  exact previousPane_eq hleaf heq

theorem clearActive_nextInOrder {lastControl : A} {lastId : PaneId} 
    (htab : tab.clearActive = ⟨modifyAt (fun _ => split state position false first
      (leaf control (some id) false)) path root,
      path ++ [.first] ++ first.lastLeaf, next⟩) (hpath : root.get? path = some sub)
    (hlast : first.get? first.lastLeaf = some (leaf lastControl (some lastId) false)) :
    (tab.navigateFocus .nextInOrder).clearActive = { tab.clearActive with activePane := path ++ [.second] } := by
  obtain ⟨hroot, hactive, -⟩ := TerminalTab.mk.inj htab
  have hlast' := get?_split hroot hpath (.first :: first.lastLeaf)
  rw [List.append_cons] at hlast'
  obtain ⟨active, hleaf⟩ := get?_of_clearActive (hlast'.trans hlast)
  obtain ⟨before, behind, heq⟩ := exists_leafPaths_split hroot hpath
  obtain ⟨others, hothers⟩ := exists_leafPaths_lastLeaf first (path ++ [.first])
  apply clearActive_navigateFocus
  rw [hactive]
  have horder : leafPaths [] tab.rootPane =
      (before ++ others) ++ (path ++ [.first] ++ first.lastLeaf) :: (path ++ [.second]) :: behind := by
    rw [heq, hothers]
    simp [leafPaths]
  exact nextPane_eq hleaf horder

end

variable [Ring K]

def Builds (wider : Bool) (args : κ → A) (saved : Pane κ K) : Prop :=
  ∀ (tab : TerminalTab A K) (root : Pane A K) (path : Path) (currentId nextId : PaneId),
    tab.clearActive = ⟨root, path, nextId⟩ →
    root.get? path = some (leaf (args saved.firstLeaf) (some currentId) false) →
    ((saved.buildStartupActions args currentId nextId).args.foldl (doAction wider) tab).clearActive =
      ⟨modifyAt (fun _ => saved.rebuilt args currentId nextId) path root, path ++ saved.lastLeaf,
        nextId + BitVec.ofNat 32 saved.splits⟩

variable {wider : Bool} {args : κ → A} {tab : TerminalTab A K} {root sub : Pane A K} {path : Path}
  {currentId nextId : PaneId} {state : SplitState} {position : K}

theorem builds_leaf (control : κ) (id : Option PaneId) (active : Bool) :
    Builds wider args (leaf control id active : Pane κ K) := by
  intro tab root path currentId nextId htab hleaf
  have hsame := modifyAt_congr hleaf (f := fun _ => (leaf control id active).rebuilt args currentId nextId)
    (g := fun pane => pane) rfl
  rw [modifyAt_id] at hsame
  simp [args_leaf, hsame, htab, lastLeaf, splits]

theorem clearActive_buildSplitPane (wider : Bool) (args : κ → A) (state : SplitState) (position : K) (newPane : κ)
    {control : A} (htab : tab.clearActive = ⟨root, path, nextId⟩)
    (hleaf : root.get? path = some (leaf control (some currentId) false)) :
    (tab.doAction wider (buildSplitPane args state position newPane)).clearActive =
      ⟨modifyAt (fun _ => split state position false (leaf control (some currentId) false)
        (leaf (args newPane) (some nextId) false)) path root, path ++ [.second], nextId + 1⟩ := by
  obtain ⟨rfl, rfl, rfl⟩ := TerminalTab.mk.inj htab
  rw [buildSplitPane, doAction, clearActive_splitPane wider (by cases state <;> rfl) _ _ hleaf, sub_sub_cancel]
  cases state <;> rfl

theorem clearActive_aroundFirst {first : Pane κ K} (hfirst : Builds wider args first) {control : A} {id : PaneId}
    (htab : tab.clearActive = ⟨modifyAt
      (fun _ => split state position false (leaf (args first.firstLeaf) (some currentId) false)
      (leaf control (some id) false)) path root, path ++ [.second], nextId⟩) (hpath : root.get? path = some sub) :
    ((aroundFirst (first.buildStartupActions args currentId nextId).args).foldl (doAction wider) tab).clearActive =
      ⟨modifyAt (fun _ => split state position false (first.rebuilt args currentId nextId)
        (leaf control (some id) false)) path root,
        path ++ [.second], nextId + BitVec.ofNat 32 first.splits⟩ := by
  rw [aroundFirst]
  split_ifs with hactions
  · rw [List.foldl_cons, List.foldl_append, List.foldl_cons, List.foldl_nil, doAction, doAction]
    have hprevious := clearActive_previousInOrder htab hpath
    rw [htab] at hprevious
    have hbuilt := hfirst _ _ _ currentId _ hprevious (by rw [get?_append, get?_modifyAt hpath]; rfl)
    rw [modifyAt_append, modifyAt_modifyAt] at hbuilt
    obtain ⟨lastControl, lastId, hlast⟩ := get?_lastLeaf_rebuilt args first currentId nextId
    rw [← lastLeaf_rebuilt args first currentId nextId] at hbuilt hlast
    rw [clearActive_nextInOrder hbuilt hpath hlast, hbuilt]
    rfl
  · cases first with
    | leaf => simpa [rebuilt, splits, firstLeaf] using htab
    | split => exact absurd (by simp [args_split]) hactions

theorem builds_split {first second : Pane κ K} (hfirst : Builds wider args first) (hsecond : Builds wider args second)
    (active : Bool) : Builds wider args (split state position active first second) := by
  intro tab root path currentId nextId htab hleaf
  rw [args_split, List.foldl_cons, List.foldl_append]
  have hsplit := clearActive_buildSplitPane wider args state position second.firstLeaf htab hleaf
  have haround := clearActive_aroundFirst hfirst hsplit hleaf
  rw [hsecond _ _ _ nextId _ haround (by rw [get?_append, get?_modifyAt hleaf]; rfl),
    modifyAt_append, modifyAt_modifyAt]
  have hids : nextId + 1 + BitVec.ofNat 32 first.splits + BitVec.ofNat 32 second.splits =
      nextId + BitVec.ofNat 32 (split state position active first second).splits := by
    have hone : (1 : PaneId) = BitVec.ofNat 32 1 := rfl
    rw [splits, BitVec.ofNat_add, BitVec.ofNat_add, hone]
    ac_rfl
  rw [hids, List.append_assoc]
  rfl

theorem builds (wider : Bool) (args : κ → A) (saved : Pane κ K) : Builds wider args saved := by
  induction saved with
  | leaf control id active => exact builds_leaf control id active
  | split state position active first second ihFirst ihSecond => exact builds_split ihFirst ihSecond active

def start (terminalArgs : A) (currentId nextId : PaneId) :
    TerminalTab A K := ⟨leaf terminalArgs (some currentId) true, [], nextId⟩

/-- A saved tree is built again, with the focused pane found by its id. -/
theorem restored (wider : Bool) (args : κ → A) (saved : Pane κ K) (currentId nextId : PaneId)
    (hactive : saved.activeLeaves ≤ 1) :
    let state := saved.buildStartupActions args currentId nextId
    let tab := state.args.foldl (doAction wider) (start (args state.firstPane) currentId nextId)
    tab.rootPane.arrangement (fun terminalArgs => terminalArgs) = saved.arrangement args ∧
    state.panesCreated = BitVec.ofNat 32 saved.splits ∧
    (∀ path control id, saved.get? path = some (leaf control id true) →
      ∃ newId active, state.focusedPaneId = some newId ∧ tab.rootPane.get? path =
        some (leaf (args control) (some newId) active)) ∧
    ((∀ path control id, saved.get? path ≠ some (leaf control id true)) → state.focusedPaneId = none) := by
  intro state tab
  have htab : tab.clearActive = ⟨saved.rebuilt args currentId nextId, saved.lastLeaf,
    nextId + BitVec.ofNat 32 saved.splits⟩ := by
    have hbuilt := builds wider args saved (start (args state.firstPane) currentId nextId)
      (leaf (args saved.firstLeaf) (some currentId) false) [] currentId nextId
      (by rw [firstPane_buildStartupActions]; rfl) rfl
    simpa using hbuilt
  obtain ⟨hroot, -, -⟩ := TerminalTab.mk.inj htab
  refine ⟨?_, panesCreated_buildStartupActions args saved currentId nextId, ?_, ?_⟩
  · rw [← arrangement_clearActive, hroot, arrangement_rebuilt]
  · intro path control id hget
    obtain ⟨newId, hfocused, hnew⟩ := focusedPaneId_of_get? args currentId nextId hactive hget
    rw [← hroot] at hnew
    obtain ⟨active, hleaf⟩ := get?_of_clearActive hnew
    exact ⟨newId, active, hfocused, hleaf⟩
  · exact focusedPaneId_of_forall_ne args currentId nextId

theorem restored_three :
    let saved : Pane Char ℚ := split .vertical (3 / 5) false (leaf 'a' none false)
      (split .horizontal (2 / 5) false (leaf 'b' none false) (leaf 'c' none true))
    let state := saved.buildStartupActions (fun control => control.toNat) 0 1
    saved.activeLeaves ≤ 1 ∧ state.args.length = 2 ∧ state.panesCreated = 2 ∧ state.focusedPaneId = some 2 ∧
    (state.args.foldl (doAction true) (start (state.firstPane.toNat) 0 1)).rootPane.arrangement (fun args => args) =
      split .vertical (3 / 5) false (leaf 97 none false)
        (split .horizontal (2 / 5) false (leaf 98 none false) (leaf 99 none false)) := by
  intro saved state
  obtain ⟨hsame, hcreated, -, -⟩ := restored true (fun control : Char => control.toNat) saved 0 1 (by decide)
  exact ⟨by decide, rfl, hcreated, rfl, hsame⟩

end TerminalTab

end Terminal.App
