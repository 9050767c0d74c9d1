import Mathlib.Data.List.Induction
import Mathlib.Tactic.Common
import Mathlib.Logic.Function.Basic

/-!
# Key bindings (`ActionMap.cpp`)

A layer of settings over its parents maps a chord to the id of an action, and the id to a command:
its own, or a copy of an inherited one that this layer has changed.

Commands are objects shared with the caller. Here a map has their values, and a change through a
reference changes the entry it came from.
-/

namespace Terminal.Settings

/-! ## Key chords -/

structure KeyChord where
  modifiers : UInt32
  vkey : UInt32
  scanCode : UInt32
deriving Repr

namespace KeyChord

def equals (keys other : KeyChord) : Bool :=
  keys.modifiers == other.modifiers &&
    if keys.vkey ||| other.vkey != 0 then keys.vkey == other.vkey else keys.scanCode == other.scanCode

instance : BEq KeyChord := ⟨equals⟩

def hash (keys : KeyChord) : UInt64 :=
  let low := if keys.vkey != 0 then keys.vkey else keys.scanCode ||| 0xBABE0000
  let h := keys.modifiers.toUInt64 <<< 32 ||| low.toUInt64
  let h := h ^^^ (h >>> 33)
  let h := h * 0xff51afd7ed558ccd
  let h := h ^^^ (h >>> 33)
  let h := h * 0xc4ceb9fe1a85ec53
  h ^^^ (h >>> 33)

instance : Hashable KeyChord := ⟨hash⟩

def code (keys : KeyChord) : UInt32 × UInt32 := if keys.vkey = 0 then (0, keys.scanCode) else (keys.vkey, 0)

theorem equals_iff (keys other : KeyChord) :
    (keys == other) = true ↔ keys.modifiers = other.modifiers ∧ keys.code = other.code := by
  show keys.equals other = true ↔ _
  unfold equals code
  by_cases h : keys.vkey = 0 <;> by_cases h' : other.vkey = 0
  · simp [h, h']
  · simp [h, h', Ne.symm h']
  · simp [h, h']
  · simp [h, h']

instance : EquivBEq KeyChord where
  rfl := by
    intro keys
    simp [equals_iff]
  symm := by
    intro keys other h
    rw [equals_iff] at h ⊢
    exact ⟨h.1.symm, h.2.symm⟩
  trans := by
    intro keys other third h h'
    rw [equals_iff] at h h' ⊢
    exact ⟨h.1.trans h'.1, h.2.trans h'.2⟩

instance : LawfulHashable KeyChord where
  hash_eq := by
    intro keys other h
    obtain ⟨hmodifiers, hcode⟩ := (equals_iff keys other).mp h
    show hash keys = hash other
    have hlow : (if keys.vkey != 0 then keys.vkey else keys.scanCode ||| 0xBABE0000) =
        if other.vkey != 0 then other.vkey else other.scanCode ||| 0xBABE0000 := by
      unfold code at hcode
      by_cases h : keys.vkey = 0 <;> by_cases h' : other.vkey = 0
      all_goals simp_all
    unfold hash
    rw [hmodifiers, hlow]

end KeyChord

/-! ## Commands -/

inductive Json where
  | null
  | bool (value : Bool)
  | number (value : Int)
  | string (value : String)
  | array (values : List Json)
  | object (members : List (String × Json))

inductive ExpandCommandType where
  | none
  | profiles
  | colorSchemes
deriving DecidableEq, Repr

structure Command (A : Type) where
  name : Option String := none
  actionAndArgs : A
  keyMappings : List KeyChord := []
  iterateOn : ExpandCommandType := .none
  nestedCommand : Bool := false
  hasNestedCommands : Bool := false
  nested_of_has : hasNestedCommands = true → nestedCommand = true := by decide
  iconPath : Option String := none
  originalJson : Json := .null

namespace Command

variable {A : Type}

def keys (cmd : Command A) : Option KeyChord := cmd.keyMappings.getLast?

def eraseKey (keys : KeyChord) (cmd : Command A) : Command A :=
  { cmd with
    keyMappings := cmd.keyMappings.filter fun iterKey =>
      !(keys.modifiers == iterKey.modifiers && keys.vkey == iterKey.vkey) }

def registerKey (keys : KeyChord) (cmd : Command A) : Command A :=
  { cmd with keyMappings := (cmd.eraseKey keys).keyMappings ++ [keys] }

def binds (cmd : Command A) (keys : KeyChord) : Bool :=
  !cmd.nestedCommand && (decide (cmd.iterateOn = .none) && cmd.keys.any (· == keys))

end Command

/-! ## Layers -/

structure ActionMap (A : Type) where
  nestedCommands : Std.HashMap String (Command A) := ∅
  iterableCommands : List (Command A) := []
  keyMap : Std.HashMap KeyChord Nat := ∅
  actionMap : Std.HashMap Nat (Command A) := ∅
  maskingActions : Std.HashMap Nat (Command A) := ∅
  parents : List (ActionMap A) := []

/-- The id of an action, whether it is the unbound one, and a name for it. -/
structure Actions (A : Type) where
  hash : A → Nat
  isInvalid : A → Bool
  generateName : A → String

namespace ActionMap

variable {A : Type} (acts : Actions A)

/-- `some none` is an action that is explicitly unbound. -/
def getActionByID (actionID : Nat) (m : ActionMap A) : Option (Option (Command A)) :=
  match m.maskingActions[actionID]? with
  | some cmd => some (some cmd)
  | none =>
    match m.actionMap[actionID]? with
    | some cmd => some (if !cmd.hasNestedCommands && acts.isInvalid cmd.actionAndArgs then none else some cmd)
    | none => none

mutual

/-- `some none` is a chord that is explicitly unbound. -/
def getActionByKeyChordInternal : ActionMap A → KeyChord → Option (Option (Command A))
  | ⟨nested, iterable, keyMap, actionMap, masking, parents⟩, keys =>
    match keyMap[keys]? with
    | some actionID => getActionByID acts actionID ⟨nested, iterable, keyMap, actionMap, masking, parents⟩
    | none => askParents parents keys

def askParents : List (ActionMap A) → KeyChord → Option (Option (Command A))
  | [], _ => none
  | parent :: parents, keys =>
    match parent.getActionByKeyChordInternal keys with
    | some inheritedCmd => some inheritedCmd
    | none => askParents parents keys

end

def getActionByKeyChord (keys : KeyChord) (m : ActionMap A) : Option (Command A) :=
  (m.getActionByKeyChordInternal acts keys).getD none

/-! ## Adding actions -/

/-- Nothing, the entry of this layer, or a copy that is in no map. -/
inductive MaskingCmd where
  | null
  | entry
  | copy
deriving DecidableEq, Repr

/-- The loop over the parents; a second copy is not put into the map. -/
def inheritMasking (actionID : Nat) :
    List (ActionMap A) → Std.HashMap Nat (Command A) × MaskingCmd → Std.HashMap Nat (Command A) × MaskingCmd
  | [], found => found
  | parent :: parents, found =>
    match parent.getActionByID acts actionID with
    | some (some inheritedCmd) =>
      inheritMasking actionID parents
        (if found.1.contains actionID then (found.1, .copy) else (found.1.insert actionID inheritedCmd, .entry))
    | _ => inheritMasking actionID parents found

def tryUpdateActionMap (cmd : Command A) (m : ActionMap A) : ActionMap A × Bool × MaskingCmd :=
  let actionID := acts.hash cmd.actionAndArgs
  let hasOld := m.actionMap.contains actionID
  let found :=
    if m.maskingActions.contains actionID then (m.maskingActions, .entry)
    else inheritMasking acts actionID m.parents (m.maskingActions, .null)
  ({ m with actionMap := m.actionMap.insertIfNew actionID cmd, maskingActions := found.1 }, hasOld, found.2)

def updateCmds (actionID : Nat) (hasOld : Bool) (maskingCmd : MaskingCmd) (change : Command A → Command A)
    (m : ActionMap A) : ActionMap A :=
  { m with
    actionMap := if hasOld then m.actionMap.modify actionID change else m.actionMap
    maskingActions := if maskingCmd = .entry then m.maskingActions.modify actionID change else m.maskingActions }

def rename (newName : String) (cmd : Command A) : Command A :=
  if newName ≠ cmd.name.getD (acts.generateName cmd.actionAndArgs) then { cmd with name := some newName } else cmd

def tryUpdateName (cmd : Command A) (hasOld : Bool) (maskingCmd : MaskingCmd) (m : ActionMap A) : ActionMap A :=
  match cmd.name with
  | none => m
  | some newName =>
    let m := m.updateCmds (acts.hash cmd.actionAndArgs) hasOld maskingCmd (rename acts newName)
    { m with nestedCommands := m.nestedCommands.erase newName }

def handleCollision (keys : KeyChord) (m : ActionMap A) : ActionMap A :=
  match m.keyMap[keys]? with
  | some oldID => { m with actionMap := m.actionMap.modify oldID (Command.eraseKey keys) }
  | none =>
    match m.getActionByKeyChord acts keys with
    | none => m
    | some conflictingCmd =>
      let conflictingID := acts.hash conflictingCmd.actionAndArgs
      if m.maskingActions.contains conflictingID then
        { m with maskingActions := m.maskingActions.modify conflictingID (Command.eraseKey keys) }
      else { m with maskingActions := m.maskingActions.insert conflictingID (conflictingCmd.eraseKey keys) }

def tryUpdateKeyChord (cmd : Command A) (hasOld : Bool) (maskingCmd : MaskingCmd) (m : ActionMap A) : ActionMap A :=
  match cmd.keys with
  | none => m
  | some keys =>
    let m := m.handleCollision acts keys
    let actionID := acts.hash cmd.actionAndArgs
    let m := { m with keyMap := m.keyMap.insert keys actionID }
    m.updateCmds actionID hasOld maskingCmd (Command.registerKey keys)

def addAction (m : ActionMap A) (cmd : Command A) : ActionMap A :=
  if cmd.nestedCommand then
    let name := cmd.name.getD (acts.generateName cmd.actionAndArgs)
    if name ≠ "" then { m with nestedCommands := m.nestedCommands.insertIfNew name cmd } else m
  else if cmd.iterateOn ≠ .none then { m with iterableCommands := m.iterableCommands ++ [cmd] }
  else
    let (m, hasOld, maskingCmd) := m.tryUpdateActionMap acts cmd
    (m.tryUpdateName acts cmd hasOld maskingCmd).tryUpdateKeyChord acts cmd hasOld maskingCmd

/-! ## What every layer keeps -/

def Entries (P : Nat → Command A → Prop) (map : Std.HashMap Nat (Command A)) : Prop :=
  ∀ actionID cmd, map[actionID]? = some cmd → P actionID cmd

section Entries

variable {P : Nat → Command A → Prop} {map : Std.HashMap Nat (Command A)}

theorem Entries.modify (h : Entries P map) (actionID : Nat) {change : Command A → Command A}
    (hchange : ∀ i cmd, P i cmd → P i (change cmd)) : Entries P (map.modify actionID change) := by
  intro i cmd hcmd
  rw [Std.HashMap.getElem?_modify] at hcmd
  split at hcmd
  next heq =>
    obtain ⟨old, hold, rfl⟩ := Option.map_eq_some_iff.mp hcmd
    have hi : actionID = i := by simpa using heq
    exact hchange i old (h i old (hi ▸ hold))
  next => exact h i cmd hcmd

theorem Entries.insert (h : Entries P map) {actionID : Nat} {cmd : Command A} (hcmd : P actionID cmd) :
    Entries P (map.insert actionID cmd) := by
  intro i other hother
  rw [Std.HashMap.getElem?_insert] at hother
  split at hother
  next heq =>
    have hi : actionID = i := by simpa using heq
    rw [← hi, ← Option.some.inj hother]
    exact hcmd
  next => exact h i other hother

theorem Entries.insertIfNew (h : Entries P map) {actionID : Nat} {cmd : Command A} (hcmd : P actionID cmd) :
    Entries P (map.insertIfNew actionID cmd) := by
  intro i other hother
  rw [Std.HashMap.getElem?_insertIfNew] at hother
  split at hother
  next heq =>
    have hi : actionID = i := by simpa using heq.1
    rw [← hi, ← Option.some.inj hother]
    exact hcmd
  next => exact h i other hother

end Entries

def Own (actionID : Nat) (cmd : Command A) : Prop :=
  acts.hash cmd.actionAndArgs = actionID ∧ cmd.hasNestedCommands = false

/-- A masking action cannot be an invalid command. -/
def Masks (actionID : Nat) (cmd : Command A) : Prop :=
  acts.hash cmd.actionAndArgs = actionID ∧ acts.isInvalid cmd.actionAndArgs = false

structure Coherent (m : ActionMap A) : Prop where
  own : Entries (Own acts) m.actionMap
  masks : Entries (Masks acts) m.maskingActions
  bound : ∀ (keys : KeyChord) (actionID : Nat), m.keyMap[keys]? = some actionID → actionID ∈ m.actionMap

inductive Layered : ActionMap A → Prop where
  | mk {m : ActionMap A} (here : Coherent acts m) (parents : ∀ parent ∈ m.parents, Layered parent) : Layered m

/-- The maps that calls of `AddAction` make, from the parents on. -/
inductive Built : ActionMap A → Prop where
  | new (parents : List (ActionMap A)) (h : ∀ parent ∈ parents, Built parent) : Built { parents := parents }
  | add (m : ActionMap A) (cmd : Command A) (h : Built m) : Built (m.addAction acts cmd)

/-! ## Lookups -/

section Lookup

variable {acts} {m : ActionMap A}

theorem getActionByKeyChordInternal_eq (m : ActionMap A) (keys : KeyChord) : m.getActionByKeyChordInternal acts keys =
      match m.keyMap[keys]? with
      | some actionID => m.getActionByID acts actionID
      | none => askParents acts m.parents keys := by
  cases m
  rw [getActionByKeyChordInternal]

theorem askParents_eq (parents : List (ActionMap A)) (keys : KeyChord) :
    askParents acts parents keys = parents.findSome? fun parent => parent.getActionByKeyChordInternal acts keys := by
  induction parents with
  | nil => rw [askParents, List.findSome?_nil]
  | cons parent parents ih =>
    rw [askParents, List.findSome?_cons, ih]
    rcases parent.getActionByKeyChordInternal acts keys with _ | cmd <;> rfl

theorem masks_of_getActionByID (h : Coherent acts m) {actionID : Nat} {cmd : Command A}
    (hcmd : m.getActionByID acts actionID = some (some cmd)) : Masks acts actionID cmd := by
  unfold getActionByID at hcmd
  split at hcmd
  next masking hmasking =>
    cases hcmd
    exact h.masks actionID cmd hmasking
  next hmasking =>
    split at hcmd
    next own hown =>
      obtain ⟨hhash, hnested⟩ := h.own actionID own hown
      simp only [hnested] at hcmd
      split at hcmd
      next => cases hcmd
      next hvalid =>
        cases hcmd
        exact ⟨hhash, by simpa using hvalid⟩
    next => cases hcmd

theorem valid_of_getActionByKeyChordInternal (h : Layered acts m) (keys : KeyChord) (cmd : Command A)
    (hcmd : m.getActionByKeyChordInternal acts keys = some (some cmd)) :
    acts.isInvalid cmd.actionAndArgs = false := by
  induction h with
  | @mk m here parents ih =>
    rw [getActionByKeyChordInternal_eq] at hcmd
    split at hcmd
    next actionID hkeys => exact (masks_of_getActionByID here hcmd).2
    next =>
      rw [askParents_eq] at hcmd
      obtain ⟨parent, hmem, hparent⟩ := List.exists_of_findSome?_eq_some hcmd
      exact ih parent hmem hparent

theorem getActionByID_hash (hinj : Function.Injective acts.hash) (h : Coherent acts m) {action : A}
    (hmem : acts.hash action ∈ m.actionMap) :
    ∃ cmd, m.getActionByID acts (acts.hash action) = some cmd ∧
      cmd.map Command.actionAndArgs = if acts.isInvalid action then none else some action := by
  obtain ⟨own, hown⟩ := Option.isSome_iff_exists.mp (Std.HashMap.mem_iff_isSome_getElem?.mp hmem)
  obtain ⟨hhash, hnested⟩ := h.own _ own hown
  have haction : own.actionAndArgs = action := hinj hhash
  unfold getActionByID
  split
  next masking hmasking =>
    obtain ⟨hhash', hvalid⟩ := h.masks _ masking hmasking
    have haction' : masking.actionAndArgs = action := hinj hhash'
    rw [haction'] at hvalid
    exact ⟨some masking, rfl, by simp [haction', hvalid]⟩
  next =>
    rw [hown]
    refine ⟨_, rfl, ?_⟩
    rw [hnested, haction]
    by_cases hinvalid : acts.isInvalid action = true
    · simp [hinvalid]
    · simp [hinvalid, haction]

theorem getActionByKeyChord_bound (hinj : Function.Injective acts.hash) (h : Coherent acts m) {keys : KeyChord}
    {action : A} (hkeys : m.keyMap[keys]? = some (acts.hash action)) :
    (m.getActionByKeyChord acts keys).map Command.actionAndArgs =
      if acts.isInvalid action then none else some action := by
  obtain ⟨cmd, hcmd, haction⟩ := getActionByID_hash hinj h (h.bound keys _ hkeys)
  rw [getActionByKeyChord, getActionByKeyChordInternal_eq, hkeys]
  dsimp only
  rw [hcmd]
  exact haction

theorem getActionByKeyChord_inherited {keys : KeyChord} (hkeys : m.keyMap[keys]? = none) :
    m.getActionByKeyChord acts keys = (askParents acts m.parents keys).getD none := by
  rw [getActionByKeyChord, getActionByKeyChordInternal_eq, hkeys]

end Lookup

/-! ## Adding keeps the layers coherent -/

section Adding

variable {acts} {m : ActionMap A}

theorem inheritMasking_masks {actionID : Nat} (parents : List (ActionMap A))
    (hparents : ∀ parent ∈ parents, Coherent acts parent) (found : Std.HashMap Nat (Command A) × MaskingCmd)
    (h : Entries (Masks acts) found.1) : Entries (Masks acts) (inheritMasking acts actionID parents found).1 := by
  induction parents generalizing found with
  | nil => exact h
  | cons parent parents ih =>
    rw [inheritMasking]
    have hrest := fun p hp => hparents p (List.mem_cons_of_mem _ hp)
    split
    next cmd hcmd =>
      apply ih hrest
      split
      · exact h
      · exact h.insert (masks_of_getActionByID (hparents parent List.mem_cons_self) hcmd)
    next => exact ih hrest found h

theorem Layered.coherent (h : Layered acts m) : Coherent acts m := by
  cases h with
  | mk here parents => exact here

theorem Layered.parents_layered (h : Layered acts m) : ∀ parent ∈ m.parents, Layered acts parent := by
  cases h with
  | mk here parents => exact parents

structure SameAction (change : Command A → Command A) : Prop where
  actionAndArgs : ∀ cmd, (change cmd).actionAndArgs = cmd.actionAndArgs
  hasNestedCommands : ∀ cmd, (change cmd).hasNestedCommands = cmd.hasNestedCommands

theorem sameAction_eraseKey (keys : KeyChord) : SameAction (A := A) (Command.eraseKey keys) :=
    ⟨fun _ => rfl, fun _ => rfl⟩

theorem sameAction_registerKey (keys : KeyChord) : SameAction (A := A) (Command.registerKey keys) :=
  ⟨fun _ => rfl, fun _ => rfl⟩

theorem sameAction_rename (acts : Actions A) (newName : String) : SameAction (A := A) (rename acts newName) := by
  constructor <;> intro cmd <;> unfold rename <;> split <;> rfl

theorem SameAction.own {change : Command A → Command A} (h : SameAction change) (i : Nat) (cmd : Command A)
    (hcmd : Own acts i cmd) : Own acts i (change cmd) := by
  unfold Own at hcmd ⊢
  rw [h.actionAndArgs, h.hasNestedCommands]
  exact hcmd

theorem SameAction.masks {change : Command A → Command A} (h : SameAction change) (i : Nat) (cmd : Command A)
    (hcmd : Masks acts i cmd) : Masks acts i (change cmd) := by
  unfold Masks at hcmd ⊢
  rw [h.actionAndArgs]
  exact hcmd

structure SameKeys (m other : ActionMap A) : Prop where
  parents : other.parents = m.parents
  keyMap : other.keyMap = m.keyMap
  mem : ∀ actionID, actionID ∈ other.actionMap ↔ actionID ∈ m.actionMap

theorem updateCmds_sameKeys (actionID : Nat) (hasOld : Bool) (mask : MaskingCmd)
    (change : Command A → Command A) : SameKeys m (m.updateCmds actionID hasOld mask change) := by
  refine ⟨rfl, rfl, fun i => ?_⟩
  unfold updateCmds
  split
  · exact Std.HashMap.mem_modify
  · rfl

theorem Coherent.updateCmds (h : Coherent acts m) (actionID : Nat) (hasOld : Bool) (mask : MaskingCmd)
    {change : Command A → Command A} (hchange : SameAction change) :
    Coherent acts (m.updateCmds actionID hasOld mask change) where
  own := by
    unfold ActionMap.updateCmds
    split
    · exact h.own.modify actionID hchange.own
    · exact h.own
  masks := by
    unfold ActionMap.updateCmds
    dsimp only
    split
    · exact h.masks.modify actionID hchange.masks
    · exact h.masks
  bound := by
    intro keys i hi
    exact ((updateCmds_sameKeys actionID hasOld mask change).mem i).mpr (h.bound keys i hi)

theorem tryUpdateActionMap_coherent (h : Layered acts m) (cmd : Command A) (hcmd : cmd.hasNestedCommands = false) :
    Coherent acts (m.tryUpdateActionMap acts cmd).1 where
  own := h.coherent.own.insertIfNew ⟨rfl, hcmd⟩
  masks := by
    unfold tryUpdateActionMap
    dsimp only
    split
    · exact h.coherent.masks
    · exact inheritMasking_masks _ (fun p hp => (h.parents_layered p hp).coherent) _ h.coherent.masks
  bound := by
    intro keys i hi
    exact Std.HashMap.mem_insertIfNew.mpr (Or.inr (h.coherent.bound keys i hi))

theorem mem_tryUpdateActionMap (cmd : Command A) :
    acts.hash cmd.actionAndArgs ∈ (m.tryUpdateActionMap acts cmd).1.actionMap :=
  Std.HashMap.mem_insertIfNew_self

theorem tryUpdateName_coherent (h : Coherent acts m) (cmd : Command A) (hasOld : Bool) (mask : MaskingCmd) :
    Coherent acts (m.tryUpdateName acts cmd hasOld mask) := by
  unfold tryUpdateName
  split
  · exact h
  next newName hname =>
    have hrenamed := h.updateCmds (acts.hash cmd.actionAndArgs) hasOld mask (sameAction_rename acts newName)
    exact { hrenamed with }

theorem handleCollision_coherent (h : Layered acts m) (keys : KeyChord) :
    Coherent acts (m.handleCollision acts keys) := by
  unfold handleCollision
  split
  next oldID hkeys =>
    refine ⟨h.coherent.own.modify oldID (sameAction_eraseKey keys).own, h.coherent.masks, ?_⟩
    intro keys' i hi
    exact Std.HashMap.mem_modify.mpr (h.coherent.bound keys' i hi)
  next hkeys =>
    split
    next => exact h.coherent
    next conflictingCmd hconflict =>
      have hvalid : acts.isInvalid conflictingCmd.actionAndArgs = false := by
        apply valid_of_getActionByKeyChordInternal h keys conflictingCmd
        unfold getActionByKeyChord at hconflict
        rcases hfound : m.getActionByKeyChordInternal acts keys with _ | found
        · rw [hfound] at hconflict
          cases hconflict
        · rw [hfound] at hconflict
          exact congrArg some hconflict
      dsimp only
      split
      · exact ⟨h.coherent.own, h.coherent.masks.modify _ (sameAction_eraseKey keys).masks, h.coherent.bound⟩
      · exact ⟨h.coherent.own, h.coherent.masks.insert ⟨rfl, hvalid⟩, h.coherent.bound⟩

theorem handleCollision_sameKeys (keys : KeyChord) : SameKeys m (m.handleCollision acts keys) := by
  unfold handleCollision
  split
  · exact ⟨rfl, rfl, fun _ => Std.HashMap.mem_modify⟩
  · split
    · exact ⟨rfl, rfl, fun _ => Iff.rfl⟩
    · dsimp only
      split <;> exact ⟨rfl, rfl, fun _ => Iff.rfl⟩

theorem tryUpdateName_sameKeys (cmd : Command A) (hasOld : Bool) (mask : MaskingCmd) :
    SameKeys m (m.tryUpdateName acts cmd hasOld mask) := by
  unfold tryUpdateName
  split
  · exact ⟨rfl, rfl, fun _ => Iff.rfl⟩
  · exact ⟨rfl, rfl, (updateCmds_sameKeys _ hasOld mask _).mem⟩

theorem tryUpdateKeyChord_coherent (h : Layered acts m) (cmd : Command A) (hasOld : Bool) (mask : MaskingCmd)
    (hmem : acts.hash cmd.actionAndArgs ∈ m.actionMap) :
    Coherent acts (m.tryUpdateKeyChord acts cmd hasOld mask) := by
  unfold tryUpdateKeyChord
  split
  · exact h.coherent
  next keys hkeys =>
    apply Coherent.updateCmds _ _ _ _ (sameAction_registerKey keys)
    have hcleared := handleCollision_coherent h keys
    refine ⟨hcleared.own, hcleared.masks, ?_⟩
    intro keys' i hi
    rw [Std.HashMap.getElem?_insert] at hi
    split at hi
    next =>
      rw [← Option.some.inj hi]
      exact ((handleCollision_sameKeys keys).mem _).mpr hmem
    next => exact hcleared.bound keys' i hi

theorem tryUpdateKeyChord_parents (cmd : Command A) (hasOld : Bool) (mask : MaskingCmd) :
    (m.tryUpdateKeyChord acts cmd hasOld mask).parents = m.parents := by
  unfold tryUpdateKeyChord
  split
  · rfl
  · exact (handleCollision_sameKeys _).parents

theorem tryUpdateKeyChord_keyMap (cmd : Command A) (hasOld : Bool) (mask : MaskingCmd) (keys : KeyChord) :
    (m.tryUpdateKeyChord acts cmd hasOld mask).keyMap[keys]? =
      if cmd.keys.any (· == keys) then some (acts.hash cmd.actionAndArgs) else m.keyMap[keys]? := by
  unfold tryUpdateKeyChord
  split
  next hnone => simp [hnone]
  next newKeys hnew =>
    have hsame : (m.handleCollision acts newKeys).keyMap = m.keyMap := (handleCollision_sameKeys newKeys).keyMap
    rw [hnew, ← hsame]
    exact Std.HashMap.getElem?_insert

end Adding

/-! ## One call -/

section Call

variable {acts} {m : ActionMap A}

theorem addAction_parents (cmd : Command A) : (m.addAction acts cmd).parents = m.parents := by
  unfold addAction
  split
  · dsimp only
    split <;> rfl
  · split
    · rfl
    · rw [tryUpdateKeyChord_parents, (tryUpdateName_sameKeys ..).parents]
      rfl

theorem addAction_keyMap (cmd : Command A) (keys : KeyChord) : (m.addAction acts cmd).keyMap[keys]? =
      if cmd.binds keys then some (acts.hash cmd.actionAndArgs) else m.keyMap[keys]? := by
  unfold addAction Command.binds
  split
  next hnested =>
    simp only [hnested]
    split <;> rfl
  next hnested =>
    split
    next hiterate => simp [hiterate]
    next hiterate =>
      have hiterate : cmd.iterateOn = .none := by simpa using hiterate
      rw [tryUpdateKeyChord_keyMap, (tryUpdateName_sameKeys ..).keyMap]
      simp only [hnested, hiterate]
      rfl

theorem Layered.addAction (h : Layered acts m) (cmd : Command A) : Layered acts (m.addAction acts cmd) := by
  apply Layered.mk
  swap
  · rw [addAction_parents]
    exact h.parents_layered
  unfold ActionMap.addAction
  split
  · dsimp only
    split
    · exact ⟨h.coherent.own, h.coherent.masks, h.coherent.bound⟩
    · exact h.coherent
  next hnested =>
    split
    · exact ⟨h.coherent.own, h.coherent.masks, h.coherent.bound⟩
    next =>
      have hplain : cmd.hasNestedCommands = false := by
        by_contra hhas
        exact hnested (cmd.nested_of_has (by simpa using hhas))
      apply tryUpdateKeyChord_coherent
      · refine .mk (tryUpdateName_coherent (tryUpdateActionMap_coherent h cmd hplain) ..) ?_
        rw [(tryUpdateName_sameKeys ..).parents]
        exact h.parents_layered
      · exact ((tryUpdateName_sameKeys ..).mem _).mpr (mem_tryUpdateActionMap cmd)

theorem Built.layered (h : Built acts m) : Layered acts m := by
  induction h with
  | new parents h ih =>
    refine .mk ⟨?_, ?_, ?_⟩ ih
    · intro i cmd hcmd
      simp at hcmd
    · intro i cmd hcmd
      simp at hcmd
    · intro keys i hi
      simp at hi
  | add m cmd h ih => exact ih.addAction cmd

theorem getActionByKeyChord_addAction (hinj : Function.Injective acts.hash) (h : Layered acts m) (cmd : Command A)
    (keys : KeyChord) (hkeys : cmd.binds keys = false) :
    ((m.addAction acts cmd).getActionByKeyChord acts keys).map Command.actionAndArgs =
      (m.getActionByKeyChord acts keys).map Command.actionAndArgs := by
  have hsame : (m.addAction acts cmd).keyMap[keys]? = m.keyMap[keys]? := by
    rw [addAction_keyMap, hkeys]
    rfl
  rcases hbound : m.keyMap[keys]? with _ | actionID
  · rw [getActionByKeyChord_inherited (hsame.trans hbound), getActionByKeyChord_inherited hbound, addAction_parents]
  · obtain ⟨own, hown⟩ := Option.isSome_iff_exists.mp
      (Std.HashMap.mem_iff_isSome_getElem?.mp (h.coherent.bound keys actionID hbound))
    have hhash : acts.hash own.actionAndArgs = actionID := (h.coherent.own actionID own hown).1
    rw [← hhash] at hbound
    rw [getActionByKeyChord_bound hinj (h.addAction cmd).coherent (hsame.trans hbound),
      getActionByKeyChord_bound hinj h.coherent hbound]

end Call

/-! ## Runs of calls -/

def addActions (m : ActionMap A) (cmds : List (Command A)) : ActionMap A := cmds.foldl (addAction acts) m

section Runs

variable {acts}

theorem Layered.addActions {m : ActionMap A} (h : Layered acts m) (cmds : List (Command A)) :
    Layered acts (m.addActions acts cmds) := by
  induction cmds generalizing m with
  | nil => exact h
  | cons cmd cmds ih => exact ih (h.addAction cmd)

theorem addActions_append (m : ActionMap A) (cmds : List (Command A)) (cmd : Command A) :
    m.addActions acts (cmds ++ [cmd]) = (m.addActions acts cmds).addAction acts cmd := by
  unfold addActions
  rw [List.foldl_append]
  rfl

theorem addActions_parents (m : ActionMap A) (cmds : List (Command A)) :
    (m.addActions acts cmds).parents = m.parents := by
  induction cmds generalizing m with
  | nil => rfl
  | cons cmd cmds ih => exact (ih _).trans (addAction_parents cmd)

theorem addActions_keyMap (parents : List (ActionMap A)) (cmds : List (Command A)) (keys : KeyChord) :
    (addActions acts { parents := parents } cmds).keyMap[keys]? =
      (cmds.reverse.find? (·.binds keys)).map fun cmd => acts.hash cmd.actionAndArgs := by
  induction cmds using List.reverseRecOn with
  | nil => simp [addActions]
  | append_singleton cmds cmd ih =>
    rw [addActions_append, addAction_keyMap, ih]
    by_cases h : cmd.binds keys = true
    · simp [h]
    · simp [h]

/-- The last command that bound a chord decides, or else the parents. -/
theorem getActionByKeyChord_last (hinj : Function.Injective acts.hash) (parents : List (ActionMap A))
    (hparents : ∀ parent ∈ parents, Built acts parent) (cmds : List (Command A)) (keys : KeyChord) :
    let child := addActions acts { parents := parents } cmds
    (match cmds.reverse.find? (·.binds keys) with
      | some cmd =>
        (child.getActionByKeyChord acts keys).map Command.actionAndArgs =
          if acts.isInvalid cmd.actionAndArgs then none else some cmd.actionAndArgs
      | none =>
        child.getActionByKeyChord acts keys =
          (parents.findSome? fun parent => parent.getActionByKeyChordInternal acts keys).getD none) ∧
    ∀ cmd : Command A, (∀ newKeys ∈ cmd.keys, (newKeys == keys) = false) →
      ((child.addAction acts cmd).getActionByKeyChord acts keys).map Command.actionAndArgs =
        (child.getActionByKeyChord acts keys).map Command.actionAndArgs := by
  intro child
  have hchild : Layered acts child := (Built.new parents hparents).layered.addActions cmds
  have hkeys : child.keyMap[keys]? = _ := addActions_keyMap parents cmds keys
  constructor
  · split
    next cmd hlast =>
      rw [hlast] at hkeys
      exact getActionByKeyChord_bound hinj hchild.coherent hkeys
    next hlast =>
      rw [hlast] at hkeys
      rw [getActionByKeyChord_inherited hkeys, addActions_parents, askParents_eq]
  · intro cmd hother
    apply getActionByKeyChord_addAction hinj hchild cmd keys
    have hany : cmd.keys.any (· == keys) = false := by
      rcases hcmd : cmd.keys with _ | newKeys
      · rfl
      · exact hother newKeys hcmd
    simp [Command.binds, hany]

def numbered : Actions Nat := ⟨id, (· == 0), toString⟩

theorem getActionByKeyChord_last_unbound :
    let ctrlC : KeyChord := ⟨1, 0x43, 0⟩
    let ctrlV : KeyChord := ⟨1, 0x56, 0⟩
    let parent := addAction numbered {} { actionAndArgs := 1, keyMappings := [ctrlC] }
    let cmds : List (Command Nat) :=
      [{ actionAndArgs := 0, keyMappings := [ctrlC] }, { actionAndArgs := 2, keyMappings := [ctrlV] }]
    let child := addActions numbered { parents := [parent] } cmds
    (child.getActionByKeyChord numbered ctrlC).map Command.actionAndArgs = none ∧
      (child.getActionByKeyChord numbered ctrlV).map Command.actionAndArgs = some 2 := by
  intro ctrlC ctrlV parent cmds child
  have hinj : Function.Injective numbered.hash := fun _ _ h => h
  have hparents : ∀ p ∈ [parent], Built numbered p := by
    intro p hp
    rw [List.mem_singleton.mp hp]
    exact .add _ _ (.new [] (by simp))
  have hctrlC := (getActionByKeyChord_last hinj [parent] hparents cmds ctrlC).1
  have hctrlV := (getActionByKeyChord_last hinj [parent] hparents cmds ctrlV).1
  have hother : (ctrlV == ctrlC) = false := by decide
  have hlastC : cmds.reverse.find? (·.binds ctrlC) = some { actionAndArgs := 0, keyMappings := [ctrlC] } := by
    simp [cmds, Command.binds, Command.keys, hother]
  have hlastV : cmds.reverse.find? (·.binds ctrlV) = some { actionAndArgs := 2, keyMappings := [ctrlV] } := by
    simp [cmds, Command.binds, Command.keys]
  rw [hlastC] at hctrlC
  rw [hlastV] at hctrlV
  exact ⟨hctrlC, hctrlV⟩

end Runs

end ActionMap

end Terminal.Settings
