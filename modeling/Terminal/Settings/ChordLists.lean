import Terminal.Settings.ActionMap

/-!
# The chords listed with the commands (`ActionMap.cpp`, `Command.cpp`)

What a call does to the chord lists of the layer's own commands, and that these lists are the
chord map, sorted by id.
-/

namespace Terminal.Settings

open Option

namespace KeyChord

/-- `EraseKey` looks at the modifiers and the virtual key only. -/
def erases (keys iterKey : KeyChord) : Bool := keys.modifiers == iterKey.modifiers && keys.vkey == iterKey.vkey

def without (keys : KeyChord) (chords : List KeyChord) : List KeyChord := chords.filter fun k => !keys.erases k

variable {keys k : KeyChord} {chords : List KeyChord}

theorem erases_of_equals (h : (k == keys) = true) : keys.erases k = true := by
  obtain ⟨hmodifiers, hcode⟩ := (equals_iff k keys).mp h
  unfold code at hcode
  have hvkey : k.vkey = keys.vkey := by
    by_cases hk : k.vkey = 0 <;> by_cases hkeys : keys.vkey = 0 <;> simp_all
  simp [erases, hmodifiers, hvkey]

theorem equals_of_erases (hvkey : keys.vkey ≠ 0) (h : keys.erases k = true) : (k == keys) = true := by
  simp only [erases, Bool.and_eq_true, beq_iff_eq] at h
  rw [equals_iff]
  simp [code, ← h.1, ← h.2, hvkey]

theorem mem_without : k ∈ keys.without chords ↔ k ∈ chords ∧ keys.erases k = false := by
  simp [without]

end KeyChord

namespace ActionMap

open KeyChord

variable {A : Type} {acts : Actions A} {m : ActionMap A} (map : Std.HashMap Nat (Command A))

def chords (actionID : Nat) : Option (List KeyChord) :=
  map[actionID]?.map Command.keyMappings

def Lists (change : Command A → Command A) (f : List KeyChord → List KeyChord) : Prop :=
  ∀ cmd, (change cmd).keyMappings = f cmd.keyMappings

theorem lists_eraseKey (keys : KeyChord) : Lists (A := A) (Command.eraseKey keys) keys.without := fun _ => rfl

theorem lists_registerKey (keys : KeyChord) :
    Lists (A := A) (Command.registerKey keys) fun l => keys.without l ++ [keys] := fun _ => rfl

theorem lists_rename (newName : String) : Lists (rename acts newName) id := by
  intro cmd
  unfold rename
  split <;> rfl

theorem chords_modify {change : Command A → Command A} {f : List KeyChord → List KeyChord}
    (h : Lists change f) (i j : Nat) :
    chords (map.modify i change) j = if i = j then (chords map j).map f else chords map j := by
  unfold chords
  rw [Std.HashMap.getElem?_modify]
  by_cases hij : i = j
  · simp only [hij, beq_self_eq_true, if_true, map_map]
    congr 1
    funext cmd
    exact h cmd
  · simp [hij]

theorem chords_insert (cmd : Command A) (i j : Nat) :
    chords (map.insert i cmd) j = if i = j then some cmd.keyMappings else chords map j := by
  unfold chords
  rw [Std.HashMap.getElem?_insert]
  by_cases hij : i = j <;> simp [hij]

theorem chords_insertIfNew (cmd : Command A) (i j : Nat) : chords (map.insertIfNew i cmd) j =
      if i = j then some ((chords map j).getD cmd.keyMappings) else chords map j := by
  unfold chords
  rw [Std.HashMap.getElem?_insertIfNew]
  by_cases hij : i = j
  · subst hij
    by_cases hmem : i ∈ map
    · obtain ⟨old, hold⟩ := isSome_iff_exists.mp (Std.HashMap.mem_iff_isSome_getElem?.mp hmem)
      simp [hmem]
    · simp [hmem]
  · simp [hij]

variable {i : Nat} {cmd : Command A} {keys k : KeyChord}

theorem isSome_chords {map : Std.HashMap Nat (Command A)} : (chords map i).isSome = true ↔ i ∈ map := by
  rw [chords, isSome_map, Std.HashMap.mem_iff_isSome_getElem?]

theorem chords_eq_none {map : Std.HashMap Nat (Command A)} : chords map i = none ↔ i ∉ map := by
  rw [← isSome_chords, isSome_iff_ne_none, not_not]

/-! ## The own commands -/

theorem chords_tryUpdateName (cmd : Command A) (hasOld : Bool) (maskingCmd : MaskingCmd) (i : Nat) :
    chords (m.tryUpdateName acts cmd hasOld maskingCmd).actionMap i = chords m.actionMap i ∧
      chords (m.tryUpdateName acts cmd hasOld maskingCmd).maskingActions i = chords m.maskingActions i := by
  have hmodify : ∀ (map : Std.HashMap Nat (Command A)) (j : Nat) (newName : String),
      chords (map.modify j (rename acts newName)) i = chords map i := by
    intro map j newName
    rw [chords_modify map (lists_rename newName)]
    simp
  unfold tryUpdateName
  split
  · exact ⟨rfl, rfl⟩
  · unfold updateCmds
    dsimp only
    constructor
    · split
      · exact hmodify ..
      · rfl
    · split
      · exact hmodify ..
      · rfl

theorem chords_handleCollision (keys : KeyChord) (i : Nat) : chords (m.handleCollision acts keys).actionMap i =
      if m.keyMap[keys]? = some i then (chords m.actionMap i).map keys.without else chords m.actionMap i := by
  unfold handleCollision
  split
  next oldID hkeys =>
    rw [chords_modify _ (lists_eraseKey keys), hkeys]
    simp
  next hkeys =>
    rw [hkeys]
    split
    · rfl
    · dsimp only
      split <;> rfl

/-- A command that `AddAction` puts into the two maps of commands. -/
def Plain (cmd : Command A) : Prop := cmd.nestedCommand = false ∧ cmd.iterateOn = .none

instance (cmd : Command A) : Decidable (Plain cmd) := inferInstanceAs (Decidable (_ ∧ _))

theorem addAction_plain (h : Plain cmd) : m.addAction acts cmd =
      let updated := m.tryUpdateActionMap acts cmd
      (updated.1.tryUpdateName acts cmd updated.2.1 updated.2.2).tryUpdateKeyChord acts cmd
        updated.2.1 updated.2.2 := by
  unfold addAction
  rw [h.1, h.2]
  rfl

theorem addAction_special (h : ¬Plain cmd) :
    (m.addAction acts cmd).keyMap = m.keyMap ∧ (m.addAction acts cmd).actionMap = m.actionMap ∧
      (m.addAction acts cmd).maskingActions = m.maskingActions := by
  unfold addAction
  split
  · dsimp only
    split <;> exact ⟨rfl, rfl, rfl⟩
  next hnested =>
    split
    · exact ⟨rfl, rfl, rfl⟩
    next hiterate => exact absurd ⟨by simpa using hnested, by simpa using hiterate⟩ h

theorem binds_plain (h : Plain cmd) (keys : KeyChord) : cmd.binds keys = cmd.keys.any (· == keys) := by
  simp [Command.binds, h.1, h.2]

theorem chords_tryUpdateKeyChord (hkeys : cmd.keys = some keys) (hasOld : Bool) (maskingCmd : MaskingCmd) (i : Nat) :
    chords (m.tryUpdateKeyChord acts cmd hasOld maskingCmd).actionMap i =
      if hasOld = true ∧ acts.hash cmd.actionAndArgs = i then
        (chords (m.handleCollision acts keys).actionMap i).map fun l => keys.without l ++ [keys]
      else chords (m.handleCollision acts keys).actionMap i := by
  unfold tryUpdateKeyChord
  rw [hkeys]
  unfold updateCmds
  dsimp only
  cases hasOld with
  | false => simp
  | true =>
    rw [if_pos rfl, chords_modify _ (lists_registerKey keys)]
    simp

theorem binds_special (h : ¬Plain cmd) (keys : KeyChord) : cmd.binds keys = false := by
  unfold Plain at h
  unfold Command.binds
  rcases hnested : cmd.nestedCommand with _ | _
  · simp only [hnested, true_and] at h
    simp [h]
  · rfl

theorem chords_actionMap_addAction (h : Coherent acts m) (hplain : Plain cmd) (i : Nat) :
    chords (m.addAction acts cmd).actionMap i =
      match cmd.keys with
      | none =>
        if acts.hash cmd.actionAndArgs = i then some ((chords m.actionMap i).getD cmd.keyMappings)
        else chords m.actionMap i
      | some keys =>
        if acts.hash cmd.actionAndArgs = i then
          some ((chords m.actionMap i).elim cmd.keyMappings fun l => keys.without l ++ [keys])
        else if m.keyMap[keys]? = some i then (chords m.actionMap i).map keys.without
        else chords m.actionMap i := by
  rw [addAction_plain hplain]
  have hnew : ∀ i, chords (m.tryUpdateActionMap acts cmd).1.actionMap i = _ :=
    chords_insertIfNew m.actionMap cmd (acts.hash cmd.actionAndArgs)
  rcases hkeys : cmd.keys with _ | keys
  · unfold tryUpdateKeyChord
    rw [hkeys]
    exact (chords_tryUpdateName ..).1.trans (hnew i)
  · rw [chords_tryUpdateKeyChord hkeys, chords_handleCollision, (chords_tryUpdateName ..).1, hnew,
      (tryUpdateName_sameKeys ..).keyMap]
    have hkeyMap : (m.tryUpdateActionMap acts cmd).1.keyMap = m.keyMap := rfl
    have hhasOld : (m.tryUpdateActionMap acts cmd).2.1 = m.actionMap.contains (acts.hash cmd.actionAndArgs) := rfl
    rw [hkeyMap, hhasOld]
    by_cases hi : acts.hash cmd.actionAndArgs = i
    · subst hi
      by_cases hold : acts.hash cmd.actionAndArgs ∈ m.actionMap
      · obtain ⟨l, hl⟩ := isSome_iff_exists.mp (isSome_chords.mpr hold)
        have htwice : keys.without (keys.without l) = keys.without l := by simp [without]
        rw [if_pos (by simpa using hold), hl]
        split <;> simp [htwice]
      · have hfree : m.keyMap[keys]? ≠ some (acts.hash cmd.actionAndArgs) := fun hkeys => hold (h.bound _ _ hkeys)
        simp [hold, hfree, chords_eq_none.mpr hold]
    · simp only [hi, and_false, if_false]

/-! ## The lists of the own commands are the chord map -/

/-- A chord is listed with its command of the chord map, and no other. -/
def Partitioned (m : ActionMap A) : Prop :=
  ∀ (keys : KeyChord) (i : Nat), m.keyMap[keys]? = some i ↔ ∃ l ∈ chords m.actionMap i, ∃ k ∈ l, (k == keys) = true

/-- At most one chord comes, and no other is erased with it. -/
structure ErasesAlone (acts : Actions A) (m : ActionMap A) (cmd : Command A) : Prop where
  one : cmd.keyMappings.length ≤ 1
  alone : ∀ keys ∈ cmd.keys, ∀ i, acts.hash cmd.actionAndArgs = i ∨ m.keyMap[keys]? = some i →
    ∀ l ∈ chords m.actionMap i, ∀ k ∈ l, keys.erases k = true → (k == keys) = true

theorem keyMap_congr (h : (k == keys) = true) : m.keyMap[k]? = m.keyMap[keys]? := Std.HashMap.getElem?_congr h

theorem erases_false_of_ne (h : (k == keys) = false)
    (halone : keys.erases k = true → (k == keys) = true) : keys.erases k = false := by
  by_contra herases
  have := halone (by simpa using herases)
  simp [h] at this

theorem keyMappings_of_keys (hone : cmd.keyMappings.length ≤ 1) :
    (cmd.keys = none ∧ cmd.keyMappings = []) ∨ ∃ keys, cmd.keys = some keys ∧ cmd.keyMappings = [keys] := by
  unfold Command.keys
  match hlist : cmd.keyMappings, hone with
  | [], _ => exact Or.inl ⟨rfl, rfl⟩
  | [keys], _ => exact Or.inr ⟨keys, rfl, rfl⟩

theorem Partitioned.addAction (h : Partitioned m) (hcoherent : Coherent acts m)
    (hplain : Plain cmd) (halone : ErasesAlone acts m cmd) : Partitioned (m.addAction acts cmd) := by
  intro k' i
  rw [addAction_keyMap, binds_plain hplain, chords_actionMap_addAction hcoherent hplain]
  obtain ⟨hkeys, hnone⟩ | ⟨keys, hkeys, hsingle⟩ := keyMappings_of_keys halone.one
  · rw [hkeys, hnone]
    simp only [any_none, Bool.false_eq_true, if_false]
    rw [h k' i]
    by_cases hi : acts.hash cmd.actionAndArgs = i
    · rcases hl : chords m.actionMap i with _ | l <;> simp
    · rw [if_neg hi]
  · have halone := halone.alone keys hkeys
    rw [hkeys, hsingle]
    simp only [any_some]
    -- a chord that is not the new one keeps its place, whichever list it is in
    have hkept : ∀ l ∈ chords m.actionMap i, acts.hash cmd.actionAndArgs = i ∨ m.keyMap[keys]? = some i →
        (keys == k') = false → ((∃ k ∈ keys.without l, (k == k') = true) ↔ m.keyMap[k']? = some i) := by
      intro l hl hi hother
      rw [h k' i]
      constructor
      · rintro ⟨k, hk, hkk'⟩
        exact ⟨l, hl, k, (mem_without.mp hk).1, hkk'⟩
      · rintro ⟨l', hl', k, hk, hkk'⟩
        rw [mem_unique hl' hl] at hk
        refine ⟨k, mem_without.mpr ⟨hk, erases_false_of_ne ?_ (halone i hi l hl k hk)⟩, hkk'⟩
        by_contra hsame
        have := BEq.trans (BEq.symm (by simpa using hsame)) hkk'
        simp [hother] at this
    by_cases hi : acts.hash cmd.actionAndArgs = i
    · rw [if_pos hi]
      by_cases hk' : (keys == k') = true
      · simp only [hk', if_true, hi, true_iff]
        refine ⟨_, rfl, keys, ?_, hk'⟩
        rcases chords m.actionMap i with _ | l <;> simp
      · rcases hl : chords m.actionMap i with _ | l
        · have hfree : m.keyMap[k']? ≠ some i := by
            rw [Ne, h k' i]
            simp [hl]
          simp [hfree, hk']
        · have hother : (keys == k') = false := by simpa using hk'
          rw [if_neg hk', ← hkept l hl (Or.inl hi) hother]
          simp [hother]
    · rw [if_neg hi]
      by_cases hk' : (keys == k') = true
      · have hsame : m.keyMap[keys]? = m.keyMap[k']? := keyMap_congr hk'
        simp only [hk', if_true, some.injEq, hi, false_iff]
        rintro ⟨l', hl', k, hk, hkk'⟩
        by_cases hold : m.keyMap[keys]? = some i
        · rw [if_pos hold] at hl'
          obtain ⟨l, hl, rfl⟩ := map_eq_some_iff.mp hl'
          have herases := erases_of_equals (BEq.trans hkk' (BEq.symm hk'))
          simp [(mem_without.mp hk).2] at herases
        · rw [if_neg hold] at hl'
          exact hold (hsame.trans ((h k' i).mpr ⟨l', hl', k, hk, hkk'⟩))
      · have hother : (keys == k') = false := by simpa using hk'
        rw [if_neg hk']
        by_cases hold : m.keyMap[keys]? = some i
        · obtain ⟨l, hl⟩ := isSome_iff_exists.mp (isSome_chords.mpr (hcoherent.bound keys i hold))
          rw [if_pos hold, ← hkept l hl (Or.inr hold) hother, hl]
          simp
        · rw [if_neg hold]
          exact h k' i

theorem partitioned_new (parents : List (ActionMap A)) : Partitioned { parents := parents } := by
  intro keys i
  simp [chords]

/-! ## What a chord is bound to -/

def binding (acts : Actions A) (m : ActionMap A) (keys : KeyChord) : Option (Option Nat) :=
  (m.getActionByKeyChordInternal acts keys).map (Option.map fun cmd => acts.hash cmd.actionAndArgs)

def inheritedBinding (acts : Actions A) (parents : List (ActionMap A)) (keys : KeyChord) : Option (Option Nat) :=
  (askParents acts parents keys).map (Option.map fun cmd => acts.hash cmd.actionAndArgs)

theorem findSome?_congr {α β : Type} {f g : α → Option β} {l : List α} (h : ∀ x ∈ l, f x = g x) :
    l.findSome? f = l.findSome? g := by
  induction l with
  | nil => rfl
  | cons a l ih =>
    rw [List.findSome?_cons, List.findSome?_cons, h a List.mem_cons_self, ih fun x hx => h x
      (List.mem_cons_of_mem a hx)]

theorem inheritedBinding_eq (parents : List (ActionMap A)) (keys : KeyChord) :
    inheritedBinding acts parents keys = parents.findSome? fun parent => parent.binding acts keys := by
  unfold inheritedBinding
  rw [askParents_eq]
  induction parents with
  | nil => rfl
  | cons parent parents ih =>
    rw [List.findSome?_cons, List.findSome?_cons, ← ih, binding]
    rcases parent.getActionByKeyChordInternal acts keys with _ | cmd <;> rfl

theorem binding_own (hinj : Function.Injective acts.hash) (h : Coherent acts m) {action : A}
    (hkeys : m.keyMap[keys]? = some (acts.hash action)) :
    m.binding acts keys = some (if acts.isInvalid action then none else some (acts.hash action)) := by
  obtain ⟨cmd, hcmd, haction⟩ := getActionByID_hash hinj h (h.bound keys _ hkeys)
  have hhash : cmd.map (fun cmd => acts.hash cmd.actionAndArgs) = (cmd.map Command.actionAndArgs).map acts.hash := by
    rw [map_map]
    rfl
  rw [binding, getActionByKeyChordInternal_eq, hkeys]
  dsimp only
  rw [hcmd, map_some, hhash, haction]
  split <;> rfl

theorem binding_inherited (hkeys : m.keyMap[keys]? = none) :
    m.binding acts keys = inheritedBinding acts m.parents keys := by
  rw [binding, getActionByKeyChordInternal_eq, hkeys, inheritedBinding]

theorem binding_of_keyMap (hinj : Function.Injective acts.hash) {other : ActionMap A} (h : Coherent acts m)
    (hother : Coherent acts other) (hparents : other.parents = m.parents)
    (hkeys : other.keyMap[keys]? = m.keyMap[keys]?) : other.binding acts keys = m.binding acts keys := by
  rcases hbound : m.keyMap[keys]? with _ | i
  · rw [binding_inherited (hkeys.trans hbound), binding_inherited hbound, hparents]
  · obtain ⟨own, hown⟩ := isSome_iff_exists.mp
      (Std.HashMap.mem_iff_isSome_getElem?.mp (h.bound keys i hbound))
    rw [← (h.own i own hown).1] at hbound
    rw [binding_own hinj hother (hkeys.trans hbound), binding_own hinj h hbound]

theorem hash_of_getActionByID (h : Coherent acts m)
    (hcmd : m.getActionByID acts i = some (some cmd)) : acts.hash cmd.actionAndArgs = i :=
  (masks_of_getActionByID h hcmd).1

theorem binding_cases (h : Coherent acts m) (hbinding : m.binding acts keys = some (some i)) :
    m.keyMap[keys]? = some i ∨ m.keyMap[keys]? = none ∧ inheritedBinding acts m.parents keys = some (some i) := by
  rcases hkeys : m.keyMap[keys]? with _ | j
  · exact Or.inr ⟨rfl, (binding_inherited hkeys).symm.trans hbinding⟩
  · left
    rw [binding, getActionByKeyChordInternal_eq, hkeys] at hbinding
    dsimp only at hbinding
    rcases hcmd : m.getActionByID acts j with _ | _ | cmd
    · simp [hcmd] at hbinding
    · simp [hcmd] at hbinding
    · rw [hcmd] at hbinding
      simp only [map_some, some.injEq] at hbinding
      rw [← hbinding, hash_of_getActionByID h hcmd]

theorem getActionByKeyChordInternal_congr (h : Layered acts m) (hk : (k == keys) = true) :
    m.getActionByKeyChordInternal acts k = m.getActionByKeyChordInternal acts keys := by
  induction h with
  | @mk m here parents ih =>
    rw [getActionByKeyChordInternal_eq, getActionByKeyChordInternal_eq, keyMap_congr hk, askParents_eq, askParents_eq]
    split
    · rfl
    · exact findSome?_congr ih

theorem binding_congr (h : Layered acts m) (hk : (k == keys) = true) : m.binding acts k = m.binding acts keys := by
  rw [binding, binding, getActionByKeyChordInternal_congr h hk]

theorem inheritedBinding_congr (h : Layered acts m) (hk : (k == keys) = true) :
    inheritedBinding acts m.parents k = inheritedBinding acts m.parents keys := by
  rw [inheritedBinding_eq, inheritedBinding_eq]
  exact findSome?_congr fun parent hparent => binding_congr (h.parents_layered parent hparent) hk

end ActionMap

end Terminal.Settings
