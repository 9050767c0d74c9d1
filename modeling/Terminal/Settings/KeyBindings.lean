import Terminal.Settings.MaskingActions

/-!
# The views of the key bindings (`ActionMap.cpp`)

`KeyBindings` collects the chords that the commands of all layers list, `GetKeyBindingForAction`
takes the last of a command, and `GetActionByKeyChord` asks the chord maps. The three agree where
the lists are right.
-/

namespace Terminal.Settings

open Command Option

namespace ActionMap

open KeyChord

variable {A : Type} (acts : Actions A)

/-! ## The views -/

structure Collected (A : Type) where
  keyBindingsMap : Std.HashMap KeyChord (Command A) := ∅
  unboundKeys : Std.HashSet KeyChord := ∅

def Collected.visited (found : Collected A) (keys : KeyChord) : Bool :=
  found.keyBindingsMap.contains keys || found.unboundKeys.contains keys

def collectKeys (cmd : Command A) (found : Collected A) (keys : KeyChord) : Collected A :=
  if found.visited keys then found else { found with keyBindingsMap := found.keyBindingsMap.insert keys cmd }

def collectEntry (m : ActionMap A) (found : Collected A) (entry : KeyChord × Nat) : Option (Collected A) :=
  match m.getActionByID acts entry.2 with
  | some (some cmd) => some (cmd.keyMappings.foldl (collectKeys cmd) found)
  | some none => some { found with unboundKeys := found.unboundKeys.insert entry.1 }
  | none => none

mutual

def populateKeyBindingMap (iteration : ActionMap A → List (KeyChord × Nat)) :
    ActionMap A → Collected A → Option (Collected A)
  | ⟨nested, iterable, keyMap, actionMap, masking, parents⟩, found => do
    let m : ActionMap A := ⟨nested, iterable, keyMap, actionMap, masking, parents⟩
    let found ← (iteration m).foldlM (collectEntry acts m) found
    populateParents iteration parents found

def populateParents (iteration : ActionMap A → List (KeyChord × Nat)) :
    List (ActionMap A) → Collected A → Option (Collected A)
  | [], found => some found
  | parent :: parents, found => do
    let found ← parent.populateKeyBindingMap iteration found
    populateParents iteration parents found

end

def keyBindings (iteration : ActionMap A → List (KeyChord × Nat)) (m : ActionMap A) :
    Option (Std.HashMap KeyChord (Command A)) :=
  (m.populateKeyBindingMap acts iteration {}).map Collected.keyBindingsMap

mutual

def getKeyBindingForAction : ActionMap A → A → Option KeyChord
  | ⟨nested, iterable, keyMap, actionMap, masking, parents⟩, action =>
    if acts.isInvalid action then none
    else
      match getActionByID acts (acts.hash action) ⟨nested, iterable, keyMap, actionMap, masking, parents⟩ with
      | some cmd => cmd.bind keys
      | none => askParentsForKeys parents action

def askParentsForKeys : List (ActionMap A) → A → Option KeyChord
  | [], _ => none
  | parent :: parents, action =>
    match parent.getKeyBindingForAction action with
    | some keys => some keys
    | none => askParentsForKeys parents action

end

/-! ## Collecting the chords -/

def Collected.idOf (found : Collected A) (keys : KeyChord) : Option Nat :=
  found.keyBindingsMap[keys]?.map fun cmd => acts.hash cmd.actionAndArgs

structure Extends (bound : KeyChord → Option (Option Nat)) (found found' : Collected A) : Prop where
  same : ∀ k, found.visited k = true → found'.visited k = true ∧ found'.idOf acts k = found.idOf acts k
  right : ∀ k, found.visited k = false → found'.visited k = true → bound k = some (found'.idOf acts k)

section Collecting

variable {acts} {m : ActionMap A} {bound other : KeyChord → Option (Option Nat)} {found found' found'' : Collected A}

theorem Extends.refl (bound : KeyChord → Option (Option Nat)) (found : Collected A) :
    Extends acts bound found found := by
  refine ⟨fun k hk => ⟨hk, rfl⟩, fun k hk hk' => ?_⟩
  simp [hk] at hk'

theorem Extends.trans (h : Extends acts bound found found') (h' : Extends acts other found' found'')
    (hother : ∀ k, found'.visited k = false → ∀ id, other k = some id → bound k = some id) :
    Extends acts bound found found'' := by
  constructor
  · intro k hk
    obtain ⟨hvisited, hid⟩ := h.same k hk
    exact ⟨(h'.same k hvisited).1, (h'.same k hvisited).2.trans hid⟩
  · intro k hk hk''
    rcases hk' : found'.visited k with _ | _
    · exact hother k hk' _ (h'.right k hk' hk'')
    · rw [h.right k hk hk', (h'.same k hk').2]

theorem visited_congr {k keys : KeyChord} (h : (k == keys) = true) : found.visited k = found.visited keys := by
  unfold Collected.visited
  rw [Std.HashMap.contains_congr h, Std.HashSet.contains_congr h]

theorem collectKeys_extends (h : Layered acts m) {cmd : Command A} {keys : KeyChord}
    (hkeys : m.binding acts keys = some (some (acts.hash cmd.actionAndArgs))) (found : Collected A) :
    Extends acts (m.binding acts) found (collectKeys cmd found keys) ∧
      (collectKeys cmd found keys).visited keys = true := by
  unfold collectKeys
  split
  next hvisited => exact ⟨Extends.refl .., hvisited⟩
  next hvisited =>
    refine ⟨⟨?_, ?_⟩, by simp [Collected.visited]⟩
    · intro k hk
      have hother : (keys == k) = false := by
        by_contra hsame
        rw [visited_congr (by simpa using hsame)] at hvisited
        exact hvisited hk
      simp only [Collected.visited, Std.HashMap.contains_insert, hother] at hk ⊢
      refine ⟨hk, ?_⟩
      simp [Collected.idOf, Std.HashMap.getElem?_insert, hother]
    · intro k hk hk'
      have hsame : (keys == k) = true := by
        simp only [Collected.visited, Bool.or_eq_false_iff] at hk hk'
        simpa [hk] using hk'
      rw [← binding_congr h hsame, hkeys, Collected.idOf, Std.HashMap.getElem?_insert, if_pos hsame]
      rfl

theorem collectList_extends (h : Layered acts m) (cmd : Command A) (l : List KeyChord)
    (hl : ∀ k ∈ l, m.binding acts k = some (some (acts.hash cmd.actionAndArgs))) (found : Collected A) :
    Extends acts (m.binding acts) found (l.foldl (collectKeys cmd) found) ∧
      ∀ k ∈ l, (l.foldl (collectKeys cmd) found).visited k = true := by
  induction l generalizing found with
  | nil => exact ⟨Extends.refl .., by simp⟩
  | cons keys l ih =>
    obtain ⟨hkeys, hvisited⟩ := collectKeys_extends h (hl keys List.mem_cons_self) found
    obtain ⟨hrest, hall⟩ := ih (fun k hk => hl k (List.mem_cons_of_mem _ hk)) (collectKeys cmd found keys)
    refine ⟨hkeys.trans hrest fun _ _ _ hid => hid, ?_⟩
    intro k hk
    rcases List.mem_cons.mp hk with rfl | hk
    · exact (hrest.same k hvisited).1
    · exact hall k hk

theorem unboundKeys_extends (h : Layered acts m) {keys : KeyChord} (hkeys : m.binding acts keys = some none)
    (found : Collected A) :
    Extends acts (m.binding acts) found { found with unboundKeys := found.unboundKeys.insert keys } := by
  constructor
  · intro k hk
    simp only [Collected.visited, Bool.or_eq_true, Std.HashSet.contains_insert] at hk ⊢
    refine ⟨hk.imp_right Or.inr, rfl⟩
  · intro k hk hk'
    simp only [Collected.visited, Bool.or_eq_false_iff] at hk hk'
    have hsame : (keys == k) = true := by simpa [hk] using hk'
    have hnone : found.keyBindingsMap[k]? = none := by
      simpa using hk.1
    rw [← binding_congr h hsame, hkeys]
    simp [Collected.idOf, hnone]

theorem collectEntry_extends (h : Agrees acts m) {keys : KeyChord} {i : Nat} (hkeys : m.keyMap[keys]? = some i)
    (found : Collected A) :
    ∃ found', collectEntry acts m found (keys, i) = some found' ∧ Extends acts (m.binding acts) found found' ∧
      (found'.visited keys = true ∨ inheritedBinding acts m.parents keys = m.binding acts keys) := by
  have hbinding : m.binding acts keys =
      (m.getActionByID acts i).map (Option.map fun cmd => acts.hash cmd.actionAndArgs) := by
    rw [binding, getActionByKeyChordInternal_eq, hkeys]
  unfold collectEntry
  rcases hcmd : m.getActionByID acts i with _ | _ | cmd
  · obtain ⟨own, hown⟩ := Option.isSome_iff_exists.mp
      (Std.HashMap.mem_iff_isSome_getElem?.mp (h.layered.coherent.bound keys i hkeys))
    unfold getActionByID at hcmd
    rw [hown] at hcmd
    split at hcmd <;> cases hcmd
  · rw [hcmd] at hbinding
    exact ⟨_, rfl, unboundKeys_extends h.layered hbinding found, Or.inl (by simp [Collected.visited])⟩
  · have hhash := hash_of_getActionByID h.layered.coherent hcmd
    obtain ⟨hextends, hvisited⟩ := collectList_extends h.layered cmd cmd.keyMappings
      (fun k hk => by rw [hhash]; exact h.runs hcmd hk) found
    refine ⟨_, rfl, hextends, ?_⟩
    have hlisted : ∀ k ∈ cmd.keyMappings, (k == keys) = true →
        (cmd.keyMappings.foldl (collectKeys cmd) found).visited keys = true := by
      intro k hk hsame
      rw [← visited_congr hsame]
      exact hvisited k hk
    rcases hmasking : m.maskingActions[i]? with _ | masking
    · left
      obtain ⟨l, hl, k, hk, hsame⟩ := (h.partitioned keys i).mp hkeys
      have hown : m.actionMap[i]? = some cmd := getActionByID_own hcmd hmasking
      rw [chords, hown, Option.map_some, Option.mem_some] at hl
      exact hlisted k (hl ▸ hk) hsame
    · have hsame : masking = cmd := by
        unfold getActionByID at hcmd
        simpa [hmasking] using hcmd
      obtain ⟨k, hk, hsame⟩ | hinherited := h.masked_lists keys i hkeys cmd.keyMappings
        (by simp [chords, hmasking, hsame])
      · exact Or.inl (hlisted k hk hsame)
      · right
        rw [hinherited, hbinding, hcmd, Option.map_some, Option.map_some, hhash]

theorem collectLayer_extends (h : Agrees acts m) (entries : List (KeyChord × Nat))
    (hentries : ∀ entry ∈ entries, m.keyMap[entry.1]? = some entry.2) (found : Collected A) :
    ∃ found', entries.foldlM (collectEntry acts m) found = some found' ∧ Extends acts (m.binding acts) found found' ∧
      ∀ entry ∈ entries,
        found'.visited entry.1 = true ∨ inheritedBinding acts m.parents entry.1 = m.binding acts entry.1 := by
  induction entries generalizing found with
  | nil => exact ⟨found, rfl, Extends.refl .., by simp⟩
  | cons entry entries ih =>
    obtain ⟨next, hnext, hextends, hvisited⟩ := collectEntry_extends h (hentries entry List.mem_cons_self) found
    obtain ⟨found', hfound', hrest, hall⟩ := ih (fun e he => hentries e (List.mem_cons_of_mem _ he)) next
    refine ⟨found', ?_, hextends.trans hrest fun _ _ _ hid => hid, ?_⟩
    · rw [List.foldlM_cons, hnext]
      exact hfound'
    · intro e he
      rcases List.mem_cons.mp he with rfl | he
      · exact hvisited.imp_left fun hv => (hrest.same _ hv).1
      · exact hall e he

theorem exists_mem_toList {keyMap : Std.HashMap KeyChord Nat} {keys : KeyChord} {i : Nat}
    (hkeys : keyMap[keys]? = some i) : ∃ k, (k, i) ∈ keyMap.toList ∧ (k == keys) = true := by
  have hmem : keys ∈ keyMap := by
    rw [Std.HashMap.mem_iff_isSome_getElem?, hkeys]
    rfl
  obtain ⟨k, hk⟩ := isSome_iff_exists.mp (Std.HashMap.isSome_getKey?_iff_mem.mpr hmem)
  have hsame : (k == keys) = true := by
    have hall := Std.HashMap.getKey?_beq (m := keyMap) (k := keys)
    rwa [hk] at hall
  refine ⟨k, ?_, hsame⟩
  rw [Std.HashMap.mem_toList_iff_getKey?_eq_some_and_getElem?_eq_some]
  rw [Std.HashMap.getKey?_congr hsame, Std.HashMap.getElem?_congr hsame]
  exact ⟨hk, hkeys⟩

structure Collects (acts : Actions A) (bound : KeyChord → Option (Option Nat)) (found found' : Collected A) : Prop where
  extends_ : Extends acts bound found found'
  all : ∀ k, bound k ≠ none → found'.visited k = true

variable {iteration : ActionMap A → List (KeyChord × Nat)}

theorem populateKeyBindingMap_eq (m : ActionMap A) (found : Collected A) :
    m.populateKeyBindingMap acts iteration found =
      ((iteration m).foldlM (collectEntry acts m) found).bind (populateParents acts iteration m.parents) := by
  cases m
  rfl

theorem populateParents_collects (parents : List (ActionMap A))
    (hparents : ∀ parent ∈ parents, ∀ found, ∃ found', parent.populateKeyBindingMap acts iteration found = some found' ∧
      Collects acts (parent.binding acts) found found') (found : Collected A) :
    ∃ found', populateParents acts iteration parents found = some found' ∧
      Collects acts (inheritedBinding acts parents) found found' := by
  induction parents generalizing found with
  | nil =>
    refine ⟨found, by rw [populateParents], Extends.refl .., ?_⟩
    intro k hk
    simp [inheritedBinding_eq] at hk
  | cons parent parents ih =>
    obtain ⟨next, hnext, hcollects⟩ := hparents parent List.mem_cons_self found
    obtain ⟨found', hfound', hrest⟩ := ih (fun p hp => hparents p (List.mem_cons_of_mem _ hp)) next
    have hcons : ∀ k, inheritedBinding acts (parent :: parents) k =
        (parent.binding acts k).or (inheritedBinding acts parents k) := by
      intro k
      rw [inheritedBinding_eq, inheritedBinding_eq, List.findSome?_cons]
      rcases parent.binding acts k with _ | answer <;> rfl
    refine ⟨found', ?_, ?_, ?_⟩
    · rw [populateParents, hnext]
      exact hfound'
    · have hfirst : Extends acts (inheritedBinding acts (parent :: parents)) found next := by
        refine ⟨hcollects.extends_.same, fun k hk hk' => ?_⟩
        rw [hcons, hcollects.extends_.right k hk hk']
        rfl
      apply hfirst.trans hrest.extends_
      intro k hk id hid
      have hnone : parent.binding acts k = none := by
        by_contra hsome
        simp [hcollects.all k hsome] at hk
      rw [hcons, hnone, none_or, hid]
    · intro k hk
      rcases hparent : parent.binding acts k with _ | answer
      · rw [hcons, hparent] at hk
        exact hrest.all k hk
      · exact (hrest.extends_.same k (hcollects.all k (by simp [hparent]))).1

theorem populateKeyBindingMap_collects (hiteration : ∀ m, (iteration m).Perm m.keyMap.toList) (h : Agreeing acts m)
    (found : Collected A) :
    ∃ found', m.populateKeyBindingMap acts iteration found = some found' ∧
      Collects acts (m.binding acts) found found' := by
  induction h generalizing found with
  | @mk m here parents ih =>
    have hentries : ∀ entry ∈ iteration m, m.keyMap[entry.1]? = some entry.2 := by
      rintro ⟨k, i⟩ hmem
      rw [(hiteration m).mem_iff, Std.HashMap.mem_toList_iff_getKey?_eq_some_and_getElem?_eq_some] at hmem
      exact hmem.2
    obtain ⟨own, hown, hextends, hall⟩ := collectLayer_extends here (iteration m) hentries found
    obtain ⟨found', hfound', hrest⟩ := populateParents_collects m.parents ih own
    -- what the layer leaves to its parents is bound there as here
    have hleft : ∀ k, own.visited k = false → inheritedBinding acts m.parents k = m.binding acts k := by
      intro k hk
      rcases hkeys : m.keyMap[k]? with _ | i
      · exact (binding_inherited hkeys).symm
      · obtain ⟨k', hmem, hsame⟩ := exists_mem_toList hkeys
        obtain hvisited | hsame' := hall (k', i) ((hiteration m).mem_iff.mpr hmem)
        · rw [visited_congr hsame] at hvisited
          simp [hk] at hvisited
        · rwa [inheritedBinding_congr here.layered hsame, binding_congr here.layered hsame] at hsame'
    refine ⟨found', ?_, ?_, ?_⟩
    · rw [populateKeyBindingMap_eq, hown]
      exact hfound'
    · apply hextends.trans hrest.extends_
      intro k hk id hid
      rw [← hleft k hk, hid]
    · intro k hk
      rcases hvisited : own.visited k with _ | _
      · exact hrest.all k (by rwa [hleft k hvisited])
      · exact (hrest.extends_.same k hvisited).1

end Collecting

/-! ## The views agree -/

section Views

variable {acts} {m : ActionMap A}

theorem getKeyBindingForAction_eq (m : ActionMap A) (action : A) : m.getKeyBindingForAction acts action =
      if acts.isInvalid action then none
      else
        match m.getActionByID acts (acts.hash action) with
        | some cmd => cmd.bind keys
        | none => askParentsForKeys acts m.parents action := by
  cases m
  rw [getKeyBindingForAction]

theorem askParentsForKeys_eq (parents : List (ActionMap A)) (action : A) : askParentsForKeys acts parents action =
      parents.findSome? fun parent => parent.getKeyBindingForAction acts action := by
  induction parents with
  | nil => rw [askParentsForKeys, List.findSome?_nil]
  | cons parent parents ih =>
    rw [askParentsForKeys, List.findSome?_cons, ih]
    rcases parent.getKeyBindingForAction acts action with _ | keys <;> rfl

theorem binding_getKeyBindingForAction (h : Agreeing acts m) {action : A} {keys : KeyChord}
    (hkeys : m.getKeyBindingForAction acts action = some keys) :
    m.binding acts keys = some (some (acts.hash action)) := by
  induction h with
  | @mk m here parents ih =>
    rw [getKeyBindingForAction_eq] at hkeys
    split at hkeys
    · cases hkeys
    · split at hkeys
      next found hfound =>
        obtain ⟨cmd, rfl, hlast⟩ := bind_eq_some_iff.mp hkeys
        exact here.runs hfound (List.mem_of_getLast? hlast)
      next hfound =>
        rw [askParentsForKeys_eq] at hkeys
        obtain ⟨parent, hmem, hparent⟩ := List.exists_of_findSome?_eq_some hkeys
        apply here.binding_of_inherited (not_mem_of_getActionByID_none hfound)
        exact inheritedBinding_of_mem here.apart hmem (ih parent hmem hparent)

theorem getActionByKeyChord_of_binding (keys : KeyChord) :
    ((m.getActionByKeyChord acts keys).map actionAndArgs).map acts.hash = (m.binding acts keys).join := by
  rw [getActionByKeyChord, binding, map_map]
  rcases m.getActionByKeyChordInternal acts keys with _ | found <;> rfl

/-- `KeyBindings` has what `GetActionByKeyChord` finds, in whichever order. -/
theorem keyBindings_agree (hinj : Function.Injective acts.hash) (iteration : ActionMap A → List (KeyChord × Nat))
    (hiteration : ∀ m, (iteration m).Perm m.keyMap.toList) (h : BuiltCleanly acts m) :
    (∃ bindings, m.keyBindings acts iteration = some bindings ∧ ∀ keys : KeyChord, bindings[keys]?.map actionAndArgs =
        (m.getActionByKeyChord acts keys).map actionAndArgs) ∧
    ∀ action keys, m.getKeyBindingForAction acts action = some keys →
      (m.getActionByKeyChord acts keys).map actionAndArgs = some action := by
  have hagreeing := h.agreeing hinj
  constructor
  · obtain ⟨found, hfound, hextends, hall⟩ := populateKeyBindingMap_collects hiteration hagreeing {}
    refine ⟨found.keyBindingsMap, by rw [keyBindings, hfound, map_some], fun keys => ?_⟩
    apply map_injective hinj
    rw [getActionByKeyChord_of_binding, map_map]
    show found.idOf acts keys = _
    have hnew : (({} : Collected A)).visited keys = false := by simp [Collected.visited]
    rcases hbinding : m.binding acts keys with _ | answer
    · have hvisited : found.visited keys = false := by
        by_contra hvisited
        have := hextends.right keys hnew (by simpa using hvisited)
        simp [hbinding] at this
      simp only [Collected.visited, Bool.or_eq_false_iff] at hvisited
      have hnone : found.keyBindingsMap[keys]? = none := by
        simpa using hvisited.1
      simp [Collected.idOf, hnone]
    · have hright := hextends.right keys hnew (hall keys (by simp [hbinding]))
      rw [hbinding, some.injEq] at hright
      rw [← hright]
      rfl
  · intro action keys hkeys
    apply map_injective hinj
    rw [getActionByKeyChord_of_binding, binding_getKeyBindingForAction hagreeing hkeys]
    rfl

theorem keyBindings_agree_unbound :
    let ctrlC : KeyChord := ⟨1, 0x43, 0⟩
    let ctrlV : KeyChord := ⟨1, 0x56, 0⟩
    let parent := addAction numbered {} { actionAndArgs := 1, keyMappings := [ctrlC] }
    let unbound := addAction numbered { parents := [parent] } { actionAndArgs := 0, keyMappings := [ctrlC] }
    let child := addAction numbered unbound { actionAndArgs := 2, keyMappings := [ctrlV] }
    ∃ bindings, child.keyBindings numbered (fun m => m.keyMap.toList) = some bindings ∧
      bindings[ctrlC]?.map actionAndArgs = none ∧ bindings[ctrlV]?.map actionAndArgs = some 2 := by
  intro ctrlC ctrlV parent unbound child
  have hinj : Function.Injective numbered.hash := fun _ _ h => h
  have hroot : parent.parents = [] := addAction_parents _
  have hparent : BuiltCleanly numbered parent := by
    have hnew : BuiltCleanly numbered { parents := [] } := .new [] List.Pairwise.nil (by simp)
    refine .add _ _ (fun _ => ?_) hnew
    exact takesCleanly_of_new (hnew.agreeing hinj) (by simp) rfl (by decide) (by simp)
  have hempty : BuiltCleanly numbered { parents := [parent] } := by
    refine .new [parent] (List.pairwise_singleton _ _) ?_
    intro p hp
    rwa [List.mem_singleton.mp hp]
  have hunbound : BuiltCleanly numbered unbound := by
    refine .add _ _ (fun _ => ?_) hempty
    exact takesCleanly_of_new (hempty.agreeing hinj) (by simp [hroot]) rfl (by decide) (by simp)
  have hother : (ctrlC == ctrlV) = false := by decide
  have hchild : BuiltCleanly numbered child := by
    refine .add _ _ (fun _ => ?_) hunbound
    have hroots : ∀ p ∈ unbound.parents, p.parents = [] := by
      rw [addAction_parents]
      simp [hroot]
    refine takesCleanly_of_new (hunbound.agreeing hinj) hroots rfl (by decide) ?_
    rw [addAction_keyMap]
    simp [binds, keys, hother]
  obtain ⟨⟨bindings, hbindings, hsame⟩, -⟩ :=
    keyBindings_agree hinj (fun m => m.keyMap.toList) (fun _ => List.Perm.refl _) hchild
  have hcoherent := (hchild.agreeing hinj).here.layered.coherent
  have hctrlC : child.keyMap[ctrlC]? = some (numbered.hash 0) := by
    simp [child, unbound, addAction_keyMap, binds, keys, BEq.symm_false hother]
  have hctrlV : child.keyMap[ctrlV]? = some (numbered.hash 2) := by
    simp [child, addAction_keyMap, binds, keys]
  refine ⟨bindings, hbindings, ?_, ?_⟩
  · rw [hsame, getActionByKeyChord_bound hinj hcoherent hctrlC]
    rfl
  · rw [hsame, getActionByKeyChord_bound hinj hcoherent hctrlV]
    rfl

/-- ctrl+shift+c is given to action 2, but the masking copy of action 1 still has it. -/
theorem getKeyBindingForAction_stale :
    let ctrlC : KeyChord := ⟨1, 0x43, 0⟩
    let ctrlShiftC : KeyChord := ⟨5, 0x43, 0⟩
    let parent := addAction numbered {} { actionAndArgs := 1, keyMappings := [ctrlC] }
    let both := addAction numbered { parents := [parent] } { actionAndArgs := 1, keyMappings := [ctrlShiftC] }
    let child := addAction numbered both { actionAndArgs := 2, keyMappings := [ctrlShiftC] }
    child.getKeyBindingForAction numbered 1 = some ctrlShiftC ∧
      (child.getActionByKeyChord numbered ctrlShiftC).map actionAndArgs = some 2 := by
  have hother : ((⟨1, 0x43, 0⟩ : KeyChord) == ⟨5, 0x43, 0⟩) = false := by decide
  simp [addAction, tryUpdateActionMap, inheritMasking, tryUpdateName, tryUpdateKeyChord, handleCollision, updateCmds,
    getActionByKeyChord, getActionByKeyChordInternal, getActionByID, askParents, getKeyBindingForAction_eq, numbered,
    keys, registerKey, eraseKey, hother, Std.HashMap.getElem_insertIfNew,
    Std.HashMap.getElem_modify, Std.HashMap.mem_insertIfNew]

end Views

end ActionMap

end Terminal.Settings
