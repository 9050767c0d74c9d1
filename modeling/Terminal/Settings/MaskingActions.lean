import Terminal.Settings.ChordLists

/-!
# Masking copies of inherited commands (`ActionMap.cpp`)

A layer that changes an inherited command has a copy of it, with its chords as seen from here.
They run the command as long as no call leaves a stale chord in a copy, or makes one from an
outdated list.
-/

namespace Terminal.Settings

open List Option

namespace ActionMap

open KeyChord

variable {A : Type} (acts : Actions A)

/-! ## When the lists stay right -/

mutual

def findActionByID (actionID : Nat) : ActionMap A → Option (Option (Command A))
  | ⟨nested, iterable, keyMap, actionMap, masking, parents⟩ =>
    match getActionByID acts actionID ⟨nested, iterable, keyMap, actionMap, masking, parents⟩ with
    | some cmd => some cmd
    | none => findInParents actionID parents

def findInParents (actionID : Nat) : List (ActionMap A) → Option (Option (Command A))
  | [] => none
  | parent :: parents =>
    match parent.findActionByID actionID with
    | some cmd => some cmd
    | none => findInParents actionID parents

end

/-- No chord and no action is in two of the parents. -/
def Apart (parents : List (ActionMap A)) : Prop :=
  parents.Pairwise fun p q =>
    (∀ keys, p.getActionByKeyChordInternal acts keys = none ∨ q.getActionByKeyChordInternal acts keys = none) ∧
      ∀ i, p.getActionByID acts i = none ∨ q.getActionByID acts i = none

/-- The chord is taken from no command whose masking copy would keep it. -/
structure TakesCleanly (m : ActionMap A) (cmd : Command A) : Prop where
  one : cmd.keyMappings.length ≤ 1
  vkey : ∀ keys ∈ cmd.keys, keys.vkey ≠ 0
  own : ∀ keys ∈ cmd.keys, ∀ i, m.keyMap[keys]? = some i → i = acts.hash cmd.actionAndArgs ∨ i ∉ m.maskingActions
  inherited : ∀ keys ∈ cmd.keys, m.keyMap[keys]? = none →
    ∀ conflictingCmd, askParents acts m.parents keys = some (some conflictingCmd) →
      acts.hash conflictingCmd.actionAndArgs ∈ m.maskingActions ∨ acts.hash conflictingCmd.actionAndArgs ∉ m.actionMap ∧
          ∃ near, findInParents acts (acts.hash conflictingCmd.actionAndArgs) m.parents = some (some near) ∧
            near.keyMappings = conflictingCmd.keyMappings

inductive BuiltCleanly : ActionMap A → Prop where
  | new (parents : List (ActionMap A)) (hapart : Apart acts parents) (h : ∀ parent ∈ parents, BuiltCleanly parent) :
    BuiltCleanly { parents := parents }
  | add (m : ActionMap A) (cmd : Command A) (hcmd : Plain cmd → TakesCleanly acts m cmd) (h : BuiltCleanly m) :
    BuiltCleanly (m.addAction acts cmd)

section Parents

variable {acts} {parents : List (ActionMap A)}

theorem findSome?_of_pairwise {α β : Type} {f : α → Option β} {l : List α}
    (hpair : l.Pairwise fun x y => f x = none ∨ f y = none) {x : α} (hx : x ∈ l) {b : β} (hb : f x = some b) :
    l.findSome? f = some b := by
  induction hpair with
  | nil => cases hx
  | @cons y l hy hrest ih =>
    rw [findSome?_cons]
    rcases mem_cons.mp hx with rfl | htail
    · rw [hb]
    · rw [(hy x htail).resolve_right (by simp [hb])]
      exact ih htail

theorem inheritedBinding_of_mem (hapart : Apart acts parents) {parent : ActionMap A} (hmem : parent ∈ parents)
    {keys : KeyChord} {answer : Option Nat} (hbinding : parent.binding acts keys = some answer) :
    inheritedBinding acts parents keys = some answer := by
  rw [inheritedBinding_eq]
  refine findSome?_of_pairwise (hapart.imp ?_) hmem hbinding
  intro p q hpq
  simpa [binding] using hpq.1 keys

end Parents

/-! ## The masking copies -/

def inheritedAction (i : Nat) (parents : List (ActionMap A)) : Option (Command A) :=
  parents.findSome? fun parent => (parent.getActionByID acts i).join

def conflict (m : ActionMap A) (keys : KeyChord) : Option (Command A) :=
  if m.keyMap[keys]? = none then (askParents acts m.parents keys).join else none

/-- The list of a masking copy once `_TryUpdateActionMap` has looked for one. -/
def knownChords (m : ActionMap A) (cmd : Command A) (i : Nat) : Option (List KeyChord) :=
  (chords m.maskingActions i).or
    (if acts.hash cmd.actionAndArgs = i then (inheritedAction acts i m.parents).map Command.keyMappings else none)

def takenChords (m : ActionMap A) (cmd : Command A) (keys : KeyChord) (i : Nat) : Option (List KeyChord) :=
  match m.conflict acts keys with
  | none => m.knownChords acts cmd i
  | some conflictingCmd =>
    if acts.hash conflictingCmd.actionAndArgs = i then
      some (keys.without ((m.knownChords acts cmd i).getD conflictingCmd.keyMappings))
    else m.knownChords acts cmd i

section Masks

variable {acts} {m : ActionMap A} {parents : List (ActionMap A)}

theorem inheritMasking_of_none {i : Nat} (hnone : ∀ parent ∈ parents, parent.getActionByID acts i = none)
    (found : Std.HashMap Nat (Command A) × MaskingCmd) : inheritMasking acts i parents found = found := by
  induction parents with
  | nil => rfl
  | cons parent parents ih =>
    rw [inheritMasking, hnone parent mem_cons_self]
    exact ih fun p hp => hnone p (mem_cons_of_mem _ hp)

theorem inheritMasking_eq (hapart : Apart acts parents) {i : Nat} {masking : Std.HashMap Nat (Command A)}
    (hnew : i ∉ masking) :
    inheritMasking acts i parents (masking, .null) =
      match inheritedAction acts i parents with
      | none => (masking, .null)
      | some cmd => (masking.insert i cmd, .entry) := by
  induction hapart with
  | nil => rfl
  | @cons p ps hp hrest ih =>
    rw [inheritMasking, inheritedAction, findSome?_cons]
    rcases hcmd : p.getActionByID acts i with _ | _ | cmd
    · exact ih
    · exact ih
    · dsimp only [join_some]
      have hcontains : masking.contains i = false := by simpa using hnew
      rw [hcontains]
      apply inheritMasking_of_none
      intro q hq
      have hsome : p.getActionByID acts i ≠ none := by simp [hcmd]
      exact ((hp q hq).2 i).resolve_left hsome

theorem maskingActions_tryUpdateActionMap (hapart : Apart acts m.parents) (cmd : Command A) (i : Nat) :
    chords (m.tryUpdateActionMap acts cmd).1.maskingActions i = m.knownChords acts cmd i := by
  unfold tryUpdateActionMap knownChords
  dsimp only
  by_cases hmem : acts.hash cmd.actionAndArgs ∈ m.maskingActions
  · rw [if_pos (by simpa using hmem)]
    split
    next hi =>
      obtain ⟨l, hl⟩ := isSome_iff_exists.mp (isSome_chords.mpr hmem)
      rw [← hi, hl]
      rfl
    next => rw [or_none]
  · rw [if_neg (by simpa using hmem), inheritMasking_eq hapart hmem]
    by_cases hi : acts.hash cmd.actionAndArgs = i
    · rw [if_pos hi, ← hi, chords_eq_none.mpr hmem]
      rcases inheritedAction acts (acts.hash cmd.actionAndArgs) m.parents with _ | heir
      · exact chords_eq_none.mpr hmem
      · simp [chords_insert]
    · rw [if_neg hi, or_none]
      rcases inheritedAction acts (acts.hash cmd.actionAndArgs) m.parents with _ | heir
      · rfl
      · simp [chords_insert, hi]

theorem maskingCmd_tryUpdateActionMap (hapart : Apart acts m.parents) (cmd : Command A) :
    (m.tryUpdateActionMap acts cmd).2.2 = .entry ↔
      (m.knownChords acts cmd (acts.hash cmd.actionAndArgs)).isSome = true := by
  unfold tryUpdateActionMap knownChords
  dsimp only
  by_cases hmem : acts.hash cmd.actionAndArgs ∈ m.maskingActions
  · obtain ⟨l, hl⟩ := isSome_iff_exists.mp (isSome_chords.mpr hmem)
    rw [if_pos (by simpa using hmem), hl]
    simp
  · rw [if_neg (by simpa using hmem), inheritMasking_eq hapart hmem, chords_eq_none.mpr hmem]
    rcases inheritedAction acts (acts.hash cmd.actionAndArgs) m.parents with _ | heir <;> simp

theorem maskingActions_handleCollision (keys : KeyChord) (i : Nat) :
      chords (m.handleCollision acts keys).maskingActions i = match m.conflict acts keys with
      | none => chords m.maskingActions i
      | some rival =>
        if acts.hash rival.actionAndArgs = i then
          some (keys.without ((chords m.maskingActions i).getD rival.keyMappings))
        else chords m.maskingActions i := by
  unfold handleCollision conflict
  split
  next oldID hkeys =>
    rw [hkeys, if_neg (by simp)]
  next hkeys =>
    have hask : m.getActionByKeyChord acts keys = (askParents acts m.parents keys).join := by
      rw [getActionByKeyChord_inherited hkeys]
      rcases askParents acts m.parents keys with _ | cmd <;> rfl
    rw [if_pos hkeys, hask]
    rcases (askParents acts m.parents keys).join with _ | rival
    · rfl
    · dsimp only
      by_cases hmem : acts.hash rival.actionAndArgs ∈ m.maskingActions
      · rw [if_pos (by simpa using hmem), chords_modify _ (lists_eraseKey keys)]
        split
        next hi =>
          subst hi
          obtain ⟨l, hl⟩ := isSome_iff_exists.mp (isSome_chords.mpr hmem)
          rw [hl]
          rfl
        next => rfl
      · rw [if_neg (by simpa using hmem), chords_insert]
        split
        next hi =>
          subst hi
          rw [chords_eq_none.mpr hmem]
          rfl
        next => rfl

theorem maskingActions_tryUpdateKeyChord {cmd : Command A} {keys : KeyChord} (hkeys : cmd.keys = some keys)
    (hasOld : Bool) (maskingCmd : MaskingCmd) (i : Nat) :
    chords (m.tryUpdateKeyChord acts cmd hasOld maskingCmd).maskingActions i =
      if maskingCmd = .entry ∧ acts.hash cmd.actionAndArgs = i then
        (chords (m.handleCollision acts keys).maskingActions i).map fun l => keys.without l ++ [keys]
      else chords (m.handleCollision acts keys).maskingActions i := by
  unfold tryUpdateKeyChord
  rw [hkeys]
  unfold updateCmds
  dsimp only
  by_cases hentry : maskingCmd = .entry
  · rw [if_pos hentry, chords_modify _ (lists_registerKey keys)]
    simp [hentry]
  · simp [hentry]

theorem maskingActions_addAction_of_none (hapart : Apart acts m.parents) {cmd : Command A} (hplain : Plain cmd)
    (hkeys : cmd.keys = none) (i : Nat) :
    chords (m.addAction acts cmd).maskingActions i = m.knownChords acts cmd i := by
  rw [addAction_plain hplain]
  unfold tryUpdateKeyChord
  rw [hkeys]
  exact (chords_tryUpdateName ..).2.trans (maskingActions_tryUpdateActionMap hapart cmd i)

theorem maskingActions_addAction (hapart : Apart acts m.parents) {cmd : Command A} (hplain : Plain cmd)
    {keys : KeyChord} (hkeys : cmd.keys = some keys) (i : Nat) :
    chords (m.addAction acts cmd).maskingActions i =
      if (m.knownChords acts cmd i).isSome = true ∧ acts.hash cmd.actionAndArgs = i then
        (m.takenChords acts cmd keys i).map fun l => keys.without l ++ [keys]
      else m.takenChords acts cmd keys i := by
  rw [addAction_plain hplain]
  have hconflict : ((m.tryUpdateActionMap acts cmd).1.tryUpdateName acts cmd (m.tryUpdateActionMap acts cmd).2.1
      (m.tryUpdateActionMap acts cmd).2.2).conflict acts keys = m.conflict acts keys := by
    unfold conflict
    rw [(tryUpdateName_sameKeys ..).keyMap, (tryUpdateName_sameKeys ..).parents]
    rfl
  rw [maskingActions_tryUpdateKeyChord hkeys, maskingActions_handleCollision, hconflict,
    (chords_tryUpdateName ..).2, maskingActions_tryUpdateActionMap hapart]
  simp only [maskingCmd_tryUpdateActionMap hapart]
  by_cases hi : acts.hash cmd.actionAndArgs = i
  · subst hi
    rfl
  · simp only [hi, and_false]
    rfl

end Masks

/-! ## The lists are right -/

/-- What the lists of a layer have to do with the chord maps. -/
structure Agrees (m : ActionMap A) : Prop where
  layered : Layered acts m
  apart : Apart acts m.parents
  partitioned : Partitioned m
  masked_runs : ∀ i, ∀ l ∈ chords m.maskingActions i, ∀ k ∈ l, m.binding acts k = some (some i)
  masked_lists : ∀ keys i, m.keyMap[keys]? = some i → ∀ l ∈ chords m.maskingActions i,
    (∃ k ∈ l, (k == keys) = true) ∨ inheritedBinding acts m.parents keys = some (some i)
  masks_taken : ∀ keys i j, m.keyMap[keys]? = some i → inheritedBinding acts m.parents keys = some (some j) →
    j ∈ m.maskingActions
  masks_shared : ∀ i ∈ m.actionMap, ∀ parent ∈ m.parents, ∀ cmd, parent.getActionByID acts i = some (some cmd) →
    i ∈ m.maskingActions

inductive Agreeing : ActionMap A → Prop where
  | mk {m : ActionMap A} (here : Agrees acts m) (parents : ∀ parent ∈ m.parents, Agreeing parent) : Agreeing m

section Agreeing

variable {acts} {m : ActionMap A}

theorem Agreeing.here (h : Agreeing acts m) : Agrees acts m := by
  cases h with
  | mk here parents => exact here

theorem Agreeing.parents_agreeing (h : Agreeing acts m) : ∀ parent ∈ m.parents, Agreeing acts parent := by
  cases h with
  | mk here parents => exact parents

variable {i : Nat} {cmd : Command A} {k : KeyChord}

theorem getActionByID_own (hcmd : m.getActionByID acts i = some (some cmd))
    (hmasking : m.maskingActions[i]? = none) : m.actionMap[i]? = some cmd := by
  unfold getActionByID at hcmd
  rw [hmasking] at hcmd
  dsimp only at hcmd
  split at hcmd
  next own hown =>
    split at hcmd
    · cases hcmd
    · cases hcmd
      exact hown
  next => cases hcmd

theorem Agrees.runs (h : Agrees acts m) (hcmd : m.getActionByID acts i = some (some cmd)) (hk : k ∈ cmd.keyMappings) :
    m.binding acts k = some (some i) := by
  have hcoherent := h.layered.coherent
  rcases hmasking : m.maskingActions[i]? with _ | masking
  · have hown := getActionByID_own hcmd hmasking
    have hkeys : m.keyMap[k]? = some i :=
      (h.partitioned k i).mpr ⟨cmd.keyMappings, by simp [chords, hown], k, hk, by simp⟩
    rw [binding, getActionByKeyChordInternal_eq, hkeys]
    dsimp only
    rw [hcmd, map_some, map_some, hash_of_getActionByID hcoherent hcmd]
  · have hsame : masking = cmd := by
      unfold getActionByID at hcmd
      simpa [hmasking] using hcmd
    exact h.masked_runs i cmd.keyMappings (by simp [chords, hmasking, hsame]) k hk

theorem Agrees.binding_of_inherited (h : Agrees acts m) (hmask : i ∉ m.maskingActions)
    (hk : inheritedBinding acts m.parents k = some (some i)) : m.binding acts k = some (some i) := by
  rcases hkeys : m.keyMap[k]? with _ | j
  · rw [binding_inherited hkeys, hk]
  · exact absurd (h.masks_taken k j i hkeys hk) hmask

theorem not_mem_of_getActionByID_none (hcmd : m.getActionByID acts i = none) : i ∉ m.maskingActions := by
  intro hmem
  obtain ⟨masking, hmasking⟩ := isSome_iff_exists.mp (Std.HashMap.mem_iff_isSome_getElem?.mp hmem)
  unfold getActionByID at hcmd
  simp [hmasking] at hcmd

theorem findActionByID_eq (m : ActionMap A) (i : Nat) :
    m.findActionByID acts i = (m.getActionByID acts i).or (findInParents acts i m.parents) := by
  cases m
  rw [findActionByID]
  split
  next cmd hcmd => rw [hcmd, some_or]
  next hcmd => rw [hcmd, none_or]

theorem findInParents_eq (i : Nat) (parents : List (ActionMap A)) :
    findInParents acts i parents = parents.findSome? fun parent => parent.findActionByID acts i := by
  induction parents with
  | nil => rw [findInParents, findSome?_nil]
  | cons parent parents ih =>
    rw [findInParents, findSome?_cons, ih]
    rcases parent.findActionByID acts i with _ | cmd <;> rfl

theorem runs_of_findActionByID (h : Agreeing acts m)
    (hcmd : m.findActionByID acts i = some (some cmd)) (hk : k ∈ cmd.keyMappings) :
    m.binding acts k = some (some i) := by
  induction h with
  | @mk m here parents ih =>
    rw [findActionByID_eq] at hcmd
    rcases hown : m.getActionByID acts i with _ | found
    · rw [hown, findInParents_eq] at hcmd
      obtain ⟨parent, hmem, hparent⟩ := exists_of_findSome?_eq_some hcmd
      apply here.binding_of_inherited (not_mem_of_getActionByID_none hown)
      exact inheritedBinding_of_mem here.apart hmem (ih parent hmem hparent)
    · rw [hown, some_or] at hcmd
      rw [hcmd] at hown
      exact here.runs hown hk

theorem inherited_of_findInParents (h : Agreeing acts m)
    (hcmd : findInParents acts i m.parents = some (some cmd)) (hk : k ∈ cmd.keyMappings) :
    inheritedBinding acts m.parents k = some (some i) := by
  rw [findInParents_eq] at hcmd
  obtain ⟨parent, hmem, hparent⟩ := exists_of_findSome?_eq_some hcmd
  exact inheritedBinding_of_mem h.here.apart hmem
    (runs_of_findActionByID (h.parents_agreeing parent hmem) hparent hk)

end Agreeing

/-! ## A call keeps them right -/

section Call

variable {acts} {m : ActionMap A} {cmd : Command A} {keys : KeyChord}

variable {i : Nat} {heir rival : Command A} {l : List KeyChord} {k : KeyChord}

theorem mem_inheritedAction {parents : List (ActionMap A)} (h : inheritedAction acts i parents = some heir) :
    ∃ parent ∈ parents, parent.getActionByID acts i = some (some heir) := by
  obtain ⟨parent, hmem, hparent⟩ := exists_of_findSome?_eq_some h
  exact ⟨parent, hmem, join_eq_some_iff.mp hparent⟩

theorem isSome_inheritedAction {parents : List (ActionMap A)} {parent : ActionMap A} (hmem : parent ∈ parents)
    (h : parent.getActionByID acts i = some (some heir)) : (inheritedAction acts i parents).isSome = true := by
  rw [inheritedAction, findSome?_isSome_iff]
  exact ⟨parent, hmem, by simp [h]⟩

theorem knownChords_cases (h : m.knownChords acts cmd i = some l) : chords m.maskingActions i = some l ∨
      i ∉ m.maskingActions ∧ acts.hash cmd.actionAndArgs = i ∧
        ∃ heir, inheritedAction acts i m.parents = some heir ∧ heir.keyMappings = l := by
  unfold knownChords at h
  rcases hmask : chords m.maskingActions i with _ | l'
  · right
    rw [hmask] at h
    split at h
    next hi =>
      obtain ⟨heir, hinherited, hl⟩ := map_eq_some_iff.mp h
      exact ⟨chords_eq_none.mp hmask, hi, heir, hinherited, hl⟩
    next => cases h
  · left
    rwa [hmask, some_or] at h

theorem isSome_knownChords (acts : Actions A) (cmd : Command A) (h : i ∈ m.maskingActions) :
    (m.knownChords acts cmd i).isSome = true := by
  obtain ⟨l, hl⟩ := isSome_iff_exists.mp (isSome_chords.mpr h)
  simp [knownChords, hl]

theorem Agreeing.known_runs (h : Agreeing acts m)
    (hl : m.knownChords acts cmd i = some l) (hk : k ∈ l) : m.binding acts k = some (some i) := by
  obtain hmask | ⟨hmask, -, heir, hinherited, rfl⟩ := knownChords_cases hl
  · exact h.here.masked_runs i l hmask k hk
  · obtain ⟨parent, hmem, hparent⟩ := mem_inheritedAction hinherited
    apply h.here.binding_of_inherited hmask
    exact inheritedBinding_of_mem h.here.apart hmem ((h.parents_agreeing parent hmem).here.runs hparent hk)

theorem conflict_eq_some : m.conflict acts keys = some rival ↔
      m.keyMap[keys]? = none ∧ askParents acts m.parents keys = some (some rival) := by
  unfold conflict
  split
  next hkeys => simp [hkeys, join_eq_some_iff]
  next hkeys => simp [hkeys]

theorem conflict_of_inherited (hkeys : m.keyMap[keys]? = none)
    (h : inheritedBinding acts m.parents keys = some (some i)) :
    ∃ rival, m.conflict acts keys = some rival ∧ acts.hash rival.actionAndArgs = i := by
  obtain ⟨found, hfound, hsome⟩ := map_eq_some_iff.mp h
  obtain ⟨rival, rfl, hhash⟩ := map_eq_some_iff.mp hsome
  exact ⟨rival, conflict_eq_some.mpr ⟨hkeys, hfound⟩, hhash⟩

theorem inherited_of_conflict (h : m.conflict acts keys = some rival) :
    inheritedBinding acts m.parents keys = some (some (acts.hash rival.actionAndArgs)) := by
  rw [inheritedBinding, (conflict_eq_some.mp h).2]
  rfl

theorem Agreeing.taken_runs (h : Agreeing acts m) (hclean : TakesCleanly acts m cmd) (hkeys : cmd.keys = some keys)
    (hl : m.takenChords acts cmd keys i = some l) (hk : k ∈ l) :
    m.binding acts k = some (some i) ∧
      ((keys == k) = true → acts.hash cmd.actionAndArgs = i ∧ (m.knownChords acts cmd i).isSome = true) := by
  have hgone : ∀ l', k ∈ keys.without l' → ¬(keys == k) = true := by
    intro l' hk hsame
    have herases := erases_of_equals (BEq.symm hsame)
    simp [(mem_without.mp hk).2] at herases
  -- a list that nothing is taken from
  have hkept : m.knownChords acts cmd i = some l →
      (∀ rival, m.conflict acts keys = some rival → acts.hash rival.actionAndArgs ≠ i) →
      m.binding acts k = some (some i) ∧
        ((keys == k) = true → acts.hash cmd.actionAndArgs = i ∧ (m.knownChords acts cmd i).isSome = true) := by
    intro hknown hother
    have hruns := h.known_runs hknown hk
    refine ⟨hruns, fun hsame => ⟨?_, by simp [hknown]⟩⟩
    rw [← binding_congr h.here.layered hsame] at hruns
    obtain hown | ⟨hnone, hinherited⟩ := binding_cases h.here.layered.coherent hruns
    · obtain hmask | ⟨-, hi, -⟩ := knownChords_cases hknown
      · obtain hi | hi := hclean.own keys hkeys i hown
        · exact hi.symm
        · exact absurd (isSome_chords.mp (by simp [hmask])) hi
      · exact hi
    · obtain ⟨rival, hconflict, hi⟩ := conflict_of_inherited hnone hinherited
      exact absurd hi (hother rival hconflict)
  unfold takenChords at hl
  split at hl
  next hnone => exact hkept hl (by simp [hnone])
  next rival hconflict =>
    split at hl
    next hi =>
      obtain rfl := some.inj hl
      refine ⟨?_, fun hsame => absurd hsame (hgone _ hk)⟩
      have hk := (mem_without.mp hk).1
      rcases hknown : m.knownChords acts cmd i with _ | known
      · rw [hknown] at hk
        obtain ⟨hnone, hask⟩ := conflict_eq_some.mp hconflict
        obtain hmask | ⟨-, near, hnear, hlist⟩ := hclean.inherited keys hkeys hnone rival hask
        · rw [hi] at hmask
          simpa [hknown] using isSome_knownChords acts cmd hmask
        · have hmask : i ∉ m.maskingActions := fun hmem => by
            simpa [hknown] using isSome_knownChords acts cmd hmem
          rw [hi] at hnear
          rw [← hlist] at hk
          exact h.here.binding_of_inherited hmask (inherited_of_findInParents h hnear hk)
      · rw [hknown] at hk
        exact h.known_runs hknown hk
    next hi =>
      apply hkept hl
      intro c hc
      rw [hconflict] at hc
      rwa [← some.inj hc]

theorem binding_addAction (hinj : Function.Injective acts.hash) (h : Layered acts m) (cmd : Command A) (k : KeyChord) :
    (m.addAction acts cmd).binding acts k =
      if cmd.binds k then
        some (if acts.isInvalid cmd.actionAndArgs then none else some (acts.hash cmd.actionAndArgs))
      else m.binding acts k := by
  have hkeyMap : (m.addAction acts cmd).keyMap[k]? = _ := addAction_keyMap cmd k
  have hcoherent := (h.addAction cmd).coherent
  split
  next hbinds =>
    rw [if_pos hbinds] at hkeyMap
    exact binding_own hinj hcoherent hkeyMap
  next hbinds =>
    rw [if_neg hbinds] at hkeyMap
    exact binding_of_keyMap hinj h.coherent hcoherent (addAction_parents cmd) hkeyMap

theorem isSome_takenChords (h : i ∈ m.maskingActions ∨
    ∃ rival, m.conflict acts keys = some rival ∧ acts.hash rival.actionAndArgs = i) :
    (m.takenChords acts cmd keys i).isSome = true := by
  unfold takenChords
  obtain hmem | ⟨rival, hconflict, rfl⟩ := h
  · have hknown := isSome_knownChords acts cmd hmem
    split
    · exact hknown
    · split
      · rfl
      · exact hknown
  · simp [hconflict]

theorem isSome_takenChords_of_known (h : (m.knownChords acts cmd i).isSome = true) :
    (m.takenChords acts cmd keys i).isSome = true := by
  unfold takenChords
  split
  · exact h
  · split
    · rfl
    · exact h

theorem mem_maskingActions_addAction (hapart : Apart acts m.parents) (hplain : Plain cmd) (hkeys : cmd.keys = some keys)
    (h : (m.takenChords acts cmd keys i).isSome = true) : i ∈ (m.addAction acts cmd).maskingActions := by
  rw [← isSome_chords, maskingActions_addAction hapart hplain hkeys]
  split
  · rwa [isSome_map]
  · exact h

theorem Agrees.masked_of_known (h : Agrees acts m) (hown : i ∈ m.actionMap)
    (hl : m.knownChords acts cmd i = some l) : chords m.maskingActions i = some l := by
  obtain hmask | ⟨hmask, -, heir, hinherited, -⟩ := knownChords_cases hl
  · exact hmask
  · obtain ⟨parent, hmem, hparent⟩ := mem_inheritedAction hinherited
    exact absurd (h.masks_shared i hown parent hmem heir hparent) hmask

theorem isSome_knownChords_of_parent {parent : ActionMap A} (hmem : parent ∈ m.parents)
    (h : parent.getActionByID acts (acts.hash cmd.actionAndArgs) = some (some heir)) :
    (m.knownChords acts cmd (acts.hash cmd.actionAndArgs)).isSome = true := by
  have hsome := isSome_inheritedAction hmem h
  unfold knownChords
  rcases chords m.maskingActions (acts.hash cmd.actionAndArgs) with _ | l
  · simpa using hsome
  · rfl

theorem mem_actionMap_addAction (hcoherent : Coherent acts m) (hplain : Plain cmd)
    (h : i ∈ (m.addAction acts cmd).actionMap) : acts.hash cmd.actionAndArgs = i ∨ i ∈ m.actionMap := by
  by_contra hnot
  obtain ⟨hi, hmem⟩ := not_or.mp hnot
  rw [← isSome_chords, chords_actionMap_addAction hcoherent hplain] at h
  split at h
  · simp [hi, chords_eq_none.mpr hmem] at h
  · simp [hi, chords_eq_none.mpr hmem] at h

theorem Agreeing.addAction_of_none (hinj : Function.Injective acts.hash) (h : Agreeing acts m) (hplain : Plain cmd)
    (hclean : TakesCleanly acts m cmd) (hkeys : cmd.keys = none) : Agrees acts (m.addAction acts cmd) := by
  have hbinds : ∀ k, cmd.binds k = false := by simp [binds_plain hplain, hkeys]
  have hkeyMap : ∀ k : KeyChord, (m.addAction acts cmd).keyMap[k]? = m.keyMap[k]? := by
    intro k
    rw [addAction_keyMap, hbinds, if_neg (by simp)]
  have hmasks := maskingActions_addAction_of_none h.here.apart hplain hkeys
  have hparents : (m.addAction acts cmd).parents = m.parents := addAction_parents cmd
  have hmem : ∀ i, (m.knownChords acts cmd i).isSome = true → i ∈ (m.addAction acts cmd).maskingActions := by
    intro i hi
    rwa [← isSome_chords, hmasks]
  refine ⟨h.here.layered.addAction cmd, hparents ▸ h.here.apart, ?_, ?_, ?_, ?_, ?_⟩
  · exact h.here.partitioned.addAction h.here.layered.coherent hplain ⟨hclean.one, by simp [hkeys]⟩
  · intro i l hl k hk
    rw [hmasks] at hl
    rw [binding_addAction hinj h.here.layered, hbinds]
    exact h.known_runs hl hk
  · intro k i hk l hl
    rw [hkeyMap] at hk
    rw [hmasks] at hl
    rw [hparents]
    exact h.here.masked_lists k i hk l (h.here.masked_of_known (h.here.layered.coherent.bound k i hk) hl)
  · intro k i j hk hj
    rw [hkeyMap] at hk
    rw [hparents] at hj
    exact hmem j (isSome_knownChords acts cmd (h.here.masks_taken k i j hk hj))
  · intro i hi parent hparent heir hinherited
    rw [hparents] at hparent
    obtain rfl | hown := mem_actionMap_addAction h.here.layered.coherent hplain hi
    · exact hmem _ (isSome_knownChords_of_parent hparent hinherited)
    · exact hmem i (isSome_knownChords acts cmd (h.here.masks_shared i hown parent hparent heir hinherited))

theorem valid_of_masked (hinj : Function.Injective acts.hash) (h : Coherent acts m) {action : A}
    (hmem : acts.hash action ∈ m.maskingActions) : acts.isInvalid action = false := by
  obtain ⟨masking, hmasking⟩ := isSome_iff_exists.mp (Std.HashMap.mem_iff_isSome_getElem?.mp hmem)
  obtain ⟨hhash, hvalid⟩ := h.masks _ masking hmasking
  rwa [hinj hhash] at hvalid

theorem mem_without_of_ne {k k' : KeyChord} (hvkey : keys.vkey ≠ 0) (hother : (keys == k') = false)
    (hkk' : (k == k') = true) (hk : k ∈ l) : k ∈ keys.without l := by
  refine mem_without.mpr ⟨hk, erases_false_of_ne ?_ (equals_of_erases hvkey)⟩
  by_contra hsame
  have := BEq.trans (BEq.symm (by simpa using hsame)) hkk'
  simp [hother] at this

section AddChord

variable (h : Agreeing acts m) (hplain : Plain cmd) (hclean : TakesCleanly acts m cmd) (hkeys : cmd.keys = some keys)

include hplain hkeys in
theorem binds_chord (k : KeyChord) : cmd.binds k = (keys == k) := by simp [binds_plain hplain, hkeys]

include h hplain hclean hkeys in
theorem Agreeing.partitioned_addAction : Partitioned (m.addAction acts cmd) := by
  refine h.here.partitioned.addAction h.here.layered.coherent hplain ⟨hclean.one, ?_⟩
  intro keys' hkeys' i hi l hl k hk
  rw [hkeys] at hkeys'
  obtain rfl := some.inj hkeys'
  exact equals_of_erases (hclean.vkey keys hkeys)

include h hplain hclean hkeys in
theorem Agreeing.masked_runs_addAction (hinj : Function.Injective acts.hash) :
    ∀ i, ∀ l ∈ chords (m.addAction acts cmd).maskingActions i, ∀ k ∈ l,
      (m.addAction acts cmd).binding acts k = some (some i) := by
  intro i l hl k hk
  rw [binding_addAction hinj h.here.layered, binds_chord hplain hkeys]
  rw [maskingActions_addAction h.here.apart hplain hkeys] at hl
  split at hl
  next hi =>
    -- the list of the command that gets the chord
    obtain ⟨hknown, rfl⟩ := hi
    obtain ⟨taken, htaken, rfl⟩ := map_eq_some_iff.mp hl
    have hvalid := valid_of_masked hinj (h.here.layered.addAction cmd).coherent
      (mem_maskingActions_addAction h.here.apart hplain hkeys (isSome_takenChords_of_known hknown))
    by_cases hsame : (keys == k) = true
    · simp [hsame, hvalid]
    · rw [if_neg hsame]
      obtain hk | hk := mem_append.mp hk
      · exact (h.taken_runs hclean hkeys htaken (mem_without.mp hk).1).1
      · rw [mem_singleton.mp hk] at hsame
        simp at hsame
  next hi =>
    obtain ⟨hruns, hnot⟩ := h.taken_runs hclean hkeys hl hk
    have hother : ¬(keys == k) = true := fun hsame => hi ⟨(hnot hsame).2, (hnot hsame).1⟩
    rw [if_neg hother]
    exact hruns

/-- A list that the command was not known by is inherited with the chord. -/
theorem inherited_of_taken (hnone : ¬(m.knownChords acts cmd i).isSome = true)
    (htaken : m.takenChords acts cmd keys i = some l) : inheritedBinding acts m.parents keys = some (some i) := by
  unfold takenChords at htaken
  split at htaken
  next => simp [htaken] at hnone
  next rival hconflict =>
    split at htaken
    next hi => rw [inherited_of_conflict hconflict, hi]
    next => simp [htaken] at hnone

include hclean hkeys in
/-- A command that has another chord in the layer keeps its list, without the chord that is taken. -/
theorem known_of_taken (hown : i ∈ m.actionMap) (htaken : m.takenChords acts cmd keys i = some l) :
    ∃ known, m.knownChords acts cmd i = some known ∧ (l = known ∨ l = keys.without known) := by
  unfold takenChords at htaken
  split at htaken
  next => exact ⟨l, htaken, .inl rfl⟩
  next rival hconflict =>
    split at htaken
    next hi =>
      rcases hknown : m.knownChords acts cmd i with _ | known
      · obtain ⟨hnone, hask⟩ := conflict_eq_some.mp hconflict
        obtain hmask | ⟨hnot, -⟩ := hclean.inherited keys hkeys hnone rival hask
        · rw [hi] at hmask
          exact absurd (isSome_knownChords acts cmd hmask) (by simp [hknown])
        · exact absurd (hi ▸ hown) hnot
      · rw [hknown] at htaken
        exact ⟨known, rfl, .inr (some.inj htaken).symm⟩
    next => exact ⟨l, htaken, .inl rfl⟩

include h hplain hclean hkeys in
theorem Agreeing.masked_lists_addAction : ∀ k' i, (m.addAction acts cmd).keyMap[k']? = some i →
    ∀ l ∈ chords (m.addAction acts cmd).maskingActions i,
      (∃ k ∈ l, (k == k') = true) ∨ inheritedBinding acts m.parents k' = some (some i) := by
  intro k' i hk' l hl
  rw [addAction_keyMap, binds_chord hplain hkeys] at hk'
  rw [mem_def, maskingActions_addAction h.here.apart hplain hkeys] at hl
  by_cases hsame : (keys == k') = true
  · rw [if_pos hsame, some.injEq] at hk'
    subst hk'
    by_cases hknown : (m.knownChords acts cmd (acts.hash cmd.actionAndArgs)).isSome = true
    · rw [if_pos ⟨hknown, rfl⟩] at hl
      obtain ⟨taken, -, rfl⟩ := map_eq_some_iff.mp hl
      exact Or.inl ⟨keys, by simp, hsame⟩
    · rw [if_neg fun hi => hknown hi.1] at hl
      rw [← inheritedBinding_congr h.here.layered hsame]
      exact Or.inr (inherited_of_taken hknown hl)
  · rw [if_neg hsame] at hk'
    have hown := h.here.layered.coherent.bound k' i hk'
    have hkeeps : ∀ taken, m.takenChords acts cmd keys i = some taken →
        (∃ k ∈ keys.without taken ++ [keys], (k == k') = true) ∧ (∃ k ∈ taken, (k == k') = true) ∨
          inheritedBinding acts m.parents k' = some (some i) := by
      intro taken htaken
      obtain ⟨known, hknown, hlist⟩ := known_of_taken hclean hkeys hown htaken
      obtain ⟨k, hk, hkk'⟩ | hinherited := h.here.masked_lists k' i hk' known (h.here.masked_of_known hown hknown)
      · have hstays := fun l => mem_without_of_ne (l := l) (hclean.vkey keys hkeys) (by simpa using hsame) hkk'
        have hmem : k ∈ taken := by
          rcases hlist with rfl | rfl
          · exact hk
          · exact hstays known hk
        exact Or.inl ⟨⟨k, mem_append_left _ (hstays taken hmem), hkk'⟩, k, hmem, hkk'⟩
      · exact Or.inr hinherited
    split at hl
    · obtain ⟨taken, htaken, rfl⟩ := map_eq_some_iff.mp hl
      exact (hkeeps taken htaken).imp_left And.left
    · exact (hkeeps l hl).imp_left And.right

include h hplain hkeys in
theorem Agreeing.masks_taken_addAction : ∀ k' i j, (m.addAction acts cmd).keyMap[k']? = some i →
    inheritedBinding acts m.parents k' = some (some j) → j ∈ (m.addAction acts cmd).maskingActions := by
  intro k' i j hk' hj
  rw [addAction_keyMap, binds_chord hplain hkeys] at hk'
  apply mem_maskingActions_addAction h.here.apart hplain hkeys
  by_cases hsame : (keys == k') = true
  · rw [← inheritedBinding_congr h.here.layered hsame] at hj
    rcases hold : m.keyMap[keys]? with _ | old
    · exact isSome_takenChords (Or.inr (conflict_of_inherited hold hj))
    · exact isSome_takenChords (Or.inl (h.here.masks_taken keys old j hold hj))
  · rw [if_neg hsame] at hk'
    exact isSome_takenChords (Or.inl (h.here.masks_taken k' i j hk' hj))

include h hplain hkeys in
theorem Agreeing.masks_shared_addAction : ∀ i ∈ (m.addAction acts cmd).actionMap, ∀ parent ∈ m.parents, ∀ heir,
    parent.getActionByID acts i = some (some heir) → i ∈ (m.addAction acts cmd).maskingActions := by
  intro i hi parent hparent heir hinherited
  apply mem_maskingActions_addAction h.here.apart hplain hkeys
  obtain rfl | hown := mem_actionMap_addAction h.here.layered.coherent hplain hi
  · exact isSome_takenChords_of_known (isSome_knownChords_of_parent hparent hinherited)
  · exact isSome_takenChords (Or.inl (h.here.masks_shared i hown parent hparent heir hinherited))

include h hplain hclean hkeys in
theorem Agreeing.addAction_of_some (hinj : Function.Injective acts.hash) : Agrees acts (m.addAction acts cmd) where
  layered := h.here.layered.addAction cmd
  apart := (addAction_parents cmd).symm ▸ h.here.apart
  partitioned := h.partitioned_addAction hplain hclean hkeys
  masked_runs := h.masked_runs_addAction hplain hclean hkeys hinj
  masked_lists := by
    rw [addAction_parents]
    exact h.masked_lists_addAction hplain hclean hkeys
  masks_taken := by
    rw [addAction_parents]
    exact h.masks_taken_addAction hplain hkeys
  masks_shared := by
    rw [addAction_parents]
    exact h.masks_shared_addAction hplain hkeys

end AddChord

theorem Agreeing.addAction_special (hinj : Function.Injective acts.hash) (h : Agreeing acts m) (hplain : ¬Plain cmd) :
    Agrees acts (m.addAction acts cmd) := by
  obtain ⟨hkeyMap, hactionMap, hmasks⟩ := @ActionMap.addAction_special A acts m cmd hplain
  have hparents : (m.addAction acts cmd).parents = m.parents := addAction_parents cmd
  have hbinds := binds_special hplain
  refine ⟨h.here.layered.addAction cmd, hparents ▸ h.here.apart, ?_, ?_, ?_, ?_, ?_⟩
  · unfold Partitioned
    rw [hkeyMap, hactionMap]
    exact h.here.partitioned
  · intro i l hl k hk
    rw [hmasks] at hl
    rw [binding_addAction hinj h.here.layered, hbinds]
    exact h.here.masked_runs i l hl k hk
  · rw [hkeyMap, hmasks, hparents]
    exact h.here.masked_lists
  · rw [hkeyMap, hmasks, hparents]
    exact h.here.masks_taken
  · rw [hactionMap, hmasks, hparents]
    exact h.here.masks_shared

theorem Agreeing.addAction (hinj : Function.Injective acts.hash) (h : Agreeing acts m)
    (hclean : Plain cmd → TakesCleanly acts m cmd) : Agreeing acts (m.addAction acts cmd) := by
  refine .mk ?_ ?_
  · by_cases hplain : Plain cmd
    · rcases hkeys : cmd.keys with _ | keys
      · exact h.addAction_of_none hinj hplain (hclean hplain) hkeys
      · exact h.addAction_of_some hplain (hclean hplain) hkeys hinj
    · exact h.addAction_special hinj hplain
  · rw [addAction_parents]
    exact h.parents_agreeing

theorem BuiltCleanly.agreeing (hinj : Function.Injective acts.hash) (h : BuiltCleanly acts m) : Agreeing acts m := by
  induction h with
  | new parents hapart h ih =>
    refine .mk ⟨.mk ⟨?_, ?_, ?_⟩ fun parent hparent => (ih parent hparent).here.layered, hapart,
      partitioned_new parents, ?_, ?_, ?_, ?_⟩ ih
    all_goals simp [Entries, chords]
  | add m cmd hcmd h ih => exact ih.addAction hinj hcmd

theorem inherited_of_root (h : Agreeing acts m) (hroot : ∀ parent ∈ m.parents, parent.parents = [])
    (hask : askParents acts m.parents keys = some (some rival)) :
    acts.hash rival.actionAndArgs ∈ m.maskingActions ∨ acts.hash rival.actionAndArgs ∉ m.actionMap ∧
        ∃ near, findInParents acts (acts.hash rival.actionAndArgs) m.parents = some (some near) ∧
          near.keyMappings = rival.keyMappings := by
  rw [askParents_eq] at hask
  obtain ⟨parent, hmem, hparent⟩ := exists_of_findSome?_eq_some hask
  have hfound : parent.getActionByID acts (acts.hash rival.actionAndArgs) = some (some rival) := by
    rw [getActionByKeyChordInternal_eq] at hparent
    split at hparent
    next i hi => rwa [hash_of_getActionByID (h.parents_agreeing parent hmem).here.layered.coherent hparent]
    next =>
      rw [hroot parent hmem] at hparent
      cases hparent
  by_cases hmask : acts.hash rival.actionAndArgs ∈ m.maskingActions
  · exact Or.inl hmask
  · refine Or.inr ⟨fun hown => hmask ?_, rival, ?_, rfl⟩
    · exact h.here.masks_shared _ hown parent hmem rival hfound
    · rw [findInParents_eq]
      refine findSome?_of_pairwise (h.here.apart.imp_of_mem ?_) hmem ?_
      · intro p q hp hq hpq
        have hnone : ∀ r ∈ m.parents, r.getActionByID acts (acts.hash rival.actionAndArgs) = none →
            r.findActionByID acts (acts.hash rival.actionAndArgs) = none := by
          intro r hr hnone
          rw [findActionByID_eq, hnone, hroot r hr]
          rfl
        exact (hpq.2 _).imp (hnone p hp) (hnone q hq)
      · rw [findActionByID_eq, hfound]
        rfl

theorem takesCleanly_of_new (h : Agreeing acts m) (hroot : ∀ parent ∈ m.parents, parent.parents = [])
    (hcmd : cmd.keyMappings = [keys]) (hvkey : keys.vkey ≠ 0) (hnew : m.keyMap[keys]? = none) :
    TakesCleanly acts m cmd := by
  have hkeys : ∀ k ∈ cmd.keys, keys = k := by simp [Command.keys, hcmd]
  refine ⟨by simp [hcmd], ?_, ?_, ?_⟩
  · intro k hk
    rwa [← hkeys k hk]
  · intro k hk i hi
    rw [← hkeys k hk, hnew] at hi
    cases hi
  · intro k hk hnone rival hask
    exact inherited_of_root h hroot hask

end Call

end ActionMap

end Terminal.Settings
