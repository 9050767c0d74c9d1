import Mathlib.Data.List.Forall2
import Terminal.Settings.ChordLists

/-!
# Saving and loading key bindings (`ActionMapSerialization.cpp`, `Command.cpp`)

A layer is saved as one object for each chord that its own commands list, and loaded by adding
their commands one by one. It binds what was bound as long as the lists have every chord.
-/

namespace Terminal.Settings

open List Option

/-! ## JSON values -/

namespace Json

def find (key : String) : Json → Option Json
  | .object members => (members.find? (·.1 == key)).map (·.2)
  | _ => none

def member (key : String) (json : Json) : Json := (json.find key).getD .null

def values : Json → List Json
  | .array values => values
  | .object members => members.map (·.2)
  | _ => []

def isObject : Json → Bool
  | .object _ => true
  | _ => false

def isNull : Json → Bool
  | .null => true
  | _ => false

theorem sizeOf_snd_lt (entry : String × Json) : sizeOf entry.2 < sizeOf entry := by
  cases entry
  simp only [Prod.mk.sizeOf_spec]
  omega

theorem sizeOf_find {key : String} {json value : Json} (h : json.find key = some value) :
    sizeOf value < sizeOf json := by
  cases json with
  | object members =>
    obtain ⟨entry, hentry, rfl⟩ := map_eq_some_iff.mp h
    have hmem := sizeOf_lt_of_mem (mem_of_find?_eq_some hentry)
    have hsnd := sizeOf_snd_lt entry
    simp only [object.sizeOf_spec]
    omega
  | _ => cases h

theorem sizeOf_member (key : String) (json : Json) : sizeOf (json.member key) ≤ sizeOf json := by
  unfold member
  rcases h : json.find key with _ | value
  · cases json <;> simp
  · exact Nat.le_of_lt (sizeOf_find h)

theorem sizeOf_values {json value : Json} (h : value ∈ json.values) : sizeOf value < sizeOf json := by
  cases json with
  | array values =>
    have hmem : sizeOf value < sizeOf values := sizeOf_lt_of_mem h
    simp only [array.sizeOf_spec]
    omega
  | object members =>
    obtain ⟨entry, hentry, rfl⟩ := mem_map.mp h
    have hmem := sizeOf_lt_of_mem hentry
    have hsnd := sizeOf_snd_lt entry
    simp only [object.sizeOf_spec]
    omega
  | _ => cases h

end Json

/-- Without a virtual key a chord gets that of its scan code. -/
def KeyChord.create (mapVirtualKey : UInt32 → UInt32) (modifiers vkey scanCode : UInt32) : KeyChord :=
  ⟨modifiers, if vkey = 0 then mapVirtualKey scanCode else vkey, scanCode⟩

/-- `none` if the conversion of an action throws. -/
structure Conversions (A : Type) where
  actionToJson : A → Json
  actionFromJson : Json → Option A
  keysToText : KeyChord → String
  keysFromText : String → Option KeyChord
  /-- The action of a command that is given none. -/
  unbound : A
  resource : String → Option String

/-! ## Commands -/

namespace Command

variable {A : Type} (acts : Actions A) (conv : Conversions A)

/-- It throws on a value that is no name of the enumeration. -/
def iterateOnFromJson (json : Json) : Option ExpandCommandType :=
  match json.find "iterateOn" with
  | none => some .none
  | some (.string value) =>
    if value = "profiles" then some .profiles else if value = "schemes" then some .colorSchemes else none
  | some _ => none

def textFromJson (key : String) (json : Json) : Option (Option String) :=
  match json.find key with
  | none | some .null => some none
  | some (.string value) => some (some value)
  | some _ => none

def nameFromJson (json : Json) : Option (Option String) :=
  match json.find "name" with
  | none => some none
  | some .null => some (some "")
  | some (.string value) => some (some value)
  | some (.object members) => (textFromJson "key" (.object members)).map fun resourceKey =>
      resourceKey.bind conv.resource
  | some _ => some none

def actionFromJson (nested : Bool) (json : Json) : Option A :=
  if nested || (json.member "command").isNull then some conv.unbound else conv.actionFromJson (json.member "command")

/-- With several chords in an array there is only a warning. -/
def keysFromJson (nested : Bool) (json : Json) : Option (Option KeyChord) :=
  match if nested then none else json.find "keys" with
  | none => some none
  | some (.string text) => some (conv.keysFromText text)
  | some (.array [.string text]) => some (conv.keysFromText text)
  | some (.array (_ :: _ :: _)) => some none
  | some _ => none

def fromFields (subcommands : List String) (json : Json) : Option (Command A) := do
  let iterateOn ← iterateOnFromJson json
  let nested := !(json.member "commands").isNull
  let icon ← textFromJson "icon" json
  let action ← actionFromJson conv nested json
  let keys ← keysFromJson conv nested json
  let name ← nameFromJson conv json
  some
    { name := name
      actionAndArgs := action
      keyMappings := keys.toList
      iterateOn := iterateOn
      nestedCommand := nested || (json.find "commands").isSome
      hasNestedCommands := nested && !subcommands.isEmpty
      nested_of_has := by
        intro h
        rw [(Bool.and_eq_true_iff.mp h).1]
        rfl
      iconPath := icon
      originalJson := json }

/-- `Command::LayerJson` on one value. What throws is skipped. -/
def layerNested (names : List String) (parsed : Option (Command A)) : List String :=
  match parsed with
  | none => names
  | some cmd =>
    if acts.isInvalid cmd.actionAndArgs && !cmd.hasNestedCommands then
      match cmd.name with
      | some name => if name ≠ "" then names.erase name else names
      | none => names
    else names.insert (cmd.name.getD (acts.generateName cmd.actionAndArgs))

def fromJson (json : Json) : Option (Command A) :=
  fromFields conv
    ((json.member "commands").values.attach.foldl
      (fun names value => if value.1.isObject then layerNested acts names (fromJson value.1) else names) [])
    json
termination_by sizeOf json
decreasing_by exact Nat.lt_of_lt_of_le (Json.sizeOf_values value.2) (Json.sizeOf_member "commands" json)

def header (icon name : Option String) : List (String × Json) :=
  (icon.map fun icon => ("icon", Json.string icon)).toList ++ (name.map fun name => ("name", Json.string name)).toList

def toJson (cmd : Command A) : List Json :=
  if cmd.nestedCommand || decide (cmd.iterateOn ≠ .none) then [cmd.originalJson]
  else
    let action := ("command", conv.actionToJson cmd.actionAndArgs)
    let chord := fun keys => ("keys", Json.string (conv.keysToText keys))
    match cmd.keyMappings with
    | [] => [.object (header cmd.iconPath cmd.name ++ [action])]
    | keys :: rest =>
      .object (header cmd.iconPath cmd.name ++ [action, chord keys]) :: rest.map fun keys => .object
        [action, chord keys]

end Command

/-! ## Layers -/

namespace ActionMap

open KeyChord

variable {A : Type} (acts : Actions A) (conv : Conversions A)

def toJson (iteration : ActionMap A → List (Nat × Command A)) (nestedIteration : ActionMap A →
    List (String × Command A)) (m : ActionMap A) : Json :=
  .array
    ((iteration m).flatMap (fun entry => entry.2.toJson conv) ++
      (nestedIteration m).flatMap (fun entry => entry.2.toJson conv) ++
      m.iterableCommands.flatMap (Command.toJson conv))

def layerJson (m : ActionMap A) (json : Json) : Option (ActionMap A) :=
  json.values.foldlM
    (fun m cmdJson => if cmdJson.isObject then (Command.fromJson acts conv cmdJson).map
      (m.addAction acts) else some m) m

/-! ## What a layer can be saved with -/

def Survives (keys : KeyChord) : Prop := ∃ k, conv.keysFromText (conv.keysToText keys) = some k ∧ (k == keys) = true

/-- A nested or an iterable command was made from JSON. -/
def Loaded (cmd : Command A) : Prop := ∃ json : Json, json.isObject = true ∧ Command.fromJson acts conv json = some cmd

/-- What calls of `AddAction` make if no chord is erased with another. -/
inductive Saveable (parents : List (ActionMap A)) : ActionMap A → Prop where
  | new : Saveable parents { parents := parents }
  | add (m : ActionMap A) (cmd : Command A) (hplain : Plain cmd → ErasesAlone acts m cmd)
      (hspecial : ¬Plain cmd → Loaded acts conv cmd) (hkeys : ∀ keys ∈ cmd.keys, Survives conv keys)
      (h : Saveable parents m) : Saveable parents (m.addAction acts cmd)

section Saving

variable {acts conv} {m : ActionMap A} {cmd : Command A}

theorem originalJson_of_fromJson {json : Json} (h : Command.fromJson acts conv json = some cmd) :
    cmd.originalJson = json := by
  rw [Command.fromJson, Command.fromFields] at h
  simp only [bind_eq_bind, bind_eq_some_iff] at h
  obtain ⟨_, _, _, _, _, _, _, _, _, _, hcmd⟩ := h
  rw [← some.inj hcmd]

/-- What is written for a special command is read back as it. -/
def Stashed (acts : Actions A) (conv : Conversions A) (cmd : Command A) : Prop :=
  ¬Plain cmd ∧ cmd.originalJson.isObject = true ∧ Command.fromJson acts conv cmd.originalJson = some cmd

theorem stashed_of_loaded (hspecial : ¬Plain cmd) (h : Loaded acts conv cmd) : Stashed acts conv cmd := by
  obtain ⟨json, hobject, hjson⟩ := h
  have horiginal := originalJson_of_fromJson hjson
  exact ⟨hspecial, by rwa [horiginal], by rwa [horiginal]⟩

theorem entries_addAction {P : Command A → Prop} (hrename : ∀ newName c, P c → P (rename acts newName c))
    (herase : ∀ keys c, P c → P (Command.eraseKey keys c))
    (hregister : ∀ keys ∈ cmd.keys, ∀ c, P c → P (Command.registerKey keys c))
    (h : Entries (fun _ => P) m.actionMap) (hcmd : Plain cmd → P cmd) :
    Entries (fun _ => P) (m.addAction acts cmd).actionMap := by
  by_cases hplain : Plain cmd
  · rw [addAction_plain hplain]
    dsimp only
    have hnew : Entries (fun _ => P) (m.tryUpdateActionMap acts cmd).1.actionMap := h.insertIfNew (hcmd hplain)
    have hnamed : ∀ hasOld maskingCmd, Entries (fun _ => P)
        ((m.tryUpdateActionMap acts cmd).1.tryUpdateName acts cmd hasOld maskingCmd).actionMap := by
      intro hasOld maskingCmd
      unfold tryUpdateName
      split
      · exact hnew
      · unfold updateCmds
        split
        · exact hnew.modify _ fun _ => hrename _
        · exact hnew
    unfold tryUpdateKeyChord
    split
    · exact hnamed _ _
    next keys hkeys =>
      have hcleared : ∀ n : ActionMap A, Entries (fun _ => P) n.actionMap →
          Entries (fun _ => P) (n.handleCollision acts keys).actionMap := by
        intro n hn
        unfold handleCollision
        split
        · exact hn.modify _ fun _ => herase keys
        · split
          · exact hn
          · dsimp only
            split <;> exact hn
      unfold updateCmds
      split
      · exact (hcleared _ (hnamed _ _)).modify _ fun _ => hregister keys hkeys
      · exact hcleared _ (hnamed _ _)
  · rw [(addAction_special hplain).2.1]
    exact h

theorem tryUpdateKeyChord_special (hasOld : Bool) (maskingCmd : MaskingCmd) :
    (m.tryUpdateKeyChord acts cmd hasOld maskingCmd).nestedCommands = m.nestedCommands ∧
      (m.tryUpdateKeyChord acts cmd hasOld maskingCmd).iterableCommands = m.iterableCommands := by
  unfold tryUpdateKeyChord
  split
  · exact ⟨rfl, rfl⟩
  · unfold updateCmds handleCollision
    dsimp only
    split
    · exact ⟨rfl, rfl⟩
    · split
      · exact ⟨rfl, rfl⟩
      · split <;> exact ⟨rfl, rfl⟩

theorem nestedCommands_addAction {name : String} {c : Command A}
    (h : (m.addAction acts cmd).nestedCommands[name]? = some c) :
    m.nestedCommands[name]? = some c ∨ c = cmd ∧ ¬Plain cmd := by
  by_cases hplain : Plain cmd
  · left
    rw [addAction_plain hplain] at h
    rw [(tryUpdateKeyChord_special ..).1] at h
    unfold tryUpdateName at h
    split at h
    · exact h
    · rw [Std.HashMap.getElem?_erase] at h
      split at h
      · cases h
      · exact h
  · unfold addAction at h
    split at h
    · dsimp only at h
      split at h
      · rw [Std.HashMap.getElem?_insertIfNew] at h
        split at h
        · exact Or.inr ⟨(some.inj h).symm, hplain⟩
        · exact Or.inl h
      · exact Or.inl h
    next hnested =>
      split at h
      · exact Or.inl h
      next hiterate => exact absurd ⟨by simpa using hnested, by simpa using hiterate⟩ hplain

theorem iterableCommands_addAction {c : Command A} (h : c ∈ (m.addAction acts cmd).iterableCommands) :
    c ∈ m.iterableCommands ∨ c = cmd ∧ ¬Plain cmd := by
  by_cases hplain : Plain cmd
  · left
    rw [addAction_plain hplain] at h
    rw [(tryUpdateKeyChord_special ..).2] at h
    unfold tryUpdateName at h
    split at h <;> exact h
  · unfold addAction at h
    split at h
    · dsimp only at h
      split at h <;> exact Or.inl h
    next hnested =>
      split at h
      · rcases mem_append.mp h with hmem | hmem
        · exact Or.inl hmem
        · exact Or.inr ⟨mem_singleton.mp hmem, hplain⟩
      next hiterate => exact absurd ⟨by simpa using hnested, by simpa using hiterate⟩ hplain

structure Writable (acts : Actions A) (conv : Conversions A) (m : ActionMap A) : Prop where
  own : Entries (fun _ c => Plain c ∧ ∀ k ∈ c.keyMappings, Survives conv k) m.actionMap
  nested : ∀ (name : String) (c : Command A), m.nestedCommands[name]? = some c → Stashed acts conv c
  iterable : ∀ c ∈ m.iterableCommands, Stashed acts conv c

theorem Writable.addAction (h : Writable acts conv m) (hone : Plain cmd → cmd.keyMappings.length ≤ 1)
    (hspecial : ¬Plain cmd → Loaded acts conv cmd) (hkeys : ∀ keys ∈ cmd.keys, Survives conv keys) :
    Writable acts conv (m.addAction acts cmd) where
  own := by
    apply entries_addAction _ _ _ h.own
    · intro hplain
      refine ⟨hplain, fun k hk => hkeys k ?_⟩
      obtain ⟨-, hnone⟩ | ⟨keys, hlast, hsingle⟩ := keyMappings_of_keys (hone hplain)
      · simp [hnone] at hk
      · rw [hsingle, mem_singleton] at hk
        rw [hk, hlast]
        rfl
    · intro newName c hc
      unfold rename
      split <;> exact hc
    · intro keys c hc
      exact ⟨hc.1, fun k hk => hc.2 k (mem_filter.mp hk).1⟩
    · intro keys hmem c hc
      refine ⟨hc.1, fun k hk => ?_⟩
      rcases mem_append.mp hk with hk | hk
      · exact hc.2 k (mem_filter.mp hk).1
      · rw [mem_singleton.mp hk]
        exact hkeys keys hmem
  nested := by
    intro name c hc
    obtain hc | ⟨rfl, hplain⟩ := nestedCommands_addAction hc
    · exact h.nested name c hc
    · exact stashed_of_loaded hplain (hspecial hplain)
  iterable := by
    intro c hc
    obtain hc | ⟨rfl, hplain⟩ := iterableCommands_addAction hc
    · exact h.iterable c hc
    · exact stashed_of_loaded hplain (hspecial hplain)

theorem writable_new (parents : List (ActionMap A)) : Writable acts conv { parents := parents } := by
  refine ⟨?_, ?_, ?_⟩
  · intro i c hc
    simp at hc
  · intro name c hc
    simp at hc
  · intro c hc
    cases hc

end Saving

/-! ## What is written is read back -/

/-- Actions survive their conversion, and are not null. -/
def ActionsSurvive : Prop :=
  ∀ action, (conv.actionToJson action).isNull = false ∧ conv.actionFromJson (conv.actionToJson action) = some action

def Parses (cmdJson : Json) (cmd : Command A) : Prop :=
  cmdJson.isObject = true ∧ Command.fromJson acts conv cmdJson = some cmd

structure ReadBack (cmds parsed : List (Command A)) : Prop where
  sound : ∀ p ∈ parsed, ∀ keys, p.binds keys = true →
    ∃ c ∈ cmds, Plain c ∧ p.actionAndArgs = c.actionAndArgs ∧ ∃ k ∈ c.keyMappings, (k == keys) = true
  complete : ∀ c ∈ cmds, Plain c → ∀ k ∈ c.keyMappings, ∀ keys, (k == keys) = true → ∃ p ∈ parsed, p.binds keys = true

section Reading

variable {acts conv} {m : ActionMap A} {cmd : Command A}

theorem exists_mem_left {α β : Type} {R : α → β → Prop} {l : List α} {l' : List β} (h : List.Forall₂ R l l') {b : β}
    (hb : b ∈ l') : ∃ a ∈ l, R a b := by
  induction h with
  | nil => cases hb
  | @cons a b' l l' hab hrest ih =>
    rcases mem_cons.mp hb with rfl | hb
    · exact ⟨a, mem_cons_self, hab⟩
    · obtain ⟨a, ha, hab⟩ := ih hb
      exact ⟨a, mem_cons_of_mem _ ha, hab⟩

theorem exists_mem_right {α β : Type} {R : α → β → Prop} {l : List α} {l' : List β} (h : List.Forall₂ R l l') {a : α}
    (ha : a ∈ l) : ∃ b ∈ l', R a b := exists_mem_left h.flip ha

theorem layerJson_of_parses {values : List Json} {cmds : List (Command A)}
    (h : List.Forall₂ (Parses acts conv) values cmds) (m : ActionMap A) :
    layerJson acts conv m (.array values) = some (m.addActions acts cmds) := by
  show values.foldlM _ m = _
  induction h generalizing m with
  | nil => rfl
  | @cons value cmd values cmds hcmd hrest ih =>
    rw [foldlM_cons, if_pos hcmd.1, hcmd.2]
    exact ih (m.addAction acts cmd)

theorem fromJson_plain {json command : Json} {action : A} {icon name : Option String} {keys : Option KeyChord}
    (hiterate : json.find "iterateOn" = none) (hcommands : json.find "commands" = none)
    (hcommand : json.find "command" = some command) (hnull : command.isNull = false)
    (haction : conv.actionFromJson command = some action) (hicon : Command.textFromJson "icon" json = some icon)
    (hname : Command.nameFromJson conv json = some name)
    (hkeys : Command.keysFromJson conv false json = some keys) :
    ∃ c, Command.fromJson acts conv json = some c ∧ Plain c ∧ c.actionAndArgs = action ∧ c.keys = keys := by
  have hiterateOn : Command.iterateOnFromJson json = some .none := by rw [Command.iterateOnFromJson, hiterate]
  have hnested : (!(json.member "commands").isNull) = false := by simp [Json.member, hcommands, Json.isNull]
  have hactionOf : Command.actionFromJson conv false json = some action := by
    simp [Command.actionFromJson, Json.member, hcommand, hnull, haction]
  rw [Command.fromJson, Command.fromFields, hiterateOn]
  simp only [hnested, hcommands, hicon, hname, hkeys, hactionOf]
  refine ⟨_, rfl, ⟨rfl, rfl⟩, rfl, ?_⟩
  cases keys <;> rfl

def BindsOnly (action : A) (keys : KeyChord) (cmd : Command A) : Prop :=
  cmd.actionAndArgs = action ∧ ∀ k, cmd.binds k = (keys == k)

theorem parses_chord (acts : Actions A) (hactions : ActionsSurvive conv) (icon name : Option String) (action : A)
    {keys : KeyChord} (hkeys : Survives conv keys) :
    ∃ c, Parses acts conv
        (.object (Command.header icon name ++
          [("command", conv.actionToJson action), ("keys", .string (conv.keysToText keys))])) c ∧
      BindsOnly action keys c := by
  obtain ⟨hnull, haction⟩ := hactions action
  obtain ⟨k, hk, hsame⟩ := hkeys
  suffices h : ∃ c, Command.fromJson acts conv _ = some c ∧ Plain c ∧ c.actionAndArgs = action ∧ c.keys = some k by
    obtain ⟨c, hc, hplain, hcaction, hlast⟩ := h
    refine ⟨c, ⟨rfl, hc⟩, hcaction, fun k' => ?_⟩
    rw [binds_plain hplain, hlast, Bool.eq_iff_iff]
    exact ⟨fun h => BEq.trans (BEq.symm hsame) h, fun h => BEq.trans hsame h⟩
  cases icon <;> cases name <;>
    exact fromJson_plain (by rfl) (by rfl) (by rfl) hnull haction (by rfl) (by rfl)
      (by simp [Command.keysFromJson, Command.header, Json.find, hk])

theorem parses_chordless (acts : Actions A) (hactions : ActionsSurvive conv) (icon name : Option String) (action : A) :
    ∃ c, Parses acts conv (.object (Command.header icon name ++ [("command", conv.actionToJson action)])) c ∧
      ∀ k, c.binds k = false := by
  obtain ⟨hnull, haction⟩ := hactions action
  suffices h : ∃ c, Command.fromJson acts conv _ = some c ∧ Plain c ∧ c.actionAndArgs = action ∧ c.keys = none by
    obtain ⟨c, hc, hplain, -, hnone⟩ := h
    exact ⟨c, ⟨rfl, hc⟩, fun k => by rw [binds_plain hplain, hnone, any_none]⟩
  cases icon <;> cases name <;>
    exact fromJson_plain (by rfl) (by rfl) (by rfl) hnull haction (by rfl) (by rfl) (by rfl)

theorem parses_chords (acts : Actions A) (hactions : ActionsSurvive conv) (action : A) (l : List KeyChord)
    (hl : ∀ k ∈ l, Survives conv k) :
    ∃ parsed, List.Forall₂ (Parses acts conv)
        (l.map fun keys =>
          .object [("command", conv.actionToJson action), ("keys", .string (conv.keysToText keys))]) parsed ∧
      List.Forall₂ (BindsOnly action) l parsed := by
  induction l with
  | nil => exact ⟨[], .nil, .nil⟩
  | cons keys l ih =>
    obtain ⟨c, hc, hbinds⟩ := parses_chord acts hactions none none action (hl keys mem_cons_self)
    obtain ⟨parsed, hparsed, hall⟩ := ih fun k hk => hl k (mem_cons_of_mem _ hk)
    exact ⟨c :: parsed, .cons hc hparsed, .cons hbinds hall⟩

theorem readBack_nil : ReadBack ([] : List (Command A)) [] :=
  ⟨fun _ hp => absurd hp not_mem_nil, fun _ hc => absurd hc not_mem_nil⟩

theorem ReadBack.append {cmds cmds' parsed parsed' : List (Command A)} (h : ReadBack cmds parsed)
    (h' : ReadBack cmds' parsed') : ReadBack (cmds ++ cmds') (parsed ++ parsed') := by
  constructor
  · intro p hp keys hbinds
    rcases mem_append.mp hp with hp | hp
    · obtain ⟨c, hc, hlisted⟩ := h.sound p hp keys hbinds
      exact ⟨c, mem_append_left _ hc, hlisted⟩
    · obtain ⟨c, hc, hlisted⟩ := h'.sound p hp keys hbinds
      exact ⟨c, mem_append_right _ hc, hlisted⟩
  · intro c hc hplain k hk keys hsame
    rcases mem_append.mp hc with hc | hc
    · obtain ⟨p, hp, hbinds⟩ := h.complete c hc hplain k hk keys hsame
      exact ⟨p, mem_append_left _ hp, hbinds⟩
    · obtain ⟨p, hp, hbinds⟩ := h'.complete c hc hplain k hk keys hsame
      exact ⟨p, mem_append_right _ hp, hbinds⟩

theorem readBack_of_bindsOnly (hplain : Plain cmd) {parsed : List (Command A)}
    (h : List.Forall₂ (BindsOnly cmd.actionAndArgs) cmd.keyMappings parsed) : ReadBack [cmd] parsed := by
  constructor
  · intro p hp keys hbinds
    obtain ⟨k, hk, haction, honly⟩ := exists_mem_left h hp
    exact ⟨cmd, mem_singleton_self cmd, hplain, haction, k, hk, (honly keys).symm.trans hbinds⟩
  · intro c hc _ k hk keys hsame
    rw [mem_singleton.mp hc] at hk
    obtain ⟨p, hp, -, honly⟩ := exists_mem_right h hk
    exact ⟨p, hp, (honly keys).trans hsame⟩

theorem readBack_of_unbound {c : Command A} (hbinds : ∀ k, c.binds k = false)
    (hnone : Plain cmd → cmd.keyMappings = []) : ReadBack [cmd] [c] := by
  constructor
  · intro p hp keys hp'
    rw [mem_singleton.mp hp, hbinds] at hp'
    cases hp'
  · intro c' hc' hplain k hk
    rw [mem_singleton.mp hc'] at hplain hk
    rw [hnone hplain] at hk
    cases hk

theorem toJson_readBack (hactions : ActionsSurvive conv)
    (hcmd : Plain cmd ∧ (∀ k ∈ cmd.keyMappings, Survives conv k) ∨ Stashed acts conv cmd) :
    ∃ parsed, List.Forall₂ (Parses acts conv) (cmd.toJson conv) parsed ∧ ReadBack [cmd] parsed := by
  unfold Command.toJson
  obtain ⟨hplain, hkeys⟩ | ⟨hspecial, hobject, hjson⟩ := hcmd
  · rw [hplain.1, hplain.2, if_neg (by simp)]
    split
    next hlist =>
      obtain ⟨c, hc, hbinds⟩ := parses_chordless acts hactions cmd.iconPath cmd.name cmd.actionAndArgs
      exact ⟨[c], .cons hc .nil, readBack_of_unbound hbinds fun _ => hlist⟩
    next first rest hlist =>
      rw [hlist] at hkeys
      obtain ⟨c, hc, hbinds⟩ :=
        parses_chord acts hactions cmd.iconPath cmd.name cmd.actionAndArgs (hkeys first mem_cons_self)
      obtain ⟨parsed, hparsed, hall⟩ :=
        parses_chords acts hactions cmd.actionAndArgs rest fun k hk => hkeys k (mem_cons_of_mem _ hk)
      refine ⟨c :: parsed, .cons hc hparsed, readBack_of_bindsOnly hplain ?_⟩
      rw [hlist]
      exact .cons hbinds hall
  · have hkind : (cmd.nestedCommand || decide (cmd.iterateOn ≠ .none)) = true := by
      unfold Plain at hspecial
      rcases hnested : cmd.nestedCommand with _ | _
      · simpa [hnested] using hspecial
      · rfl
    rw [if_pos hkind]
    refine ⟨[cmd], .cons ⟨hobject, hjson⟩ .nil, readBack_of_unbound (binds_special hspecial) ?_⟩
    exact fun hplain => absurd hplain hspecial

theorem flatMap_readBack (hactions : ActionsSurvive conv) (cmds : List (Command A))
    (hcmds : ∀ cmd ∈ cmds, Plain cmd ∧ (∀ k ∈ cmd.keyMappings, Survives conv k) ∨ Stashed acts conv cmd) :
    ∃ parsed, List.Forall₂ (Parses acts conv) (cmds.flatMap (Command.toJson conv)) parsed ∧ ReadBack cmds parsed := by
  induction cmds with
  | nil => exact ⟨[], .nil, readBack_nil⟩
  | cons cmd cmds ih =>
    obtain ⟨first, hfirst, hread⟩ := toJson_readBack hactions (hcmds cmd mem_cons_self)
    obtain ⟨parsed, hparsed, hrest⟩ := ih fun c hc => hcmds c (mem_cons_of_mem _ hc)
    exact ⟨first ++ parsed, rel_append hfirst hparsed, hread.append hrest⟩

theorem layerJson_lists (hactions : ActionsSurvive conv) (h : Writable acts conv m) (hcoherent : Coherent acts m)
    (iteration : ActionMap A → List (Nat × Command A)) (hiteration : (iteration m).Perm m.actionMap.toList)
    (nested : ActionMap A → List (String × Command A))
    (hnested : (nested m).Perm m.nestedCommands.toList) (parents : List (ActionMap A)) :
    ∃ cmds, layerJson acts conv { parents := parents } (m.toJson conv iteration nested) =
        some (addActions acts { parents := parents } cmds) ∧
      ∀ (keys : KeyChord) (i : Nat), ((addActions acts { parents := parents } cmds).keyMap[keys]? = some i →
          ∃ l ∈ chords m.actionMap i, ∃ k ∈ l, (k == keys) = true) ∧
        ((∃ l ∈ chords m.actionMap i, ∃ k ∈ l, (k == keys) = true) →
          (addActions acts { parents := parents } cmds).keyMap[keys]? ≠ none) := by
  have hown : ∀ (i : Nat) (c : Command A), (i, c) ∈ iteration m ↔ m.actionMap[i]? = some c := by
    intro i c
    rw [hiteration.mem_iff, Std.HashMap.mem_toList_iff_getElem?_eq_some]
  have hall : ∀ c ∈ (iteration m).map (·.2) ++ (nested m).map (·.2) ++ m.iterableCommands,
      (∃ i : Nat, m.actionMap[i]? = some c) ∨ Stashed acts conv c := by
    intro c hc
    rcases mem_append.mp hc with hc | hc
    · rcases mem_append.mp hc with hc | hc
      · obtain ⟨⟨i, c⟩, hmem, rfl⟩ := mem_map.mp hc
        exact Or.inl ⟨i, (hown i c).mp hmem⟩
      · obtain ⟨⟨name, c⟩, hmem, rfl⟩ := mem_map.mp hc
        rw [hnested.mem_iff, Std.HashMap.mem_toList_iff_getElem?_eq_some] at hmem
        exact Or.inr (h.nested name c hmem)
    · exact Or.inr (h.iterable c hc)
  obtain ⟨parsed, hparsed, hread⟩ := flatMap_readBack hactions _ fun c hc =>
    (hall c hc).imp_left fun ⟨i, hi⟩ => h.own i c hi
  refine ⟨parsed, ?_, ?_⟩
  · rw [← layerJson_of_parses hparsed]
    simp only [toJson, flatMap_append, flatMap_map]
  · intro keys i
    rw [addActions_keyMap]
    constructor
    · intro hbound
      obtain ⟨p, hp, rfl⟩ := map_eq_some_iff.mp hbound
      have hmem := mem_reverse.mp (mem_of_find?_eq_some hp)
      have hbinds : p.binds keys = true := @find?_some _ (fun c : Command A => c.binds keys) _ _ hp
      obtain ⟨c, hc, hplain, haction, k, hk, hsame⟩ := hread.sound p hmem keys hbinds
      obtain ⟨i, hi⟩ | hspecial := hall c hc
      · refine ⟨c.keyMappings, ?_, k, hk, hsame⟩
        rw [haction, (hcoherent.own i c hi).1, chords, hi]
        rfl
      · exact absurd hplain hspecial.1
    · rintro ⟨l, hl, k, hk, hsame⟩ hnone
      obtain ⟨c, hc, rfl⟩ := map_eq_some_iff.mp hl
      have hmem : c ∈ (iteration m).map (·.2) ++ (nested m).map (·.2) ++ m.iterableCommands :=
        mem_append_left _ (mem_append_left _ (mem_map.mpr ⟨(i, c), (hown i c).mpr hc, rfl⟩))
      obtain ⟨p, hp, hbinds⟩ := hread.complete c hmem (h.own i c hc).1 k hk keys hsame
      have hfind := find?_eq_none.mp (map_eq_none_iff.mp hnone) p (mem_reverse.mpr hp)
      exact hfind hbinds

theorem Saveable.invariant {parents : List (ActionMap A)} (hparents : ∀ parent ∈ parents, Built acts parent)
    (h : Saveable acts conv parents m) :
    Layered acts m ∧ m.parents = parents ∧ Partitioned m ∧ Writable acts conv m := by
  induction h with
  | new => exact ⟨(Built.new parents hparents).layered, rfl, partitioned_new parents, writable_new parents⟩
  | add m cmd hplain hspecial hkeys h ih =>
    obtain ⟨hlayered, hsame, hpartitioned, hwritable⟩ := ih
    refine ⟨hlayered.addAction cmd, (addAction_parents cmd).trans hsame, ?_, ?_⟩
    · by_cases hcmd : Plain cmd
      · exact hpartitioned.addAction hlayered.coherent hcmd (hplain hcmd)
      · unfold Partitioned
        rw [(addAction_special hcmd).1, (addAction_special hcmd).2.1]
        exact hpartitioned
    · exact hwritable.addAction (fun hcmd => (hplain hcmd).one) hspecial hkeys

theorem internal_of_binding (hinj : Function.Injective acts.hash) {other : ActionMap A} {keys : KeyChord}
    (h : other.binding acts keys = m.binding acts keys) :
    (other.getActionByKeyChordInternal acts keys).map (Option.map Command.actionAndArgs) =
      (m.getActionByKeyChordInternal acts keys).map (Option.map Command.actionAndArgs) := by
  apply map_injective (map_injective hinj)
  unfold binding at h
  simpa [Function.comp_def] using h

/-- Saved and loaded over the same parents, every chord has the same action. -/
theorem layerJson_toJson (hinj : Function.Injective acts.hash) (hactions : ActionsSurvive conv)
    (parents : List (ActionMap A)) (hparents : ∀ parent ∈ parents, Built acts parent)
    (h : Saveable acts conv parents m)
    (iteration : ActionMap A → List (Nat × Command A)) (hiteration : ∀ m, (iteration m).Perm m.actionMap.toList)
    (nested : ActionMap A → List (String × Command A))
    (hnested : ∀ m, (nested m).Perm m.nestedCommands.toList) :
    ∃ loaded, layerJson acts conv { parents := parents } (m.toJson conv iteration nested) = some loaded ∧
      ∀ keys, (loaded.getActionByKeyChordInternal acts keys).map (Option.map Command.actionAndArgs) =
        (m.getActionByKeyChordInternal acts keys).map (Option.map Command.actionAndArgs) := by
  obtain ⟨hlayered, hsame, hpartitioned, hwritable⟩ := h.invariant hparents
  obtain ⟨cmds, hloaded, hlists⟩ :=
    layerJson_lists hactions hwritable hlayered.coherent iteration (hiteration m) nested (hnested m) parents
  refine ⟨_, hloaded, fun keys => internal_of_binding hinj ?_⟩
  have hload : Layered acts (addActions acts { parents := parents } cmds) :=
    (Built.new parents hparents).layered.addActions cmds
  apply binding_of_keyMap hinj hlayered.coherent hload.coherent
  · rw [addActions_parents, hsame]
  · rcases hkeys : m.keyMap[keys]? with _ | i
    · rcases hother : (addActions acts { parents := parents } cmds).keyMap[keys]? with _ | i
      · rfl
      · have hlisted := (hpartitioned keys i).mpr ((hlists keys i).1 hother)
        rw [hkeys] at hlisted
        cases hlisted
    · have hsome := (hlists keys i).2 ((hpartitioned keys i).mp hkeys)
      obtain ⟨j, hj⟩ := Option.ne_none_iff_exists'.mp hsome
      rw [hj, ← hkeys]
      exact ((hpartitioned keys j).mpr ((hlists keys j).1 hj)).symm

end Reading

def tableConversions (table : List (KeyChord × String)) : Conversions Nat where
  actionToJson action := .number action
  actionFromJson
    | .number action => some action.toNat
    | _ => none
  keysToText keys := ((table.find? (·.1 == keys)).map (·.2)).getD ""
  keysFromText text := (table.find? (·.2 == text)).map (·.1)
  unbound := 0
  resource _ := none

theorem survives_of_mem {table : List (KeyChord × String)} {keys : KeyChord} (k : KeyChord) (text : String)
    (hkeys : table.find? (·.1 == keys) = some (k, text)) (htext : table.find? (·.2 == text) = some (k, text)) :
    Survives (tableConversions table) keys := by
  have hsame : (k == keys) = true := @find?_some _ (fun entry : KeyChord × String => entry.1 == keys) _ _ hkeys
  refine ⟨k, ?_, hsame⟩
  simp [tableConversions, hkeys, htext]

theorem tableConversions_actionsSurvive (table : List (KeyChord × String)) :
    ActionsSurvive (tableConversions table) := fun _ => ⟨rfl, rfl⟩

theorem layerJson_toJson_unbound :
    let ctrlC : KeyChord := ⟨1, 0x43, 0⟩
    let ctrlV : KeyChord := ⟨1, 0x56, 0⟩
    let conv := tableConversions [(ctrlC, "ctrl+c"), (ctrlV, "ctrl+v")]
    let parent := addAction numbered {} { actionAndArgs := 1, keyMappings := [ctrlC] }
    let unbound := addAction numbered { parents := [parent] } { actionAndArgs := 0, keyMappings := [ctrlC] }
    let child := addAction numbered unbound { actionAndArgs := 2, keyMappings := [ctrlV] }
    ∃ loaded, layerJson numbered conv { parents := [parent] }
        (child.toJson conv (fun m => m.actionMap.toList) (fun m => m.nestedCommands.toList)) = some loaded ∧
      (loaded.getActionByKeyChordInternal numbered ctrlC).map (Option.map Command.actionAndArgs) = some none ∧
      (loaded.getActionByKeyChordInternal numbered ctrlV).map (Option.map Command.actionAndArgs) = some (some 2) := by
  intro ctrlC ctrlV conv parent unbound child
  have hinj : Function.Injective numbered.hash := fun _ _ h => h
  have hparents : ∀ p ∈ [parent], Built numbered p := by
    intro p hp
    rw [List.mem_singleton.mp hp]
    exact .add _ _ (.new [] (by simp))
  have hother : (ctrlC == ctrlV) = false := by decide
  have hsurvives : Survives conv ctrlC ∧ Survives conv ctrlV := ⟨survives_of_mem ctrlC "ctrl+c" (by simp) (by simp),
      survives_of_mem ctrlV "ctrl+v" (by simp [hother]) (by simp)⟩
  -- a chord with a virtual key is erased alone
  have halone : ∀ (m : ActionMap Nat) (action : Nat), ∀ keys ∈ [ctrlC, ctrlV],
      ErasesAlone numbered m { actionAndArgs := action, keyMappings := [keys] } := by
    intro m action keys hkeys
    refine ⟨by simp, fun k hk i _ l _ k' _ herases => ?_⟩
    obtain rfl : keys = k := by simpa [Command.keys] using hk
    refine equals_of_erases ?_ herases
    rcases List.mem_cons.mp hkeys with rfl | hkeys
    · decide
    · rw [List.mem_singleton.mp hkeys]
      decide
  have hunbound : Saveable numbered conv [parent] unbound :=
    .add _ _ (fun _ => halone _ 0 ctrlC (by simp)) (fun h => absurd ⟨rfl, rfl⟩ h)
      (by simpa [Command.keys] using hsurvives.1) .new
  have hchild : Saveable numbered conv [parent] child :=
    .add _ _ (fun _ => halone _ 2 ctrlV (by simp)) (fun h => absurd ⟨rfl, rfl⟩ h)
      (by simpa [Command.keys] using hsurvives.2) hunbound
  obtain ⟨loaded, hloaded, hsame⟩ := layerJson_toJson hinj (tableConversions_actionsSurvive _) [parent] hparents hchild
    (fun m => m.actionMap.toList) (fun _ => List.Perm.refl _) (fun m => m.nestedCommands.toList)
    (fun _ => List.Perm.refl _)
  have hcoherent := (hchild.invariant hparents).1.coherent
  have hctrlC : child.keyMap[ctrlC]? = some (numbered.hash 0) := by
    simp [child, unbound, addAction_keyMap, Command.binds, Command.keys, BEq.symm_false hother]
  have hctrlV : child.keyMap[ctrlV]? = some (numbered.hash 2) := by
    simp [child, addAction_keyMap, Command.binds, Command.keys]
  refine ⟨loaded, hloaded, ?_, ?_⟩
  · have hbinding := binding_own hinj hcoherent hctrlC
    rw [hsame]
    simpa [binding, numbered] using hbinding
  · have hbinding := binding_own hinj hcoherent hctrlV
    rw [hsame]
    simpa [binding, numbered] using hbinding

/-- The second chord of action 1 erases the first from the list, not from the chord map. -/
theorem layerJson_toJson_loses :
    let win30 := KeyChord.create (fun _ => 0) 8 0 30
    let win31 := KeyChord.create (fun _ => 0) 8 0 31
    let conv := tableConversions [(win30, "win+sc(30)"), (win31, "win+sc(31)")]
    let first := addAction numbered {} { actionAndArgs := 1, keyMappings := [win30] }
    let layer := addAction numbered first { actionAndArgs := 1, keyMappings := [win31] }
    (layer.getActionByKeyChord numbered win30).map Command.actionAndArgs = some 1 ∧ ∃ loaded, layerJson numbered conv {}
          (layer.toJson conv (fun m => m.actionMap.toList) (fun m => m.nestedCommands.toList)) = some loaded ∧
        (loaded.getActionByKeyChord numbered win30).map Command.actionAndArgs = none := by
  intro win30 win31 conv first layer
  have hinj : Function.Injective numbered.hash := fun _ _ h => h
  have hnew : Built numbered {} := .new [] (by simp)
  have hlayer : Layered numbered layer := (hnew.layered.addAction _).addAction _
  have hother : (win31 == win30) = false := by decide
  have hkeys : layer.keyMap[win30]? = some (numbered.hash 1) := by
    simp [layer, first, addAction_keyMap, Command.binds, Command.keys]
  refine ⟨?_, ?_⟩
  · rw [getActionByKeyChord_bound hinj hlayer.coherent hkeys]
    rfl
  have hwritable : Writable numbered conv layer := by
    refine ((writable_new []).addAction (fun _ => by simp) (fun h => absurd ⟨rfl, rfl⟩ h) ?_).addAction
      (fun _ => by simp) (fun h => absurd ⟨rfl, rfl⟩ h) ?_
    · intro keys hkeys
      obtain rfl : win30 = keys := by simpa [Command.keys] using hkeys
      exact survives_of_mem win30 "win+sc(30)" (by simp) (by simp)
    · intro keys hkeys
      obtain rfl : win31 = keys := by simpa [Command.keys] using hkeys
      exact survives_of_mem win31 "win+sc(31)" (by simp [BEq.symm_false hother]) (by simp)
  -- the list of action 1 is left with the second chord, and there is no other list
  have hlist : ∀ i, ∀ l ∈ chords layer.actionMap i, l = [win31] := by
    intro i l hl
    have hfirst : chords first.actionMap i = if 1 = i then some [win30] else none := by
      rw [chords_actionMap_addAction hnew.layered.coherent ⟨rfl, rfl⟩]
      simp [Command.keys, numbered, chords]
    have hcoherent : Coherent numbered first := (hnew.layered.addAction _).coherent
    rw [chords_actionMap_addAction hcoherent ⟨rfl, rfl⟩, hfirst] at hl
    by_cases hi : 1 = i
    · subst hi
      exact (some.inj hl).symm
    · simp [Command.keys, numbered, hi] at hl
  obtain ⟨cmds, hloaded, hlists⟩ := layerJson_lists (tableConversions_actionsSurvive _) hwritable hlayer.coherent
    (fun m => m.actionMap.toList) (List.Perm.refl _) (fun m => m.nestedCommands.toList) (List.Perm.refl _) []
  refine ⟨_, hloaded, ?_⟩
  have hnone : (addActions numbered { parents := [] } cmds).keyMap[win30]? = none := by
    rcases hbound : (addActions numbered { parents := [] } cmds).keyMap[win30]? with _ | i
    · rfl
    · obtain ⟨l, hl, k, hk, hsame⟩ := (hlists win30 i).1 hbound
      rw [hlist i l hl, mem_singleton] at hk
      rw [hk, hother] at hsame
      cases hsame
  rw [getActionByKeyChord_inherited hnone, addActions_parents]
  rfl

end ActionMap

end Terminal.Settings
