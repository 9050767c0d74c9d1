import Mathlib.Algebra.Ring.Nat
import Terminal.Lib.Steps
import Terminal.Parser.InputEngine

/-!
# The input buffer of the console (`inputBuffer.cpp`)

Events are written at the end and read from the front. One event at a time may be merged with the
last. The buffer is not in virtual terminal input mode.
-/

namespace Terminal.Host

open Terminal.Parser

def VK_PAUSE : BitVec 16 := 0x13
def VK_CAPITAL : BitVec 16 := 0x14
def VK_LWIN : BitVec 16 := 0x5B
def VK_RWIN : BitVec 16 := 0x5C
def VK_NUMLOCK : BitVec 16 := 0x90
def VK_SCROLL : BitVec 16 := 0x91

def NLS_IME_CONVERSION : BitVec 32 := 0x00800000

inductive ConsoleEvent where
  | key (event : KeyEvent)
  | mouse (event : MouseEvent)
  | windowBufferSize (size : Int × Int)
  | menu (commandId : BitVec 32)
  | focus (focus cameFromApi : Bool)
deriving DecidableEq, Repr

def saturatedShort (value : Int) : Int := max (-0x8000) (min value 0x7FFF)

/-- `IInputEvent::Create(event->ToInputRecord())`. A focus event of a record is one of the API's. -/
def ConsoleEvent.recreate : ConsoleEvent → ConsoleEvent
  | .mouse event => .mouse { event with position := event.position.map saturatedShort saturatedShort }
  | .windowBufferSize size => .windowBufferSize (size.map saturatedShort saturatedShort)
  | .focus hasFocus _ => .focus hasFocus true
  | .key event => .key event
  | .menu commandId => .menu commandId

def ConsoleEvent.asKey : ConsoleEvent → Option KeyEvent
  | .key event => some event
  | _ => none

def isSystemKey (virtualKeyCode : BitVec 16) : Bool :=
  virtualKeyCode ∈ [VK_SHIFT, VK_CONTROL, VK_MENU, VK_PAUSE, VK_CAPITAL, VK_LWIN, VK_RWIN, VK_NUMLOCK, VK_SCROLL]

def isPauseKey (event : KeyEvent) : Bool := event.virtualKeyCode = VK_PAUSE

def isMouseMoveEvent (event : MouseEvent) : Bool := event.eventFlags = MOUSE_MOVED

/-- `lineInput` is an input mode, `suspended` a flag of the console. -/
structure InputBuffer where
  storage : List ConsoleEvent
  lineInput : Bool
  suspended : Bool
deriving DecidableEq, Repr

namespace InputBuffer

/-! ## Writing -/

def handleConsoleSuspensionEvents (lineInput : Bool) : Bool → List ConsoleEvent → List ConsoleEvent × Bool
  | suspended, [] => ([], suspended)
  | suspended, .key event :: inEvents =>
    if event.keyDown ∧ suspended ∧ ¬ isSystemKey event.virtualKeyCode then
      handleConsoleSuspensionEvents lineInput false inEvents
    else if event.keyDown ∧ lineInput ∧ isPauseKey event then
      handleConsoleSuspensionEvents lineInput true inEvents
    else
      let (outEvents, suspended) := handleConsoleSuspensionEvents lineInput suspended inEvents
      (.key event :: outEvents, suspended)
  | suspended, event :: inEvents =>
    let (outEvents, suspended) := handleConsoleSuspensionEvents lineInput suspended inEvents
    (event :: outEvents, suspended)

def coalesceMouseMovedEvents (storage : List ConsoleEvent) (inEvent : ConsoleEvent) : Option (List ConsoleEvent) :=
  match inEvent, storage.getLast? with
  | .mouse event, some (.mouse last) =>
    if isMouseMoveEvent event ∧ isMouseMoveEvent last then
      some (storage.dropLast ++ [.mouse { last with position := event.position }])
    else none
  | _, _ => none

def canCoalesce (a b : KeyEvent) : Bool :=
  if a.activeModifierKeys &&& NLS_IME_CONVERSION ≠ 0 ∧ a.charData = b.charData ∧
    a.activeModifierKeys = b.activeModifierKeys then true
  else a.virtualScanCode = b.virtualScanCode ∧ a.charData = b.charData ∧ a.activeModifierKeys = b.activeModifierKeys

variable (fullWidth : Wchar → Bool)

def coalesces (event last : KeyEvent) : Bool :=
  event.keyDown && last.keyDown && !fullWidth event.charData && canCoalesce event last

/-- The repeat counts are added as `WORD`s. -/
def coalesceRepeatedKeyPressEvents (storage : List ConsoleEvent) (inEvent : ConsoleEvent) :
    Option (List ConsoleEvent) :=
  match inEvent, storage.getLast? with
  | .key event, some (.key last) =>
    if coalesces fullWidth event last then
      some (storage.dropLast ++ [.key { last with repeatCount := last.repeatCount + event.repeatCount }])
    else none
  | _, _ => none

def writeEvents (initialInEventsSize : Nat) : List ConsoleEvent → List ConsoleEvent → Nat → List ConsoleEvent × Nat
  | storage, [], eventsWritten => (storage, eventsWritten)
  | storage, inEvent :: inEvents, eventsWritten =>
    let coalesced := if initialInEventsSize = 1 then
        (coalesceMouseMovedEvents storage inEvent).or (coalesceRepeatedKeyPressEvents fullWidth storage inEvent)
      else none
    match coalesced with
    | some storage => (storage, 1)
    | none => writeEvents initialInEventsSize (storage ++ [inEvent]) inEvents (eventsWritten + 1)

def writeBuffer (storage inEvents : List ConsoleEvent) : List ConsoleEvent × Nat × Bool :=
  let (newStorage, eventsWritten) := writeEvents fullWidth inEvents.length storage inEvents 0
  (newStorage, eventsWritten, storage.isEmpty && !newStorage.isEmpty)

def write (buffer : InputBuffer) (inEvents : List ConsoleEvent) : InputBuffer × Nat :=
  let (inEvents, suspended) := handleConsoleSuspensionEvents buffer.lineInput buffer.suspended inEvents
  if inEvents.isEmpty then ({ buffer with suspended }, 0)
  else
    let (storage, eventsWritten, _) := writeBuffer fullWidth buffer.storage inEvents
    ({ buffer with storage, suspended }, eventsWritten)

/-! ## Reading -/

/-- One round of `_ReadBuffer`. A stream read splits a key event. -/
def readEvent (streamRead : Bool) (front : ConsoleEvent) (storage : List ConsoleEvent) :
    ConsoleEvent × List ConsoleEvent :=
  match streamRead, front with
  | true, .key event =>
    if event.repeatCount > 1 then
      (.key { event with repeatCount := 1 }, .key { event with repeatCount := event.repeatCount - 1 } :: storage)
    else (.key event, storage)
  | _, event => (event, storage)

/-- A full-width character counts for two, unless in Unicode. -/
def virtualCount (unicode : Bool) : ConsoleEvent → Nat
  | .key event => if !unicode && fullWidth event.charData then 2 else 1
  | _ => 1

/-- The loop of `_ReadBuffer`. A round counts for an event at least. -/
def readEvents (readCount : Nat) (unicode streamRead : Bool) :
    Nat → Nat → List ConsoleEvent → List ConsoleEvent → List ConsoleEvent × List ConsoleEvent
  | 0, _, events, storage => (events, storage)
  | rounds + 1, virtualReadCount, events, storage =>
    match storage with
    | [] => (events, [])
    | front :: storage =>
      if virtualReadCount < readCount then
        let (event, storage) := readEvent streamRead front storage
        readEvents readCount unicode streamRead rounds (virtualReadCount + virtualCount fullWidth unicode event)
          (events ++ [event]) storage
      else (events, front :: storage)

/-- What is put back after a peek. A stream read takes the event for split off if it could be. -/
def putBack (streamRead : Bool) (events storage : List ConsoleEvent) : List ConsoleEvent :=
  if streamRead then
    match events.getLast?, storage with
    | some (.key event), .key front :: rest =>
      if canCoalesce event front then .key { front with repeatCount := front.repeatCount + 1 } :: rest
      else .key event :: .key front :: rest
    | some event, storage => event.recreate :: storage
    | none, storage => storage
  else events.map ConsoleEvent.recreate ++ storage

def readBuffer (readCount : Nat) (peek unicode streamRead : Bool) (storage : List ConsoleEvent) :
    Option (List ConsoleEvent × List ConsoleEvent) :=
  if streamRead ∧ (readCount ≠ 1 ∨ peek ∧ storage = []) then none
  else
    let (events, newStorage) := readEvents fullWidth readCount unicode streamRead readCount 0 [] storage
    some (events, if peek then putBack streamRead events newStorage else newStorage)

inductive ReadStatus where
  | success
  | wait
deriving DecidableEq, Repr

def read (buffer : InputBuffer) (amountToRead : Nat) (peek waitForData unicode stream : Bool) :
    Option (ReadStatus × List ConsoleEvent × InputBuffer) :=
  if buffer.storage.isEmpty then some (if waitForData then .wait else .success, [], buffer)
  else
    (readBuffer fullWidth amountToRead peek unicode stream buffer.storage).map fun (events, storage) =>
      (.success, events, { buffer with storage })

/-! ## The key presses in a list of events -/

/-- A key event with a repeat count of `n` is `n` events of count 1. -/
def keystrokes : ConsoleEvent → List KeyEvent
  | .key event => List.replicate event.repeatCount.toNat { event with repeatCount := 1 }
  | _ => []

def keys (events : List ConsoleEvent) : List KeyEvent := events.flatMap keystrokes

@[simp] theorem keys_nil : keys [] = [] := rfl

@[simp] theorem keys_cons (event : ConsoleEvent) (events : List ConsoleEvent) :
    keys (event :: events) = keystrokes event ++ keys events := rfl

@[simp] theorem keys_append (events events' : List ConsoleEvent) :
    keys (events ++ events') = keys events ++ keys events' :=
  List.flatMap_append

theorem readEvent_keys (streamRead : Bool) (front : ConsoleEvent) (storage : List ConsoleEvent) :
    keystrokes (readEvent streamRead front storage).1 ++ keys (readEvent streamRead front storage).2
      = keys (front :: storage) := by
  cases streamRead with
  | false => cases front <;> rfl
  | true =>
    cases front with
    | key event =>
      rw [readEvent]
      split_ifs with hcount
      · have hsub : event.repeatCount.toNat = 1 + (event.repeatCount - 1).toNat := by
          bv_omega
        rw [keys_cons, keys_cons, keystrokes, keystrokes, keystrokes, hsub, List.replicate_add]
        rfl
      · rfl
    | mouse => rfl
    | windowBufferSize => rfl
    | menu => rfl
    | focus => rfl

variable {fullWidth : Wchar → Bool}

theorem readEvents_keys (readCount : Nat) (unicode streamRead : Bool) (rounds count : Nat)
    (events storage : List ConsoleEvent) :
    let r := readEvents fullWidth readCount unicode streamRead rounds count events storage
    keys r.1 ++ keys r.2 = keys events ++ keys storage := by
  induction rounds generalizing count events storage with
  | zero => rfl
  | succ rounds ih =>
    cases storage with
    | nil => rfl
    | cons front storage =>
      rw [readEvents]
      split_ifs
      · have hevent := readEvent_keys streamRead front storage
        simp only [ih, keys_append, keys_cons, keys_nil, List.append_nil, List.append_assoc]
        rw [hevent, keys_cons]
      · rfl

theorem read_keys (fullWidth : Wchar → Bool) (buffer : InputBuffer) {amount : Nat} (wait unicode : Bool) {stream : Bool}
    (hstream : stream = true → amount = 1) :
    ∃ status events storage,
      buffer.read fullWidth amount false wait unicode stream = some (status, events, { buffer with storage }) ∧
      keys events ++ keys storage = keys buffer.storage := by
  rw [read]
  by_cases hempty : buffer.storage.isEmpty = true
  · rw [if_pos hempty]
    exact ⟨_, [], buffer.storage, rfl, rfl⟩
  · have hok : ¬ (stream = true ∧ (amount ≠ 1 ∨ false = true ∧ buffer.storage = [])) := by
      rintro ⟨hs, hmany | ⟨hpeek, -⟩⟩
      · exact hmany (hstream hs)
      · exact absurd hpeek (by simp)
    rw [if_neg hempty, readBuffer, if_neg hok]
    exact ⟨_, _, _, rfl, readEvents_keys amount unicode stream amount 0 [] buffer.storage⟩

/-! ## Peeking -/

/-- The event is the same after it was a record. -/
def Survives : ConsoleEvent → Prop
  | .key _ | .menu _ => True
  | .mouse event => (-0x8000 ≤ event.position.1 ∧ event.position.1 ≤ 0x7FFF) ∧
      -0x8000 ≤ event.position.2 ∧ event.position.2 ≤ 0x7FFF
  | .windowBufferSize size => (-0x8000 ≤ size.1 ∧ size.1 ≤ 0x7FFF) ∧ -0x8000 ≤ size.2 ∧ size.2 ≤ 0x7FFF
  | .focus _ cameFromApi => cameFromApi = true

theorem recreate_eq_iff (event : ConsoleEvent) : event.recreate = event ↔ Survives event := by
  have hshort : ∀ value, saturatedShort value = value ↔ -0x8000 ≤ value ∧ value ≤ 0x7FFF := by
    intro value
    unfold saturatedShort
    omega
  cases event with
  | mouse event =>
    obtain ⟨position, buttonState, controlKeyState, eventFlags⟩ := event
    simp [ConsoleEvent.recreate, Survives, Prod.ext_iff, hshort]
  | windowBufferSize size => simp [ConsoleEvent.recreate, Survives, Prod.ext_iff, hshort]
  | focus focus cameFromApi => simp [ConsoleEvent.recreate, Survives, eq_comm]
  | _ => simp [ConsoleEvent.recreate, Survives]

theorem virtualCount_pos (unicode : Bool) (event : ConsoleEvent) : 0 < virtualCount fullWidth unicode event := by
  unfold virtualCount
  split
  · split_ifs <;> decide
  · decide

theorem readEvents_recreate_iff {readCount rounds count : Nat} (hrounds : readCount ≤ count + rounds) (unicode : Bool)
    (events storage : List ConsoleEvent) :
    ∃ read rest, readEvents fullWidth readCount unicode false rounds count events storage = (events ++ read, rest) ∧
      (read.map ConsoleEvent.recreate ++ rest = storage ↔ ∀ before event after, storage = before ++ event :: after →
        count + (before.map (virtualCount fullWidth unicode)).sum < readCount → Survives event) := by
  induction rounds generalizing count events storage with
  | zero => exact ⟨[], storage, by simp [readEvents], iff_of_true rfl fun _ _ _ _ _ => by omega⟩
  | succ rounds ih =>
    cases storage with
    | nil => exact ⟨[], [], by simp [readEvents], iff_of_true rfl (by simp)⟩
    | cons front storage =>
      rw [readEvents]
      by_cases hmore : count < readCount
      · have hpos : 0 < virtualCount fullWidth unicode front := virtualCount_pos unicode front
        obtain ⟨read, rest, hread, hiff⟩ := @ih (count + virtualCount fullWidth unicode front) (by omega)
          (events ++ [front]) storage
        refine ⟨front :: read, rest, by simp [hmore, readEvent, hread], ?_⟩
        rw [List.map_cons, List.cons_append, List.cons.injEq, recreate_eq_iff, hiff]
        constructor
        · rintro ⟨hfront, hrest⟩ (_ | ⟨_, before⟩) event after heq hsum
          · exact (List.cons.inj heq).1 ▸ hfront
          · obtain ⟨rfl, htail⟩ := List.cons.inj heq
            exact hrest before event after htail (by simpa [Nat.add_assoc] using hsum)
        · intro h
          refine ⟨h [] front storage rfl (by simpa using hmore), fun before event after heq hsum => ?_⟩
          exact h (front :: before) event after (by simp [heq]) (by simpa [Nat.add_assoc] using hsum)
      · exact ⟨[], front :: storage, by simp [hmore], iff_of_true rfl fun _ _ _ _ _ => by omega⟩

/-- The first event is read whole, and the next one could be the rest of it. -/
def looksSplit : List ConsoleEvent → Bool
  | .key event :: .key next :: _ => if event.repeatCount > 1 then false else canCoalesce event next
  | _ => false

theorem putBack_readEvent_iff (front : ConsoleEvent) (storage : List ConsoleEvent) :
    let r := readEvent true front storage
    putBack true [r.1] r.2 = front :: storage ↔ looksSplit (front :: storage) = false ∧ Survives front := by
  cases front with
  | key event =>
    dsimp only [readEvent]
    by_cases hcount : event.repeatCount > 1
    · have hsplit : looksSplit (.key event :: storage) = false := by
        unfold looksSplit
        split
        · next heq =>
          obtain ⟨rfl⟩ := (List.cons.inj heq).1
          exact if_pos hcount
        · rfl
      rw [if_pos hcount]
      have hcancel : event.repeatCount - 1#16 + 1#16 = event.repeatCount := BitVec.sub_add_cancel _ _
      simp [putBack, canCoalesce, hcancel, hsplit, Survives]
    · rw [if_neg hcount]
      rcases storage with - | ⟨next, storage⟩
      · simp [putBack, looksSplit, Survives, ConsoleEvent.recreate]
      · cases next with
        | key next =>
          rw [looksSplit, if_neg hcount]
          simp [putBack, Survives]
        | _ => simp [putBack, looksSplit, Survives, ConsoleEvent.recreate]
  | _ => simp [readEvent, putBack, looksSplit, recreate_eq_iff]

/-- A peek of records keeps the events that it reads if records can hold them. -/
theorem peek_keeps_storage_iff (fullWidth : Wchar → Bool) (readCount : Nat) (unicode streamRead : Bool)
    (storage : List ConsoleEvent) :
    (∃ events, readBuffer fullWidth readCount true unicode streamRead storage = some (events, storage)) ↔
      if streamRead then
        readCount = 1 ∧ looksSplit storage = false ∧ ∃ front rest, storage = front :: rest ∧ Survives front
      else ∀ before event after, storage = before ++ event :: after →
        (before.map (virtualCount fullWidth unicode)).sum < readCount → Survives event := by
  cases streamRead with
  | false =>
    obtain ⟨read, rest, hread, hiff⟩ := @readEvents_recreate_iff fullWidth readCount readCount 0
      (Nat.le_add_left readCount 0) unicode [] storage
    simpa [readBuffer, hread, putBack] using hiff
  | true =>
    by_cases hfails : readCount ≠ 1 ∨ storage = []
    · rw [readBuffer, if_pos ⟨rfl, hfails.imp_right (⟨rfl, ·⟩)⟩]
      refine iff_of_false (by simp) ?_
      rintro ⟨hone, -, front, rest, rfl, -⟩
      exact hfails.elim (· hone) (List.cons_ne_nil _ _)
    · obtain ⟨hone, hsome⟩ := not_or.1 hfails
      obtain rfl : readCount = 1 := not_not.1 hone
      obtain ⟨front, storage, rfl⟩ := List.exists_cons_of_ne_nil hsome
      have hback := putBack_readEvent_iff front storage
      simpa [readBuffer, readEvents] using hback

/-- Two presses of one key that were written together are one afterwards. -/
theorem peek_merges_events :
    let event : KeyEvent := { keyDown := true, repeatCount := 1, virtualKeyCode := 0x41, charData := 0x61 }
    readBuffer (fun _ => false) 1 true true true [.key event, .key event] =
      some ([.key event], [.key { event with repeatCount := 2 }]) := by
  decide

/-! ## Merging -/

theorem handleConsoleSuspensionEvents_eq {lineInput : Bool} {inEvents : List ConsoleEvent}
    (h : ∀ inEvent ∈ inEvents, ∀ event ∈ inEvent.asKey, event.keyDown = true → lineInput = true →
      isPauseKey event = false) :
    handleConsoleSuspensionEvents lineInput false inEvents = (inEvents, false) := by
  induction inEvents with
  | nil => rfl
  | cons inEvent inEvents ih =>
    have ih := ih fun event hevent => h event (List.mem_cons_of_mem _ hevent)
    cases inEvent with
    | key event =>
      have hpause := h (.key event) List.mem_cons_self event rfl
      rw [handleConsoleSuspensionEvents, if_neg (by simp), if_neg, ih]
      rintro ⟨hdown, hline, hkey⟩
      rw [hpause hdown hline] at hkey
      exact absurd hkey (by decide)
    | mouse => simp only [handleConsoleSuspensionEvents, ih]
    | windowBufferSize => simp only [handleConsoleSuspensionEvents, ih]
    | menu => simp only [handleConsoleSuspensionEvents, ih]
    | focus => simp only [handleConsoleSuspensionEvents, ih]

theorem writeEvents_batch {size : Nat} (hsize : size ≠ 1) (storage inEvents : List ConsoleEvent) (eventsWritten : Nat) :
    (writeEvents fullWidth size storage inEvents eventsWritten).1 = storage ++ inEvents := by
  induction inEvents generalizing storage eventsWritten with
  | nil => simp [writeEvents]
  | cons event inEvents ih => simp [writeEvents, hsize, ih]

theorem replicate_append_eq_iff {α : Type} (a b c : Nat) (x y : α) :
    List.replicate a x ++ List.replicate b y = List.replicate c x ↔ a + b = c ∧ (b = 0 ∨ y = x) := by
  rw [List.append_eq_replicate_iff]
  simp

def singleKey : List ConsoleEvent → Option KeyEvent
  | [.key event] => some event
  | _ => none

/-- A key event that is merged is for the same key, and the count fits. -/
def KeepsKeys (fullWidth : Wchar → Bool) (storage inEvents : List ConsoleEvent) : Prop :=
  ∀ event ∈ singleKey inEvents, ∀ last ∈ storage.getLast?.bind ConsoleEvent.asKey,
    coalesces fullWidth event last = true →
    event.repeatCount = 0 ∨ event.virtualKeyCode = last.virtualKeyCode ∧ event.virtualScanCode = last.virtualScanCode ∧
      last.repeatCount.toNat + event.repeatCount.toNat < 2 ^ 16

instance (fullWidth : Wchar → Bool) (storage inEvents : List ConsoleEvent) :
    Decidable (KeepsKeys fullWidth storage inEvents) :=
  inferInstanceAs (Decidable (∀ _ ∈ _, ∀ _ ∈ _, _ → _))

theorem keepsKeys_of_not_merged {fullWidth : Wchar → Bool} {storage : List ConsoleEvent} {inEvents : List ConsoleEvent}
    (h : ∀ event last, inEvents = [.key event] → storage.getLast? = some (.key last) →
      coalesces fullWidth event last = false) :
    KeepsKeys fullWidth storage inEvents := by
  intro event hevent last hlast hcoalesces
  have hsingle : inEvents = [.key event] := by
    unfold singleKey at hevent
    split at hevent
    · rw [Option.mem_some_iff.1 hevent]
    · exact absurd hevent (by simp)
  obtain ⟨lastEvent, hlastEvent, hkey⟩ := Option.bind_eq_some_iff.1 hlast
  cases lastEvent with
  | key lastKey =>
    obtain rfl := Option.some.inj hkey
    exact absurd hcoalesces (by simp [h event lastKey hsingle hlastEvent])
  | mouse => exact absurd hkey (by simp [ConsoleEvent.asKey])
  | windowBufferSize => exact absurd hkey (by simp [ConsoleEvent.asKey])
  | menu => exact absurd hkey (by simp [ConsoleEvent.asKey])
  | focus => exact absurd hkey (by simp [ConsoleEvent.asKey])

theorem coalesces_alike {event last : KeyEvent} (h : coalesces fullWidth event last = true) :
    event.keyDown = last.keyDown ∧ event.charData = last.charData ∧ event.activeModifierKeys =
      last.activeModifierKeys := by
  simp only [coalesces, canCoalesce, Bool.and_eq_true] at h
  obtain ⟨⟨⟨hevent, hlast⟩, -⟩, hsame⟩ := h
  refine ⟨hevent.trans hlast.symm, ?_⟩
  split_ifs at hsame with hime
  · exact hime.2
  · exact (of_decide_eq_true hsame).2

theorem merged_keys_iff {event last : KeyEvent} (h : coalesces fullWidth event last = true)
    (storage : List ConsoleEvent) :
    keys (storage ++ [.key { last with repeatCount := last.repeatCount + event.repeatCount }]) =
        keys (storage ++ [.key last]) ++ keys [.key event] ↔
      event.repeatCount = 0 ∨ event.virtualKeyCode = last.virtualKeyCode ∧ event.virtualScanCode =
        last.virtualScanCode ∧
        last.repeatCount.toNat + event.repeatCount.toNat < 2 ^ 16 := by
  obtain ⟨hdown, hchar, hmodifiers⟩ := coalesces_alike h
  have halike : ({ event with repeatCount := 1 } : KeyEvent) = { last with repeatCount := 1 } ↔
      event.virtualKeyCode = last.virtualKeyCode ∧ event.virtualScanCode = last.virtualScanCode := by
    simp [hdown, hchar, hmodifiers]
  have hzero : event.repeatCount.toNat = 0 ↔ event.repeatCount = 0 := by
    rw [← BitVec.toNat_inj]
    rfl
  have hfits : last.repeatCount.toNat + event.repeatCount.toNat = (last.repeatCount + event.repeatCount).toNat ↔
      last.repeatCount.toNat + event.repeatCount.toNat < 2 ^ 16 := by
    rw [BitVec.toNat_add]
    omega
  simp only [keys_append, keys_cons, keys_nil, List.append_nil, List.append_assoc, List.append_cancel_left_eq]
  rw [eq_comm]
  simp only [keystrokes]
  rw [replicate_append_eq_iff, halike, hfits, ← hzero]
  constructor
  · rintro ⟨hsum, hnone | ⟨hkey, hscan⟩⟩
    · exact .inl hnone
    · exact .inr ⟨hkey, hscan, hsum⟩
  · rintro (hnone | ⟨hkey, hscan, hsum⟩)
    · exact ⟨by omega, .inl hnone⟩
    · exact ⟨hsum, .inr ⟨hkey, hscan⟩⟩

theorem coalesceMouseMovedEvents_keys {storage newStorage : List ConsoleEvent} {inEvent : ConsoleEvent}
    (h : coalesceMouseMovedEvents storage inEvent = some newStorage) :
    keys newStorage = keys storage ++ keys [inEvent] := by
  unfold coalesceMouseMovedEvents at h
  split at h
  · rename_i event last hlast
    split_ifs at h
    obtain rfl := Option.some.inj h
    obtain ⟨init, rfl⟩ := List.getLast?_eq_some_iff.1 hlast
    simp [keystrokes]
  · exact absurd h (by simp)

theorem writeEvents_single (storage : List ConsoleEvent) (event : ConsoleEvent) :
    (writeEvents fullWidth 1 storage [event] 0).1 =
      ((coalesceMouseMovedEvents storage event).or (coalesceRepeatedKeyPressEvents fullWidth storage event)).getD
        (storage ++ [event]) := by
  rw [writeEvents]
  cases (coalesceMouseMovedEvents storage event).or (coalesceRepeatedKeyPressEvents fullWidth storage event) <;> rfl

theorem writeEvents_single_keys_iff (storage : List ConsoleEvent) (inEvent : ConsoleEvent) :
    keys (writeEvents fullWidth 1 storage [inEvent] 0).1 = keys storage ++ keys [inEvent] ↔
      KeepsKeys fullWidth storage [inEvent] := by
  rw [writeEvents_single]
  cases hmouse : coalesceMouseMovedEvents storage inEvent with
  | some newStorage =>
    refine iff_of_true (coalesceMouseMovedEvents_keys hmouse) (keepsKeys_of_not_merged ?_)
    rintro event last heq
    obtain rfl : inEvent = .key event := by simpa using heq
    exact absurd hmouse (by simp [coalesceMouseMovedEvents])
  | none =>
    by_cases hmerged : ∃ event last, inEvent = .key event ∧ storage.getLast? = some (.key last) ∧
        coalesces fullWidth event last = true
    · obtain ⟨event, last, rfl, hlast, hcoalesces⟩ := hmerged
      have hmerge : coalesceRepeatedKeyPressEvents fullWidth storage (.key event) =
          some (storage.dropLast ++ [.key { last with repeatCount := last.repeatCount + event.repeatCount }]) := by
        simp [coalesceRepeatedKeyPressEvents, hlast, hcoalesces]
      have hkeeps : KeepsKeys fullWidth storage [.key event] ↔ event.repeatCount = 0 ∨
          event.virtualKeyCode = last.virtualKeyCode ∧ event.virtualScanCode = last.virtualScanCode ∧
          last.repeatCount.toNat + event.repeatCount.toNat < 2 ^ 16 := by
        simp [KeepsKeys, singleKey, ConsoleEvent.asKey, hlast, hcoalesces]
      rw [hkeeps, hmerge]
      obtain ⟨init, rfl⟩ := List.getLast?_eq_some_iff.1 hlast
      rw [List.dropLast_concat]
      exact merged_keys_iff hcoalesces init
    · have hnone : coalesceRepeatedKeyPressEvents fullWidth storage inEvent = none := by
        unfold coalesceRepeatedKeyPressEvents
        split
        · rename_i event last hlast
          exact if_neg fun hcoalesces => hmerged ⟨event, last, rfl, hlast, hcoalesces⟩
        · rfl
      rw [hnone]
      refine iff_of_true (keys_append storage [inEvent]) (keepsKeys_of_not_merged ?_)
      intro event last heq hlast
      exact Bool.eq_false_iff.2 fun hcoalesces => hmerged ⟨event, last, List.head_eq_of_cons_eq heq, hlast, hcoalesces⟩

theorem write_keys_iff (fullWidth : Wchar → Bool) {buffer : InputBuffer}
    {inEvents : List ConsoleEvent} (hsuspended : buffer.suspended = false)
    (hpause : ∀ inEvent ∈ inEvents, ∀ event ∈ inEvent.asKey,
      event.keyDown = true → buffer.lineInput = true → isPauseKey event = false) :
    ∃ storage, (buffer.write fullWidth inEvents).1 = { buffer with storage } ∧
      (keys storage = keys buffer.storage ++ keys inEvents ↔ KeepsKeys fullWidth buffer.storage inEvents) := by
  have hwrite : (buffer.write fullWidth inEvents).1 =
      { buffer with storage := (writeEvents fullWidth inEvents.length buffer.storage inEvents 0).1 } := by
    obtain ⟨storage, lineInput, suspended⟩ := buffer
    obtain rfl : suspended = false := hsuspended
    rw [write, handleConsoleSuspensionEvents_eq hpause]
    cases inEvents with
    | nil => rfl
    | cons => rfl
  refine ⟨_, hwrite, ?_⟩
  by_cases hone : inEvents.length = 1
  · obtain ⟨inEvent, rfl⟩ := List.length_eq_one_iff.1 hone
    exact writeEvents_single_keys_iff buffer.storage inEvent
  · rw [writeEvents_batch hone]
    refine iff_of_true (keys_append _ _) (keepsKeys_of_not_merged ?_)
    rintro event last rfl
    exact absurd rfl hone

end InputBuffer

/-! ## Sequences of calls -/

/-- `Write` and `Read`, in Unicode without peeking. -/
inductive InputCall where
  | write (inEvents : List ConsoleEvent)
  | read (amountToRead : Nat) (waitForData : Bool)
  | readStream (waitForData : Bool)
deriving DecidableEq, Repr

structure InputSession where
  buffer : InputBuffer
  written : List ConsoleEvent
  readEvents : List ConsoleEvent

namespace InputSession

open InputBuffer

variable (fullWidth : Wchar → Bool)

def start (buffer : InputBuffer) : InputSession := ⟨buffer, buffer.storage, []⟩

def call (s : InputSession) : InputCall → Option InputSession
  | .write inEvents => some { s with buffer := (s.buffer.write fullWidth inEvents).1, written := s.written ++ inEvents }
  | .read amountToRead waitForData =>
    (s.buffer.read fullWidth amountToRead false waitForData true false).map fun (_, events, buffer) =>
      { s with buffer, readEvents := s.readEvents ++ events }
  | .readStream waitForData =>
    (s.buffer.read fullWidth 1 false waitForData true true).map fun (_, events, buffer) =>
      { s with buffer, readEvents := s.readEvents ++ events }

/-- The keys read and those stored are the keys written. -/
def Conserved (s : InputSession) : Prop := keys s.readEvents ++ keys s.buffer.storage = keys s.written

instance (s : InputSession) : Decidable s.Conserved := inferInstanceAs (Decidable (_ = _))

/-- No key of the call suspends or resumes the console. -/
def NoPause (lineInput : Bool) : InputCall → Prop
  | .write inEvents =>
    ∀ inEvent ∈ inEvents, ∀ event ∈ inEvent.asKey, event.keyDown = true → lineInput = true → isPauseKey event = false
  | _ => True

def Keeps (s : InputSession) : InputCall → Prop
  | .write inEvents => KeepsKeys fullWidth s.buffer.storage inEvents
  | _ => True

instance (lineInput : Bool) : ∀ op, Decidable (NoPause lineInput op)
  | .write _ => inferInstanceAs (Decidable (∀ _ ∈ _, ∀ _ ∈ _, _ → _ → _))
  | .read .. => .isTrue trivial
  | .readStream _ => .isTrue trivial

instance (s : InputSession) : ∀ op, Decidable (s.Keeps fullWidth op)
  | .write _ => inferInstanceAs (Decidable (KeepsKeys _ _ _))
  | .read .. => .isTrue trivial
  | .readStream _ => .isTrue trivial

variable {fullWidth} {s : InputSession}

theorem call_read (op : InputCall) (amount : Nat) (wait stream : Bool) (hstream : stream = true → amount = 1)
    (hop : s.call fullWidth op = (s.buffer.read fullWidth amount false wait true stream).map fun (_, events, buffer) =>
        { s with buffer, readEvents := s.readEvents ++ events })
    (hs : s.Conserved) :
    ∃ s', s.call fullWidth op = some s' ∧ s'.buffer.suspended = s.buffer.suspended ∧
      s'.buffer.lineInput = s.buffer.lineInput ∧ s'.Conserved := by
  obtain ⟨status, events, storage, hread, hkeys⟩ := read_keys fullWidth s.buffer wait true hstream
  rw [hop, hread]
  refine ⟨_, rfl, rfl, rfl, ?_⟩
  rw [Conserved, keys_append, List.append_assoc, hkeys]
  exact hs

theorem call_iff (fullWidth : Wchar → Bool) {lineInput : Bool} {op : InputCall} (hs : s.Conserved)
    (hsuspended : s.buffer.suspended = false) (hline : s.buffer.lineInput = lineInput) (hpause : NoPause lineInput op) :
    ∃ s', s.call fullWidth op = some s' ∧ s'.buffer.suspended = false ∧ s'.buffer.lineInput = lineInput ∧
      (s'.Conserved ↔ s.Keeps fullWidth op) := by
  subst hline
  rw [← hsuspended]
  cases op with
  | write inEvents =>
    obtain ⟨storage, hwrite, hiff⟩ := write_keys_iff fullWidth hsuspended hpause
    refine ⟨_, rfl, ?_⟩
    rw [Keeps, ← hiff, Conserved, hwrite, keys_append, ← hs, List.append_assoc, List.append_cancel_left_eq]
    exact ⟨rfl, rfl, Iff.rfl⟩
  | read amount wait =>
    obtain ⟨s', hcall, hsame, hline, hs'⟩ := call_read (.read amount wait) amount wait false (by simp) rfl hs
    exact ⟨s', hcall, hsame, hline, iff_of_true hs' trivial⟩
  | readStream wait =>
    obtain ⟨s', hcall, hsame, hline, hs'⟩ := call_read (.readStream wait) 1 wait true (fun _ => rfl) rfl hs
    exact ⟨s', hcall, hsame, hline, iff_of_true hs' trivial⟩

/-- Keys are conserved just if each merge is of the same key and fits. -/
theorem conserved_iff (fullWidth : Wchar → Bool) (buffer : InputBuffer) (calls : List InputCall)
    (hsuspended : buffer.suspended = false) (hpause : ∀ op ∈ calls, NoPause buffer.lineInput op) :
    (∀ calls', calls' <+: calls → ∃ s, Steps.run (call fullWidth) (start buffer) calls' = some s ∧ s.Conserved) ↔
      Steps.Along (call fullWidth) (Keeps fullWidth) (start buffer) calls := by
  have hstart : (start buffer).Conserved := rfl
  let Q : InputSession → InputCall → Prop := fun s op => NoPause buffer.lineInput op ∧ s.Keeps fullWidth op
  let I : InputSession → Prop := fun s => s.Conserved ∧ s.buffer.suspended = false ∧
    s.buffer.lineInput = buffer.lineInput
  have hkeep : ∀ s op s', I s → Q s op → s.call fullWidth op = some s' → I s' := by
    rintro s op s' ⟨hs, hs₁, hs₂⟩ ⟨hop, hkeeps⟩ hcall
    obtain ⟨s₁, hcall₁, h₁, h₂, hiff⟩ := call_iff fullWidth hs hs₁ hs₂ hop
    obtain rfl := Option.some.inj (hcall₁.symm.trans hcall)
    exact ⟨hiff.2 hkeeps, h₁, h₂⟩
  have hstep : ∀ s op, I s → ((NoPause buffer.lineInput op ∧ ∃ s', s.call fullWidth op = some s' ∧
    s'.Conserved) ↔ Q s op) := by
    rintro s op ⟨hs, hs₁, hs₂⟩
    refine and_congr_right fun hop => ?_
    obtain ⟨s₁, hcall, -, -, hiff⟩ := call_iff fullWidth hs hs₁ hs₂ hop
    rw [hcall, ← hiff]
    simp
  rw [Steps.forall_prefix_iff, and_iff_right hstart]
  calc Steps.Along (call fullWidth) (fun s op => ∃ s', s.call fullWidth op = some s' ∧ s'.Conserved)
        (start buffer) calls ↔ Steps.Along (call fullWidth)
          (fun s op => NoPause buffer.lineInput op ∧ ∃ s', s.call fullWidth op = some s' ∧
            s'.Conserved) (start buffer) calls :=
        Steps.along_congr fun s op hop => (and_iff_right (hpause op hop)).symm
    _ ↔ Steps.Along (call fullWidth) Q (start buffer) calls :=
        Steps.along_congr_of_keeps hkeep hstep ⟨hstart, hsuspended, rfl⟩
    _ ↔ _ := Steps.along_congr fun s op hop => and_iff_right (hpause op hop)

theorem conserved_held :
    let press : ConsoleEvent := .key ⟨true, 1, 0x41, 0x1E, 0x61, 0⟩
    let release : ConsoleEvent := .key ⟨false, 1, 0x41, 0x1E, 0x61, 0⟩
    ∃ s, Steps.run (call fun _ => false) (start ⟨[], true, false⟩)
      [.write [press], .write [press], .readStream false, .write [release]] = some s ∧ s.Conserved := by
  intro press release
  have hall := (conserved_iff (fun _ => false) ⟨[], true, false⟩
    [.write [press], .write [press], .readStream false, .write [release]] rfl (by decide)).2 (by decide)
  exact hall _ (List.prefix_refl _)

/-- Two keys not told apart, and a count that wraps around. -/
theorem not_conserved_merged : (∃ s, Steps.run (call fun _ => false) (start ⟨[], true, false⟩)
        [.write [.key ⟨true, 1, 0x7C, 0, 0, 0⟩], .write [.key ⟨true, 1, 0x7D, 0, 0, 0⟩]] = some s ∧
      s.buffer.storage = [.key ⟨true, 2, 0x7C, 0, 0, 0⟩] ∧ ¬ s.Conserved) ∧
    ∃ s, Steps.run (call fun _ => false) (start ⟨[], true, false⟩)
        [.write [.key ⟨true, 0xFFFF, 0x41, 0x1E, 0x61, 0⟩], .write [.key ⟨true, 1, 0x41, 0x1E, 0x61, 0⟩]] = some s ∧
      s.buffer.storage = [.key ⟨true, 0, 0x41, 0x1E, 0x61, 0⟩] ∧ ¬ s.Conserved := by
  refine ⟨⟨_, rfl, rfl, by decide⟩, ⟨_, rfl, rfl, ?_⟩⟩
  -- Nothing is stored any more of what was written.
  intro hconserved
  have hnone : keys ([.key ⟨true, 0xFFFF, 0x41, 0x1E, 0x61, 0⟩] ++
    [.key ⟨true, 1, 0x41, 0x1E, 0x61, 0⟩]) = [] := hconserved.symm
  rw [keys_append, List.append_eq_nil_iff] at hnone
  exact absurd hnone.2 (by decide)

end InputSession

end Terminal.Host
