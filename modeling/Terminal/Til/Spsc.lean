import Mathlib.Logic.Function.Basic
import Mathlib.Data.List.Infix

/-!
# The single-producer single-consumer channel (`spsc.h`)

A ring of slots and two words, with the position of each side, a revolution flag and a drop flag.
Calls are cut into atomic steps, which interleave: `acquire` (the load of the other word), the
copy, move or destruction of one slot, `release`, and the store and the exchange of `drop`.
-/

namespace Terminal.Til.Spsc

abbrev SizeType := BitVec 32

def positionMask : SizeType := BitVec.allOnes 32 >>> 2
def revolutionFlag : SizeType := 1 <<< 30
def dropFlag : SizeType := 1 <<< 31

structure Acquisition where
  first : SizeType
  last : SizeType
  next : SizeType
  alive : Bool
  deriving DecidableEq, Repr

/-- `arc`. A slot is `none` while it is raw memory. -/
structure Arc (T : Type) where
  data : Nat → Option T
  capacity : SizeType
  eitherSideDropped : Bool := false
  producer : SizeType := 0
  consumer : SizeType := 0

/-! ## `arc` -/

section

variable {T : Type}

def acquireRange (capacity mine theirs slots : SizeType) : Acquisition :=
  let first := mine &&& positionMask
  let last := theirs &&& positionMask
  let last := if last > first then last else capacity
  let last := if first + slots < last then first + slots else last
  let revolution := mine &&& revolutionFlag
  let next := if last ≠ capacity then last ||| revolution else revolution ^^^ revolutionFlag
  ⟨first, last, next, true⟩

def acquire (capacity mine theirs waitMask slots : SizeType) (blocking : Bool) : Option Acquisition :=
  if mine ^^^ theirs = waitMask then
    if blocking then none else some ⟨0, 0, 0, true⟩
  else if theirs &&& dropFlag ≠ 0 ∧ (waitMask ≠ 0 ∨ mine ^^^ theirs = dropFlag) then
    some ⟨0, 0, 0, false⟩
  else some (acquireRange capacity mine theirs slots)

def Arc.producerAcquire (arc : Arc T) (slots : SizeType) (blocking : Bool) : Option Acquisition :=
  acquire arc.capacity arc.producer arc.consumer revolutionFlag slots blocking

def Arc.consumerAcquire (arc : Arc T) (slots : SizeType) (blocking : Bool) : Option Acquisition :=
  acquire arc.capacity arc.consumer arc.producer 0 slots blocking

def Arc.destroyedSlots (arc : Arc T) : List Nat :=
  let first := arc.consumer
  let last := arc.producer
  let differentRevolution := (first ^^^ last) &&& revolutionFlag ≠ 0
  let first := (first &&& positionMask).toNat
  let last := (last &&& positionMask).toNat
  if last > first then List.range' first (last - first)
  else if differentRevolution then
    List.range last ++ List.range' first (arc.capacity.toNat - first)
  else []

end

/-! ## The calls in progress -/

/-- Between calls, in the loop of `push_n`, or in `drop` after its store. -/
inductive Sender (T : Type) where
  | idle (result : Nat × Bool)
  | acquiring (count : Nat) (rest : List T) (forever blocking : Bool)
  | copying (count : Nat) (rest : List T) (forever : Bool) (acquisition : Acquisition) (slot : Nat)
  | dropping
  | dropped

/-- `pop_n` moves all values of its acquisition out before it destroys them. -/
inductive Receiver where
  | idle (result : Nat × Bool)
  | acquiring (count : Nat) (remaining : SizeType) (forever blocking : Bool)
  | moving (count : Nat) (remaining : SizeType) (forever : Bool) (acquisition : Acquisition) (slot : Nat)
  | destroying (count : Nat) (remaining : SizeType) (forever : Bool) (acquisition : Acquisition) (slot : Nat)
  | dropping
  | dropped

def Sender.isDropped {T : Type} : Sender T → Bool
  | .dropping | .dropped => true
  | _ => false

def Receiver.isDropped : Receiver → Bool
  | .dropping | .dropped => true
  | _ => false

def Sender.isGone {T : Type} : Sender T → Bool
  | .dropped => true
  | _ => false

def Receiver.isGone : Receiver → Bool
  | .dropped => true
  | _ => false

/-- `destroyedBy` is what the destructor of the arc destroyed. -/
structure System (T : Type) extends Arc T where
  sender : Sender T := .idle (0, true)
  receiver : Receiver := .idle (0, true)
  pushed : List T := []
  popped : List T := []
  destroyedBy : Option (List Nat) := none

section

variable {T : Type}

def channel (capacity : SizeType) : Option (System T) :=
  if capacity = 0 then none else some { data := fun _ => none, capacity := capacity }

def pushLoop (count : Nat) (rest : List T) (forever blocking : Bool) : Sender T :=
  if rest = [] then .idle (count, true) else .acquiring count rest forever blocking

/-- `push_n`, as `push` and `emplace`; throws for too many values. -/
def System.pushN (forever : Bool) (values : List T) (s : System T) : System T :=
  match s.sender with
  | .idle _ =>
    if values.length > positionMask.toNat then s
    else { s with sender := pushLoop values.length values forever true }
  | _ => s

def System.dropProducer (s : System T) : System T :=
  match s.sender with
  | .idle _ => { s with producer := s.producer ||| dropFlag, sender := .dropping }
  | _ => s

/-- In `drop`, the second side to get here deletes the arc. -/
def System.exchangeDropped (s : System T) : System T :=
  if s.eitherSideDropped then { s with destroyedBy := some s.destroyedSlots }
  else { s with eitherSideDropped := true }

def System.producerStep (s : System T) : System T :=
  match s.sender with
  | .idle _ | .dropped => s
  | .acquiring count rest forever blocking =>
    match s.producerAcquire (BitVec.ofNat 32 rest.length) blocking with
    | none => s
    | some a =>
      if a.last = 0 then { s with sender := .idle (count - rest.length, a.alive) }
      else { s with sender := .copying count rest forever a a.first.toNat }
  | .copying count rest forever a slot =>
    if slot < a.last.toNat then
      match rest with
      | [] => s
      | value :: rest =>
        { s with
          data := Function.update s.data slot (some value)
          sender := .copying count rest forever a (slot + 1)
          pushed := s.pushed ++ [value] }
    else { s with producer := a.next, sender := pushLoop count rest forever forever }
  | .dropping => { s.exchangeDropped with sender := .dropped }

def popLoop (count : Nat) (remaining : SizeType) (forever blocking : Bool) : Receiver :=
  if remaining = 0 then .idle (count, true) else .acquiring count remaining forever blocking

/-- `pop_n`, which `pop` amounts to; throws for too many values. -/
def System.popN (forever : Bool) (count : Nat) (s : System T) : System T :=
  match s.receiver with
  | .idle _ =>
    if count > positionMask.toNat then s
    else { s with receiver := popLoop count (BitVec.ofNat 32 count) forever true }
  | _ => s

def System.dropConsumer (s : System T) : System T :=
  match s.receiver with
  | .idle _ => { s with consumer := s.consumer ||| dropFlag, receiver := .dropping }
  | _ => s

def System.consumerStep (s : System T) : System T :=
  match s.receiver with
  | .idle _ | .dropped => s
  | .acquiring count remaining forever blocking =>
    match s.consumerAcquire remaining blocking with
    | none => s
    | some a =>
      if a.last = 0 then { s with receiver := .idle (count - remaining.toNat, a.alive) }
      else { s with receiver := .moving count remaining forever a a.first.toNat }
  | .moving count remaining forever a slot =>
    if slot < a.last.toNat then
      match s.data slot with
      -- moving out of raw memory is undefined: there is no next state
      | none => s
      | some value =>
        { s with
          receiver := .moving count remaining forever a (slot + 1)
          popped := s.popped ++ [value] }
    else { s with receiver := .destroying count remaining forever a a.first.toNat }
  | .destroying count remaining forever a slot =>
    if slot < a.last.toNat then
      { s with
        data := Function.update s.data slot none
        receiver := .destroying count remaining forever a (slot + 1) }
    else
      { s with
        consumer := a.next
        receiver := popLoop count (remaining - (a.last - a.first)) forever forever }
  | .dropping => { s.exchangeDropped with receiver := .dropped }

/-! ## Runs -/

inductive Action (T : Type) where
  | pushN (forever : Bool) (values : List T)
  | dropProducer
  | producerStep
  | popN (forever : Bool) (count : Nat)
  | dropConsumer
  | consumerStep

def System.step (s : System T) : Action T → System T
  | .pushN forever values => s.pushN forever values
  | .dropProducer => s.dropProducer
  | .producerStep => s.producerStep
  | .popN forever count => s.popN forever count
  | .dropConsumer => s.dropConsumer
  | .consumerStep => s.consumerStep

def System.run (s : System T) (actions : List (Action T)) : System T := actions.foldl System.step s

/-! ## What a channel promises -/

structure System.Safe (s : System T) : Prop where
  /-- The values arrive in order, none lost or repeated. -/
  popped_prefix : s.popped <+: s.pushed
  writes_free : ∀ count rest forever a slot, s.sender = .copying count rest forever a slot →
    slot < a.last.toNat → slot < s.capacity.toNat ∧ s.data slot = none
  reads_next : ∀ count remaining forever a slot, s.receiver = .moving count remaining forever a slot →
    slot < a.last.toNat → (s.data slot).isSome ∧ s.data slot = s.pushed[s.popped.length]?
  destroys_live : ∀ count remaining forever a slot, s.receiver = .destroying count remaining forever a slot →
    slot < a.last.toNat → (s.data slot).isSome
  /-- A closed channel is reported after all values. -/
  told_closed : ∀ n, s.receiver = .idle (n, false) → s.sender.isDropped ∧ s.popped = s.pushed
  /-- Once the producer is dropped, the consumer gets the values that are left, and then the
  report that the channel is closed. -/
  drains : ∀ count remaining forever blocking, s.sender.isDropped →
    s.receiver = .acquiring count remaining forever blocking →
    ∃ a, s.consumerAcquire remaining blocking = some a ∧ (a.last = 0 ↔ s.popped = s.pushed) ∧
      (a.last = 0 ↔ a.alive = false)
  deleted : s.destroyedBy.isSome ↔ s.sender.isGone ∧ s.receiver.isGone
  destroys_rest : ∀ slots, s.destroyedBy = some slots → slots.Nodup ∧ ∀ slot, slot ∈ slots ↔ (s.data slot).isSome

end

end Terminal.Til.Spsc
