import Mathlib.Logic.Function.Basic
import Mathlib.Data.List.Basic

/-!
# Storage of objects

Each slot has no object, an object, or one that has been moved from. What the language leaves
undefined (an access outside of the block, a use of no object) has no result.
-/

namespace Storage

inductive Slot (α : Type) where
  | raw
  | moved
  | alive (value : α)
deriving DecidableEq, Repr

structure Block (α : Type) where
  length : Nat
  slot : Nat → Slot α

namespace Block

variable {α : Type}

def allocate (length : Nat) : Block α := ⟨length, fun _ => .raw⟩

/-! ## One slot -/

variable (b : Block α) (i : Nat)

def set (s : Slot α) : Block α := { b with slot := Function.update b.slot i s }

@[simp] theorem set_length (s : Slot α) : (b.set i s).length = b.length := rfl

def read : Option α :=
  match b.slot i with
  | .alive a => if i < b.length then some a else none
  | _ => none

def construct (a : α) : Option (Block α) :=
  if i < b.length then some (b.set i (.alive a)) else none

def assign (a : α) : Option (Block α) :=
  match b.slot i with
  | .raw => none
  | _ => b.construct i a

def destroyAt : Option (Block α) :=
  match b.slot i with
  | .raw => none
  | _ => if i < b.length then some (b.set i .raw) else none

def moveOut : Option (α × Block α) := (b.read i).map fun a => (a, b.set i .moved)

/-! ## Ranges -/

def destroy (b : Block α) (first : Nat) : Nat → Option (Block α)
  | 0 => some b
  | n + 1 => (b.destroyAt first).bind fun b => destroy b (first + 1) n

def constructAll (b : Block α) (first : Nat) : List α → Option (Block α)
  | [] => some b
  | a :: as => (b.construct first a).bind fun b => constructAll b (first + 1) as

def values (b : Block α) (first : Nat) : Nat → Option (List α)
  | 0 => some []
  | n + 1 => (b.read first).bind fun a => (values b (first + 1) n).map (a :: ·)

def relocate (src dst : Block α) : Nat → Option (Block α × Block α)
  | 0 => some (src, dst)
  | n + 1 =>
    (relocate src dst n).bind fun (src, dst) =>
      (src.moveOut n).bind fun (a, src) => (dst.construct n a).map fun dst => (src, dst)

/-- Steps inside of a block, each from its first slot to its second. -/
def moveEach (step : Block α → Nat → Nat → Option (Block α)) : List (Nat × Nat) → Block α → Option (Block α)
  | [], b => some b
  | move :: moves, b => (step b move.1 move.2).bind (moveEach step moves)

def moveConstruct (i j : Nat) : Option (Block α) :=
  (b.moveOut i).bind fun (a, b) => b.construct j a

/-- Assigned from itself, an object holds what its type leaves. -/
def moveAssign (selfMove : α → Slot α) (b : Block α) (i j : Nat) : Option (Block α) :=
  if i = j then (b.read i).map fun a => b.set i (selfMove a)
  else (b.moveOut i).bind fun (a, b) => b.assign j a

def shifts (first n dest : Nat) : List (Nat × Nat) := (List.range n).map fun i => (first + i, dest + i)

def uninitializedMove (first n dest : Nat) : Option (Block α) :=
  moveEach moveConstruct (shifts first n dest) b

def move (selfMove : α → Slot α) (b : Block α) (first n dest : Nat) : Option (Block α) :=
  moveEach (moveAssign selfMove) (shifts first n dest) b

def moveBackward (selfMove : α → Slot α) (b : Block α) (first n dest : Nat) : Option (Block α) :=
  moveEach (moveAssign selfMove) (shifts first n dest).reverse b

/-- The bytes of a range, copied as if through a buffer. -/
def memmove (first n dest : Nat) : Option (Block α) :=
  if first + n ≤ b.length ∧ dest + n ≤ b.length then
    some { b with slot := fun j => if dest ≤ j ∧ j < dest + n then b.slot (first + (j - dest)) else b.slot j }
  else none

/-! ## What the ranges hold -/

def Holds (first : Nat) (as : List α) : Prop :=
  first + as.length ≤ b.length ∧ ∀ i, ∀ a, as[i]? = some a → b.slot (first + i) = .alive a

def fill (first n : Nat) (s : Slot α) : Block α :=
  { b with slot := fun j => if first ≤ j ∧ j < first + n then s else b.slot j }

def write (first : Nat) (as : List α) : Block α :=
  { b with
    slot := fun j => if first ≤ j then (as[j - first]?).elim (b.slot j) .alive else b.slot j }

variable {b b' : Block α} {first n dest j : Nat} {as : List α} {moves : List (Nat × Nat)}

theorem ext_slot (hlength : b.length = b'.length) (hslot : ∀ j, b.slot j = b'.slot j) : b = b' := by
  cases b
  cases b'
  simp only [mk.injEq] at *
  exact ⟨hlength, funext hslot⟩

theorem fill_zero (b : Block α) (first : Nat) (s : Slot α) : b.fill first 0 s = b := by
  refine ext_slot rfl fun j => ?_
  exact if_neg (by omega)

theorem write_nil (b : Block α) (first : Nat) : b.write first [] = b := by
  simp [write]

theorem set_slot (b : Block α) (i j : Nat) (s : Slot α) : (b.set i s).slot j = if j = i then s else b.slot j :=
  Function.update_apply ..

theorem read_alive {i : Nat} {a : α} (h : b.slot i = .alive a) (hi : i < b.length) : b.read i = some a := by
  unfold read
  rw [h]
  exact if_pos hi

theorem destroyAt_eq {i : Nat} (h : b.slot i ≠ .raw) (hi : i < b.length) : b.destroyAt i = some (b.set i .raw) := by
  unfold destroyAt
  split
  · contradiction
  · exact if_pos hi

theorem destroy_eq (hn : first + n ≤ b.length)
    (h : ∀ j, first ≤ j → j < first + n → b.slot j ≠ .raw) : b.destroy first n = some (b.fill first n .raw) := by
  induction n generalizing b first with
  | zero => rw [destroy, fill_zero]
  | succ n ih =>
    rw [destroy, destroyAt_eq (h first (Nat.le_refl _) (by omega)) (by omega), Option.bind_some, ih]
    · refine congrArg some (ext_slot rfl fun j => ?_)
      simp only [fill, set_slot]
      split_ifs <;> first | rfl | omega
    · rw [set_length]
      omega
    · intro j hfirst hlast
      rw [set_slot, if_neg (by omega)]
      exact h j (by omega) (by omega)

theorem constructAll_eq (h : first + as.length ≤ b.length) : b.constructAll first as = some (b.write first as) := by
  induction as generalizing b first with
  | nil => rw [constructAll, write_nil]
  | cons a as ih =>
    rw [List.length_cons] at h
    rw [constructAll, construct, if_pos (by omega), Option.bind_some, ih (by rw [set_length]; omega)]
    refine congrArg some (ext_slot rfl fun j => ?_)
    simp only [write, set_slot]
    rcases Nat.lt_trichotomy j first with hj | rfl | hj
    · rw [if_neg (by omega), if_neg (by omega), if_neg (by omega)]
    · rw [if_neg (by omega), if_pos rfl, if_pos (Nat.le_refl _), Nat.sub_self]
      rfl
    · rw [if_pos (by omega), if_neg (by omega), if_pos (by omega), show j - first = j - (first + 1) + 1 by omega]
      rfl

theorem Holds.tail {a : α} (h : b.Holds first (a :: as)) : b.Holds (first + 1) as := by
  refine ⟨by have := h.1; rw [List.length_cons] at this; omega, fun i a' ha' => ?_⟩
  rw [show first + 1 + i = first + (i + 1) by omega]
  exact h.2 (i + 1) a' ha'

theorem values_eq (h : b.Holds first as) : b.values first as.length = some as := by
  induction as generalizing first with
  | nil => rfl
  | cons a as ih =>
    have hlast := h.1
    have halive := h.2 0 a rfl
    rw [List.length_cons] at hlast
    rw [Nat.add_zero] at halive
    rw [List.length_cons, values, read_alive halive (by omega), ih h.tail]
    rfl

theorem relocate_eq {src dst : Block α} (h : src.Holds 0 as) (hdst : as.length ≤ dst.length)
    (hn : n ≤ as.length) : relocate src dst n = some (src.fill 0 n .moved, dst.write 0 (as.take n)) := by
  induction n with
  | zero =>
    rw [relocate, fill_zero, List.take_zero, write_nil]
  | succ n ih =>
    have hlast := h.1
    have hslot : (src.fill 0 n .moved).slot n = .alive as[n] := by
      have halive := h.2 n as[n] (List.getElem?_eq_getElem hn)
      rw [Nat.zero_add] at halive
      exact (if_neg (by omega)).trans halive
    rw [relocate, ih (by omega), Option.bind_some]
    dsimp only
    rw [moveOut, read_alive hslot (show n < src.length by omega), Option.map_some, Option.bind_some]
    rw [construct, if_pos (show n < (dst.write 0 (as.take n)).length from Nat.lt_of_lt_of_le hn hdst), Option.map_some]
    congr 2
    · refine ext_slot rfl fun j => ?_
      simp only [fill, set_slot]
      split_ifs <;> first | rfl | omega
    · refine ext_slot rfl fun j => ?_
      simp only [write, set_slot, Nat.sub_zero]
      rcases Nat.lt_trichotomy j n with hj | rfl | hj
      · rw [if_neg (by omega), List.getElem?_take_of_lt hj, List.getElem?_take_of_lt (by omega)]
      · rw [if_pos rfl, List.getElem?_take_of_lt (by omega), List.getElem?_eq_getElem hn]
        rfl
      · rw [if_neg (by omega), List.getElem?_eq_none (by simp; omega), List.getElem?_eq_none (by simp; omega)]

/-! ## Moves inside of a block -/

/-- No move takes from a slot used before, or puts into one filled before. -/
def Ordered (moves : List (Nat × Nat)) : Prop :=
  moves.Pairwise fun earlier later => earlier.2 ≠ later.1 ∧ earlier.2 ≠ later.2 ∧ earlier.1 ≠ later.1

structure Moved (moves : List (Nat × Nat)) (b b' : Block α) : Prop where
  length : b'.length = b.length
  target : ∀ move ∈ moves, b'.slot move.2 = b.slot move.1
  source : ∀ move ∈ moves, (∀ other ∈ moves, other.2 ≠ move.1) → b'.slot move.1 = .moved
  frame : ∀ j, (∀ move ∈ moves, move.1 ≠ j ∧ move.2 ≠ j) → b'.slot j = b.slot j

def Steps (step : Block α → Nat → Nat → Option (Block α)) (Ready : Slot α → Prop) : Prop :=
  ∀ b i j a, i ≠ j → i < b.length → b.slot i = .alive a → j < b.length → Ready (b.slot j) →
    step b i j = some ((b.set i .moved).set j (.alive a))

theorem steps_moveConstruct : Steps (α := α) moveConstruct fun _ => True := by
  intro b i j a hij hi ha hj _
  unfold moveConstruct moveOut construct
  rw [read_alive ha hi]
  exact if_pos hj

theorem steps_moveAssign (selfMove : α → Slot α) : Steps (moveAssign selfMove) fun s => s ≠ .raw := by
  intro b i j a hij hi ha hj hraw
  have hslot : (b.set i .moved).slot j = b.slot j := by rw [set_slot, if_neg (Ne.symm hij)]
  unfold moveAssign moveOut
  rw [if_neg hij, read_alive ha hi]
  show (b.set i .moved).assign j a = _
  unfold assign
  rw [hslot]
  split
  · contradiction
  · exact if_pos hj

theorem moveEach_moved {step : Block α → Nat → Nat → Option (Block α)} {Ready : Slot α → Prop}
    (hstep : Steps step Ready) (hmoved : Ready .moved) (hordered : Ordered moves)
    (hne : ∀ move ∈ moves, move.1 ≠ move.2)
    (hsource : ∀ move ∈ moves, move.1 < b.length ∧ ∃ a, b.slot move.1 = .alive a)
    (htarget : ∀ move ∈ moves, move.2 < b.length ∧ Ready (b.slot move.2)) :
    ∃ b', moveEach step moves b = some b' ∧ Moved moves b b' := by
  induction moves generalizing b with
  | nil => exact ⟨b, rfl, rfl, by simp, by simp, fun _ _ => rfl⟩
  | cons move moves ih =>
    obtain ⟨hfirst, hordered⟩ := List.pairwise_cons.mp hordered
    obtain ⟨hlt, a, ha⟩ := hsource move List.mem_cons_self
    obtain ⟨hlt', hready⟩ := htarget move List.mem_cons_self
    have hlater : ∀ later ∈ moves, ((b.set move.1 .moved).set move.2 (.alive a)).slot later.1 = b.slot later.1 := by
      intro later hmem
      obtain ⟨h21, -, h11⟩ := hfirst later hmem
      rw [set_slot, if_neg (Ne.symm h21), set_slot, if_neg (Ne.symm h11)]
    obtain ⟨b', hb', hlength, htgt, hsrc, hframe⟩ := ih hordered
      (fun later hmem => hne later (List.mem_cons_of_mem _ hmem))
      (fun later hmem => by
        rw [hlater later hmem]
        exact hsource later (List.mem_cons_of_mem _ hmem))
      (fun later hmem => by
        obtain ⟨hlt₂, hready₂⟩ := htarget later (List.mem_cons_of_mem _ hmem)
        refine ⟨hlt₂, ?_⟩
        rw [set_slot, if_neg (Ne.symm (hfirst later hmem).2.1), set_slot]
        split
        · exact hmoved
        · exact hready₂)
    refine ⟨b', ?_, hlength, ?_, ?_, ?_⟩
    · rw [moveEach, hstep b move.1 move.2 a (hne move List.mem_cons_self) hlt ha hlt' hready, Option.bind_some, hb']
    · intro other hmem
      rcases List.mem_cons.mp hmem with rfl | hmem
      · rw [hframe, set_slot, if_pos rfl, ha]
        intro later hmem
        exact ⟨Ne.symm (hfirst later hmem).1, Ne.symm (hfirst later hmem).2.1⟩
      · rw [htgt other hmem, hlater other hmem]
    · intro other hmem hnot
      rcases List.mem_cons.mp hmem with rfl | hmem
      · rw [hframe, set_slot, if_neg (Ne.symm (hnot other List.mem_cons_self)), set_slot, if_pos rfl]
        intro later hmem
        exact ⟨Ne.symm (hfirst later hmem).2.2, hnot later (List.mem_cons_of_mem _ hmem)⟩
      · exact hsrc other hmem fun later hlater => hnot later (List.mem_cons_of_mem _ hlater)
    · intro j hj
      obtain ⟨h1, h2⟩ := hj move List.mem_cons_self
      rw [hframe j fun later hmem => hj later (List.mem_cons_of_mem _ hmem), set_slot, if_neg (Ne.symm h2), set_slot,
        if_neg (Ne.symm h1)]

/-! ## Shifted ranges -/

theorem mem_shifts {move : Nat × Nat} : move ∈ shifts first n dest ↔ ∃ i < n, (first + i, dest + i) = move := by
  simp [shifts]

theorem ordered_shifts (h : dest < first ∨ first + n ≤ dest) : Ordered (shifts first n dest) := by
  unfold Ordered shifts
  rw [List.pairwise_map]
  refine List.pairwise_lt_range.imp_of_mem ?_
  intro i k hi hk hik
  rw [List.mem_range] at hi hk
  omega

theorem ordered_shifts_reverse (h : first < dest) : Ordered (shifts first n dest).reverse := by
  unfold Ordered shifts
  rw [List.pairwise_reverse, List.pairwise_map]
  refine List.pairwise_lt_range.imp ?_
  omega

/-- The new places hold the objects, what they left is moved from. -/
structure Shifted (first n dest : Nat) (b b' : Block α) : Prop where
  length : b'.length = b.length
  target : ∀ j, dest ≤ j → j < dest + n → b'.slot j = b.slot (first + (j - dest))
  source : ∀ j, first ≤ j → j < first + n → ¬ (dest ≤ j ∧ j < dest + n) → b'.slot j = .moved
  frame : ∀ j, ¬ (dest ≤ j ∧ j < dest + n) → ¬ (first ≤ j ∧ j < first + n) → b'.slot j = b.slot j

theorem Moved.shifted (h : Moved moves b b')
    (hmoves : ∀ move, move ∈ moves ↔ move ∈ shifts first n dest) : Shifted first n dest b b' where
  length := h.length
  target := by
    intro j hfirst hlast
    have hmem : (first + (j - dest), dest + (j - dest)) ∈ moves :=
      (hmoves _).mpr (mem_shifts.mpr ⟨j - dest, by omega, rfl⟩)
    have htarget := h.target _ hmem
    rwa [show dest + (j - dest) = j by omega] at htarget
  source := by
    intro j hfirst hlast hnot
    have hmem : (first + (j - first), dest + (j - first)) ∈ moves :=
      (hmoves _).mpr (mem_shifts.mpr ⟨j - first, by omega, rfl⟩)
    have hsource := h.source _ hmem
    rw [show first + (j - first) = j by omega] at hsource
    apply hsource
    intro other hother
    obtain ⟨i, hi, rfl⟩ := mem_shifts.mp ((hmoves other).mp hother)
    omega
  frame := by
    intro j htarget hsource
    apply h.frame
    intro move hmove
    obtain ⟨i, hi, rfl⟩ := mem_shifts.mp ((hmoves move).mp hmove)
    omega

def Alive (b : Block α) (first n : Nat) : Prop :=
  first + n ≤ b.length ∧ ∀ j, first ≤ j → j < first + n → ∃ a, b.slot j = .alive a

theorem moveEach_shifted {step : Block α → Nat → Nat → Option (Block α)} {Ready : Slot α → Prop}
    (hstep : Steps step Ready) (hmoved : Ready .moved)
    (hmoves : ∀ move, move ∈ moves ↔ move ∈ shifts first n dest) (hordered : Ordered moves)
    (hne : first ≠ dest ∨ n = 0) (hsource : b.Alive first n) (hlast : dest + n ≤ b.length)
    (hready : ∀ j, dest ≤ j → j < dest + n → Ready (b.slot j)) :
    ∃ b', moveEach step moves b = some b' ∧ Shifted first n dest b b' := by
  have hplace : ∀ move ∈ moves, ∃ i < n, (first + i, dest + i) = move :=
    fun move hmove => mem_shifts.mp ((hmoves move).mp hmove)
  have hfirst := hsource.1
  obtain ⟨b', hb', hmoved⟩ : ∃ b', moveEach step moves b = some b' ∧ Moved moves b b' := by
    apply moveEach_moved hstep hmoved hordered
    · intro move hmove
      obtain ⟨i, hi, rfl⟩ := hplace move hmove
      omega
    · intro move hmove
      obtain ⟨i, hi, rfl⟩ := hplace move hmove
      exact ⟨by omega, hsource.2 _ (by omega) (by omega)⟩
    · intro move hmove
      obtain ⟨i, hi, rfl⟩ := hplace move hmove
      exact ⟨by omega, hready _ (by omega) (by omega)⟩
  exact ⟨b', hb', hmoved.shifted hmoves⟩

theorem uninitializedMove_shifted (hsource : b.Alive first n) (hdest : first + n ≤ dest) (hlast : dest + n ≤ b.length) :
    ∃ b', b.uninitializedMove first n dest = some b' ∧ Shifted first n dest b b' :=
  moveEach_shifted steps_moveConstruct trivial (fun _ => Iff.rfl) (ordered_shifts (Or.inr hdest)) (by omega) hsource
    hlast fun _ _ _ => trivial

theorem move_shifted (selfMove : α → Slot α) (hsource : b.Alive first n)
    (hdest : dest < first) (hready : ∀ j, dest ≤ j → j < dest + n → b.slot j ≠ .raw) :
    ∃ b', b.move selfMove first n dest = some b' ∧ Shifted first n dest b b' := by
  have hlast := hsource.1
  exact moveEach_shifted (steps_moveAssign selfMove) (by simp) (fun _ => Iff.rfl) (ordered_shifts (Or.inl hdest))
    (by omega) hsource (by omega) hready

theorem moveBackward_shifted (selfMove : α → Slot α) (hsource : b.Alive first n)
    (hdest : first < dest) (hlast : dest + n ≤ b.length) (hready : ∀ j, dest ≤ j → j < dest + n → b.slot j ≠ .raw) :
    ∃ b', b.moveBackward selfMove first n dest = some b' ∧ Shifted first n dest b b' :=
  moveEach_shifted (steps_moveAssign selfMove) (by simp) (fun _ => List.mem_reverse) (ordered_shifts_reverse hdest)
    (by omega) hsource hlast hready

theorem moveBackward_self {selfMove : α → Slot α} (hself : ∀ a, selfMove a = .alive a)
    (hsource : b.Alive first n) : b.moveBackward selfMove first n first = some b := by
  have hmoves : ∀ moves : List (Nat × Nat), (∀ move ∈ moves, move ∈ shifts first n first) →
      moveEach (moveAssign selfMove) moves b = some b := by
    intro moves hmem
    induction moves with
    | nil => rfl
    | cons move moves ih =>
      obtain ⟨i, hi, rfl⟩ := mem_shifts.mp (hmem move List.mem_cons_self)
      have hlast := hsource.1
      obtain ⟨a, ha⟩ := hsource.2 (first + i) (by omega) (by omega)
      have hset : b.set (first + i) (.alive a) = b := by
        refine ext_slot rfl fun j => ?_
        rw [set_slot]
        split
        next h => rw [h, ha]
        next => rfl
      rw [moveEach, moveAssign, if_pos rfl, read_alive ha (by omega), Option.map_some, hself, hset]
      exact ih fun other hother => hmem other (List.mem_cons_of_mem _ hother)
  exact hmoves _ fun move hmove => List.mem_reverse.mp hmove

theorem Shifted.ne_raw (h : Shifted first n dest b b') (hsource : b.Alive first n)
    (hj : b.slot j ≠ .raw) : b'.slot j ≠ .raw := by
  by_cases htarget : dest ≤ j ∧ j < dest + n
  · obtain ⟨a, ha⟩ := hsource.2 (first + (j - dest)) (by omega) (by omega)
    rw [h.target j htarget.1 htarget.2, ha]
    simp
  · by_cases hsrc : first ≤ j ∧ j < first + n
    · rw [h.source j hsrc.1 hsrc.2 htarget]
      simp
    · rwa [h.frame j htarget hsrc]

/-! ## Contents -/

theorem Holds.alive (h : b.Holds 0 as) (hn : first + n ≤ as.length) : b.Alive first n := by
  have hlast := h.1
  refine ⟨by omega, fun j hfirst hlast => ?_⟩
  have halive := h.2 j as[j] (List.getElem?_eq_getElem (by omega))
  rw [Nat.zero_add] at halive
  exact ⟨as[j], halive⟩

theorem Holds.ne_raw (h : b.Holds 0 as) (hj : j < as.length) : b.slot j ≠ .raw := by
  have halive : b.Alive j 1 := h.alive hj
  obtain ⟨a, ha⟩ := halive.2 j (Nat.le_refl _) (by omega)
  rw [ha]
  simp

theorem holds_iff : b.Holds 0 as ↔ as.length ≤ b.length ∧ ∀ i (hi : i < as.length), b.slot i = .alive as[i] := by
  unfold Holds
  simp only [Nat.zero_add]
  constructor
  · rintro ⟨hlength, h⟩
    exact ⟨hlength, fun i hi => h i _ (List.getElem?_eq_getElem hi)⟩
  · rintro ⟨hlength, h⟩
    refine ⟨hlength, fun i a ha => ?_⟩
    obtain ⟨hi, rfl⟩ := List.getElem?_eq_some_iff.mp ha
    exact h i hi

theorem write_slot_of_lt (h : j < first) : (b.write first as).slot j = b.slot j := by
  exact if_neg (by omega)

theorem write_slot_of_ge (h : first + as.length ≤ j) : (b.write first as).slot j = b.slot j := by
  simp only [write]
  rw [if_pos (by omega), List.getElem?_eq_none (by omega)]
  rfl

theorem write_slot_getElem (hfirst : first ≤ j) (hj : j - first < as.length) :
    (b.write first as).slot j = .alive as[j - first] := by
  simp only [write]
  rw [if_pos hfirst, List.getElem?_eq_getElem hj]
  rfl

theorem write_congr (hlength : b.length = b'.length)
    (h : ∀ j, ¬ (first ≤ j ∧ j < first + as.length) → b.slot j = b'.slot j) : b.write first as = b'.write first as := by
  refine ext_slot hlength fun j => ?_
  rcases Nat.lt_or_ge j first with hlt | hge
  · rw [write_slot_of_lt hlt, write_slot_of_lt hlt]
    exact h j (by omega)
  · rcases Nat.lt_or_ge j (first + as.length) with hlt' | hge'
    · rw [write_slot_getElem hge (by omega), write_slot_getElem hge (by omega)]
    · rw [write_slot_of_ge hge', write_slot_of_ge hge']
      exact h j (by omega)

end Block

end Storage
