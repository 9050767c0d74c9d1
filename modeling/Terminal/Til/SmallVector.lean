import Mathlib.Algebra.Ring.Nat
import Mathlib.Tactic.Common
import Terminal.Lib.Storage

/-!
# Small vectors (`small_vector.h`)

The elements are the first `_size` slots of the storage `_data` points to: the inline buffer or a
block of the heap.
-/

namespace Terminal.Til

open Storage

inductive VectorError where
  | tooLong
  /-- behaviour that the language leaves undefined -/
  | undefined
deriving DecidableEq, Repr

def orUndefined {α : Type} (x : Option α) : Except VectorError α :=
  match x with
  | some a => .ok a
  | none => .error .undefined

structure VectorType (T : Type) where
  N : Nat
  N_ne : N ≠ 0
  N_lt : N < 2 ^ 64
  sizeof : Nat
  value : T
  /-- what an element holds after `x = std::move(x)` -/
  selfMove : T → Slot T

def VectorType.maxSize {T : Type} (V : VectorType T) : Nat := (2 ^ 64 - 1) / V.sizeof

/-- `_data` points to the heap block, or to the buffer if there is none. -/
structure SmallVector (T : Type) where
  heap : Option (Block T)
  capacity : Nat
  size : Nat
  buffer : Block T

/-- A reference to an element of the vector, or to a value outside. -/
inductive Arg (T : Type) where
  | value (a : T)
  | element (i : Nat)
deriving DecidableEq, Repr

namespace SmallVector

variable {T : Type} (V : VectorType T)

/-- The elements of the buffer are alive from the start. -/
def make : SmallVector T := { heap := none, capacity := V.N, size := 0, buffer := ⟨V.N, fun _ => .alive V.value⟩ }

variable (v : SmallVector T)

def block : Block T := v.heap.getD v.buffer

def setBlock (b : Block T) : SmallVector T :=
  match v.heap with
  | some _ => { v with heap := some b }
  | none => { v with buffer := b }

def toList : List (Slot T) := (List.range v.size).map v.block.slot

/-! ## Storage -/

def deallocate : Except VectorError (SmallVector T) :=
  match v.heap with
  | some _ => .ok { v with heap := none }
  | none => .error .undefined

/-- Only a vector with the capacity of the buffer uses the buffer. -/
def release : Except VectorError (SmallVector T) :=
  if v.capacity ≠ V.N then v.deallocate else .ok v

def grow (minCap : Nat) (v : SmallVector T) : Except VectorError (SmallVector T) :=
  let newCap := max minCap ((v.capacity + v.capacity / 2) % 2 ^ 64)
  if newCap > V.maxSize then .error .tooLong
  else do
    let (old, data) ← orUndefined (Block.relocate v.block (.allocate newCap) v.size)
    let old ← orUndefined (old.destroy 0 v.size)
    let v ← release V (v.setBlock old)
    return { v with heap := some data, capacity := newCap }

def ensureFits (add : Nat) (v : SmallVector T) : Except VectorError (SmallVector T × Nat) :=
  let newSize := (v.size + add) % 2 ^ 64
  if newSize < v.size then .error .tooLong
  else if newSize > v.capacity then (grow V newSize v).map fun v => (v, newSize)
  else .ok (v, newSize)

def reserve (capacity : Nat) (v : SmallVector T) : Except VectorError (SmallVector T) :=
  if capacity > v.capacity then grow V capacity v else .ok v

def shrinkToFit : Except VectorError (SmallVector T) :=
  if v.capacity = V.N ∨ v.size = v.capacity then .ok v
  else do
    let (old, data) ← orUndefined
      (Block.relocate v.block (if v.size > V.N then .allocate v.size else v.buffer) v.size)
    let old ← orUndefined (old.destroy 0 v.size)
    let v ← (v.setBlock old).deallocate
    if v.size > V.N then return { v with heap := some data, capacity := v.size }
    else return { v with buffer := data, capacity := V.N }

/-! ## Elements -/

/-- The value at the time of the read; what was there before `_grow` is gone. -/
def readArg (arg : Arg T) (before v : SmallVector T) (b : Block T) : Except VectorError T :=
  match arg with
  | .value a => .ok a
  | .element i => if v.capacity ≠ before.capacity then .error .undefined else orUndefined (b.read i)

def clear : Except VectorError (SmallVector T) := do
  let b ← orUndefined (v.block.destroy 0 v.size)
  return { v.setBlock b with size := 0 }

def genericResize (newSize : Nat) (arg : Arg T) (v : SmallVector T) : Except VectorError (SmallVector T) :=
  if newSize < v.size then do
    let b ← orUndefined (v.block.destroy newSize (v.size - newSize))
    return { v.setBlock b with size := newSize }
  else if newSize > v.size then do
    let v' ← reserve V newSize v
    let a ← readArg arg v v' v'.block
    let b ← orUndefined (v'.block.constructAll v.size (List.replicate (newSize - v.size) a))
    return { v'.setBlock b with size := newSize }
  else .ok v

def resize (newSize : Nat) (v : SmallVector T) : Except VectorError (SmallVector T) :=
  genericResize V newSize (.value V.value) v

def emplaceBack (arg : Arg T) (v : SmallVector T) : Except VectorError (SmallVector T) := do
  let (v', newSize) ← ensureFits V 1 v
  let a ← readArg arg v v' v'.block
  let b ← orUndefined (v'.block.construct v'.size a)
  return { v'.setBlock b with size := newSize }

def pushBack (arg : Arg T) (v : SmallVector T) : Except VectorError (SmallVector T) := emplaceBack V arg v

/-- The general path of `_generic_insert`, up to the call of `func`. -/
def displace (b : Block T) (size newSize offset count : Nat) : Option (Block T) :=
  let moveable := size - offset
  let displacement := min count moveable
  (b.uninitializedMove (size - displacement) displacement (newSize - displacement)).bind fun b =>
    (b.moveBackward V.selfMove offset (moveable - displacement)
      (newSize - displacement - (moveable - displacement))).bind fun b => b.destroy offset displacement

/-- `trivial`: elements are copied as bytes, and `func` does not throw. -/
def genericInsert (trivial : Bool) (offset count : Nat)
    (func : SmallVector T → SmallVector T → Block T → Except VectorError (List T)) (v : SmallVector T) :
    Except VectorError (SmallVector T × Nat) :=
  if offset > v.size then .error .undefined
  else do
    let (v', newSize) ← ensureFits V count v
    let b ← orUndefined
      (if trivial then v'.block.memmove offset (v.size - offset) (offset + count)
       else displace V v'.block v.size newSize offset count)
    let as ← func v v' b
    let b ← orUndefined (b.constructAll offset as)
    return ({ v'.setBlock b with size := newSize }, offset)

def insert (trivial : Bool) (pos : Nat) (arg : Arg T) (v : SmallVector T) : Except VectorError (SmallVector T × Nat) :=
  genericInsert V trivial pos 1 (fun before v b => (readArg arg before v b).map fun a => [a]) v

def insertCount (trivial : Bool) (pos count : Nat) (arg : Arg T) (v : SmallVector T) :
    Except VectorError (SmallVector T × Nat) :=
  genericInsert V trivial pos count (fun before v b => (readArg arg before v b).map (List.replicate count)) v

def insertRange (trivial : Bool) (pos : Nat) (as : List T) (v : SmallVector T) :
    Except VectorError (SmallVector T × Nat) :=
  genericInsert V trivial pos as.length (fun _ _ _ => .ok as) v

def erase (first last : Nat) (v : SmallVector T) : Except VectorError (SmallVector T) :=
  if first > v.size ∨ last > v.size then .error .undefined
  else if first ≥ last then .ok v
  else do
    let b ← orUndefined (v.block.move V.selfMove last (v.size - last) first)
    let endNew := first + (v.size - last)
    let b ← orUndefined (b.destroy endNew (v.size - endNew))
    return { v.setBlock b with size := endNew }

/-! ## Assignment between the vectors of a program -/

section Assignment

variable {ι : Type} [DecidableEq ι]

def copyAssign (i j : ι) (s : ι → SmallVector T) : Except VectorError (ι → SmallVector T) := do
  let v ← (s i).clear
  let s := Function.update s i v
  let v ← reserve V (s j).size (s i)
  let s := Function.update s i v
  let as ← orUndefined ((s j).block.values 0 (s j).size)
  let b ← orUndefined ((s i).block.constructAll 0 as)
  return Function.update s i { (s i).setBlock b with size := (s j).size }

def steal (i j : ι) (s : ι → SmallVector T) : Except VectorError (ι → SmallVector T) :=
  if (s j).capacity = V.N then do
    let s := Function.update s i { s i with heap := none, capacity := V.N, size := (s j).size }
    let (src, dst) ← orUndefined (Block.relocate (s j).block (s i).block (s j).size)
    let src ← orUndefined (src.destroy 0 (s j).size)
    return Function.update (Function.update s i ((s i).setBlock dst)) j ((s j).setBlock src)
  else return Function.update s i { s i with heap := (s j).heap, capacity := (s j).capacity, size := (s j).size }

def moveAssign (i j : ι) (s : ι → SmallVector T) : Except VectorError (ι → SmallVector T) := do
  let b ← orUndefined ((s i).block.destroy 0 (s i).size)
  let v ← release V ((s i).setBlock b)
  let s ← steal V i j (Function.update s i v)
  return Function.update s j { s j with heap := none, capacity := V.N, size := 0 }

end Assignment

end SmallVector

/-! ## Calls -/

inductive VectorOp (ι T : Type) where
  | pushBack (i : ι) (arg : Arg T)
  | emplaceBack (i : ι) (arg : Arg T)
  | insert (i : ι) (trivial : Bool) (pos : Nat) (arg : Arg T)
  | insertCount (i : ι) (trivial : Bool) (pos : Nat) (count : BitVec 64) (arg : Arg T)
  | insertRange (i : ι) (trivial : Bool) (pos : Nat) (as : List T) (fits : as.length < 2 ^ 64)
  | erase (i : ι) (first last : Nat)
  | resize (i : ι) (newSize : BitVec 64)
  | resizeValue (i : ι) (newSize : BitVec 64) (arg : Arg T)
  | clear (i : ι)
  | shrinkToFit (i : ι)
  | copyAssign (i j : ι)
  | moveAssign (i j : ι)

namespace VectorOp

variable {ι T : Type} [DecidableEq ι] (V : VectorType T)

def onVector (i : ι) (f : SmallVector T → Except VectorError (SmallVector T)) (s : ι → SmallVector T) :
    Except VectorError (ι → SmallVector T) :=
  (f (s i)).map (Function.update s i)

def step (s : ι → SmallVector T) : VectorOp ι T → Except VectorError (ι → SmallVector T)
  | .pushBack i arg => onVector i (SmallVector.pushBack V arg) s
  | .emplaceBack i arg => onVector i (SmallVector.emplaceBack V arg) s
  | .insert i trivial pos arg => onVector i (fun v => (v.insert V trivial pos arg).map Prod.fst) s
  | .insertCount i trivial pos count arg =>
    onVector i (fun v => (v.insertCount V trivial pos count.toNat arg).map Prod.fst) s
  | .insertRange i trivial pos as _ => onVector i (fun v => (v.insertRange V trivial pos as).map Prod.fst) s
  | .erase i first last => onVector i (SmallVector.erase V first last) s
  | .resize i newSize => onVector i (SmallVector.resize V newSize.toNat) s
  | .resizeValue i newSize arg => onVector i (SmallVector.genericResize V newSize.toNat arg) s
  | .clear i => onVector i SmallVector.clear s
  | .shrinkToFit i => onVector i (SmallVector.shrinkToFit V) s
  | .copyAssign i j => SmallVector.copyAssign V i j s
  | .moveAssign i j => SmallVector.moveAssign V i j s

def run (ops : List (VectorOp ι T)) (s : ι → SmallVector T) : Except VectorError (ι → SmallVector T) :=
  ops.foldlM (step V) s

end VectorOp

end Terminal.Til
