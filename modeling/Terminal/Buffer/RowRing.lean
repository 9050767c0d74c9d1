import Mathlib.Data.List.Rotate
import Terminal.Buffer.TextBuffer

/-!
# The rows as a list

Seen from outside, the rotated array is a list: a new row drops the first one, `ScrollRows` moves
a block past the rows in its way, and `ResizeTraditional` keeps a window.
-/

namespace Terminal.Buffer

open List

/-! ## The operations of the buffer -/

/-- `std::rotate`, so that the element at `middle` comes first. -/
def rotateRange {α : Type} (first middle last : Int) (xs : List α) : Except Fault (List α) :=
  if 0 ≤ first ∧ first ≤ middle ∧ middle ≤ last ∧ last ≤ xs.length then
    return xs.take first.toNat ++ ((xs.take last.toNat).drop first.toNat).rotate
      (middle - first).toNat ++ xs.drop last.toNat
  else .error .undefined

namespace TextBuffer

def correctFirstRow (buffer : TextBuffer) : TextBuffer :=
  if buffer.firstRow ≠ 0 then
    { buffer with storage := buffer.storage.rotate buffer.firstRow, firstRow := 0 } else buffer

def rotateRows (firstRow size delta : Int) (storage : List Row) : Except Fault (List Row) :=
  if delta < 0 then rotateRange (firstRow + delta) firstRow (firstRow + size) storage
  else rotateRange firstRow (firstRow + size) (firstRow + size + delta) storage

def scrollRows (firstRow size delta : Int) (buffer : TextBuffer) : Except Fault TextBuffer :=
  if delta = 0 then return buffer
  else do
    let storage ← rotateRows firstRow size delta buffer.correctFirstRow.storage
    return { buffer.correctFirstRow with storage }

def topRow (newHeight cursorY : Nat) : Nat := if newHeight ≤ cursorY then cursorY - newHeight + 1 else 0

/-- A size of more than 16 bits throws, and nothing is changed. -/
def resizeTraditional (width height : Int) (buffer : TextBuffer) : Except Fault TextBuffer :=
  let width := (max width 1).toNat
  let height := (max height 1).toNat
  if width ≥ 2 ^ 16 ∨ height ≥ 2 ^ 16 then return buffer
  else do
    let topRowIndex := (buffer.firstRow + topRow height buffer.cursor.y) % buffer.size.height
    let storage := buffer.storage.rotate topRowIndex
    let storage := storage.take height ++ List.replicate (height - storage.length) ({} : Row)
    let storage ← storage.mapM (Row.resize (BitVec.ofNat 16 width) buffer.currentAttributes)
    return { buffer with
             storage
             firstRow := 0
             size := ⟨(storage.head?.map Row.columnCount).getD 0, storage.length⟩ }

def readRows (buffer : TextBuffer) : Except Fault (List Row) :=
  (List.range buffer.size.height).mapM fun index => buffer.getRowByOffset index

end TextBuffer

inductive RingOp where
  | incrementCircularBuffer (inVtMode : Bool)
  | scrollRows (firstRow size delta : Int)
  | resizeTraditional (width height : Int)
  | setCursor (position : Point)
  | setCurrentAttributes (attr : TextAttribute)
deriving DecidableEq, Repr

def TextBuffer.ringStep (buffer : TextBuffer) : RingOp → Except Fault TextBuffer
  | .incrementCircularBuffer inVtMode => buffer.incrementCircularBuffer inVtMode
  | .scrollRows firstRow size delta => buffer.scrollRows firstRow size delta
  | .resizeTraditional width height => buffer.resizeTraditional width height
  | .setCursor position => return { buffer with cursor := position }
  | .setCurrentAttributes attr => return { buffer with currentAttributes := attr }

def TextBuffer.ringRun (buffer : TextBuffer) (ops : List RingOp) : Except Fault TextBuffer :=
  ops.foldlM TextBuffer.ringStep buffer

/-! ## The list -/

structure RowList where
  rows : List Row
  width : Nat
  cursor : Point
  currentAttributes : TextAttribute

namespace RowList

def increment (inVtMode : Bool) (s : RowList) : RowList :=
  let fill := if inVtMode then s.currentAttributes.setStandardErase else s.currentAttributes
  { s with rows := s.rows.tail ++ [Row.make (BitVec.ofNat 16 s.width) fill] }

def scrolledFrom (first size delta index : Int) : Int :=
  if first + delta ≤ index ∧ index < first + size + delta then index - delta
  -- the rows in the way move to the other side of the block
  else if first ≤ index ∧ index < first + delta then index + size
  else if first + size + delta ≤ index ∧ index < first + size then index - size
  else index

def scroll (first size delta : Int) (s : RowList) : RowList :=
  { s with
    rows := (List.range s.rows.length).filterMap fun index :
      Nat => s.rows[(scrolledFrom first size delta index).toNat]? }

def resize (width height : Int) (s : RowList) : Except Fault RowList :=
  let width := (max width 1).toNat
  let height := (max height 1).toNat
  if width ≥ 2 ^ 16 ∨ height ≥ 2 ^ 16 then return s
  else do
    let window := (s.rows.drop (TextBuffer.topRow height s.cursor.y)).take height
    let rows ← window.mapM (Row.resize (BitVec.ofNat 16 width) s.currentAttributes)
    return { s with
             rows := rows ++ List.replicate (height - window.length)
               (Row.make (BitVec.ofNat 16 width) s.currentAttributes)
             width }

def step (s : RowList) : RingOp → Except Fault RowList
  | .incrementCircularBuffer inVtMode => return s.increment inVtMode
  | .scrollRows firstRow size delta => return s.scroll firstRow size delta
  | .resizeTraditional width height => s.resize width height
  | .setCursor position => return { s with cursor := position }
  | .setCurrentAttributes attr => return { s with currentAttributes := attr }

def run (s : RowList) (ops : List RingOp) : Except Fault RowList := ops.foldlM step s

def Allows (s : RowList) : RingOp → Prop
  | .scrollRows first size delta =>
    0 ≤ first ∧ 0 ≤ size ∧ first + size ≤ s.rows.length ∧ 0 ≤ first + delta ∧ first + size + delta ≤ s.rows.length
  | .resizeTraditional _ _ => s.cursor.y < s.rows.length
  | _ => True

instance (s : RowList) : (op : RingOp) → Decidable (s.Allows op)
  | .scrollRows _ _ _ => inferInstanceAs (Decidable (_ ∧ _ ∧ _ ∧ _ ∧ _))
  | .resizeTraditional _ _ => inferInstanceAs (Decidable (_ < _))
  | .incrementCircularBuffer _ => inferInstanceAs (Decidable True)
  | .setCursor _ => inferInstanceAs (Decidable True)
  | .setCurrentAttributes _ => inferInstanceAs (Decidable True)

def AllowsAll (s : RowList) : List RingOp → Prop
  | [] => True
  | op :: ops => s.Allows op ∧ ∀ s', s.step op = .ok s' → s'.AllowsAll ops

end RowList

/-! ## The ring -/

structure Row.Allocated (row : Row) (width : Nat) : Prop where
  hasBuffer : row.hasBuffer = true
  columnCount : row.columnCount = width
  charOffsets : row.charOffsets.length = width + 1
  small : width < 2 ^ 16

structure TextBuffer.Ring (buffer : TextBuffer) : Prop where
  height : buffer.size.height = buffer.storage.length
  firstRow : buffer.firstRow < buffer.storage.length
  allocated : ∀ row ∈ buffer.storage, row.Allocated buffer.size.width

theorem Row.allocated_make (width : BitVec 16) (fill : TextAttribute) :
    (Row.make width fill).Allocated width.toNat where
  hasBuffer := rfl
  columnCount := rfl
  charOffsets := by simp [make, init, iota]
  small := width.isLt

theorem Row.Allocated.reset_eq {row : Row} {width : Nat} (h : row.Allocated width) (fill : TextAttribute) :
    row.reset fill = Row.make (BitVec.ofNat 16 width) fill := by
  have hwidth : (BitVec.ofNat 16 width).toNat = width := Nat.mod_eq_of_lt h.small
  simp [reset, make, init, h.hasBuffer, h.columnCount, h.charOffsets, hwidth]

namespace TextBuffer

def toRowList (buffer : TextBuffer) : RowList where
  rows := buffer.storage.rotate buffer.firstRow
  width := buffer.size.width
  cursor := buffer.cursor
  currentAttributes := buffer.currentAttributes

section

variable {buffer : TextBuffer}

theorem Ring.length_pos (h : buffer.Ring) : 0 < buffer.storage.length := Nat.zero_lt_of_lt h.firstRow

theorem Ring.rowIndex_lt (h : buffer.Ring) (index : Nat) : buffer.rowIndex index < buffer.storage.length :=
  Nat.mod_lt _ h.length_pos

theorem Ring.getRowByOffset_eq (h : buffer.Ring) (index : Nat) :
    buffer.getRowByOffset index = .ok (buffer.storage.get ⟨buffer.rowIndex index, h.rowIndex_lt index⟩) := by
  unfold getRowByOffset
  rw [getElem?_eq_getElem (h.rowIndex_lt index)]
  rfl

variable {α β : Type} {f : α → Except Fault β} {xs ys : List α} {n : Nat} {first size delta : Int} {s : RowList}

theorem mapM_ok {g : α → β} (h : ∀ x ∈ xs, f x = .ok (g x)) : xs.mapM f = .ok (xs.map g) := by
  induction xs with
  | nil => rfl
  | cons x xs ih =>
    rw [mapM_cons, h x (mem_cons_self ..), ih fun y hy => h y (mem_cons_of_mem _ hy)]
    rfl

theorem Ring.readRows_eq (h : buffer.Ring) : buffer.readRows = .ok buffer.toRowList.rows := by
  unfold readRows
  rw [mapM_ok fun index _ => h.getRowByOffset_eq index]
  refine congrArg Except.ok (ext_getElem ?_ ?_)
  · simp [toRowList, h.height]
  · simp [toRowList, rowIndex, Nat.add_comm]

/-! ## Scrolling in a row -/

structure SameRows (buffer buffer' : TextBuffer) : Prop where
  storage : buffer'.storage = buffer.storage
  size : buffer'.size = buffer.size
  firstRow : buffer'.firstRow = buffer.firstRow
  cursor : buffer'.cursor = buffer.cursor
  currentAttributes : buffer'.currentAttributes = buffer.currentAttributes

theorem Ring.obsoleteRefs_ok (h : buffer.Ring) (indices : List Nat) (refs : List (BitVec 16)) :
    ∃ refs', buffer.obsoleteRefs indices refs = .ok refs' := by
  induction indices generalizing refs with
  | nil => exact ⟨refs, rfl⟩
  | cons index indices ih =>
    unfold obsoleteRefs
    rw [h.getRowByOffset_eq, ok_bind]
    dsimp only
    split
    · exact ⟨[], rfl⟩
    · exact ih _

theorem sameRows_foldl (buffer : TextBuffer) (refs : List (BitVec 16)) :
    SameRows buffer (refs.foldl (fun buffer id => buffer.removeHyperlinkFromMap id) buffer) := by
  induction refs generalizing buffer with
  | nil => exact ⟨rfl, rfl, rfl, rfl, rfl⟩
  | cons id refs ih =>
    obtain ⟨hstorage, hsize, hfirst, hcursor, hattr⟩ := ih (buffer.removeHyperlinkFromMap id)
    exact ⟨hstorage, hsize, hfirst, hcursor, hattr⟩

theorem Ring.pruneHyperlinks_ok (h : buffer.Ring) :
    ∃ buffer', buffer.pruneHyperlinks = .ok buffer' ∧ SameRows buffer buffer' := by
  unfold pruneHyperlinks
  rw [h.getRowByOffset_eq, ok_bind]
  split
  · exact ⟨buffer, rfl, rfl, rfl, rfl, rfl, rfl⟩
  · obtain ⟨refs, hrefs⟩ := h.obsoleteRefs_ok (range' 1 (buffer.storage.length - 1))
      (buffer.storage.get ⟨buffer.rowIndex 0, h.rowIndex_lt 0⟩).getHyperlinks.dedup
    rw [hrefs]
    exact ⟨_, rfl, sameRows_foldl buffer refs⟩

theorem rotate_set (xs : List α) (x : α) (h : n < xs.length) :
    (xs.set n x).rotate (n + 1) = (xs.rotate n).tail ++ [x] := by
  obtain ⟨before, y, after, rfl, rfl⟩ : ∃ before y after, xs = before ++ y :: after ∧ before.length = n :=
    ⟨xs.take n, xs[n], xs.drop (n + 1), by simp, length_take_of_le (Nat.le_of_lt h)⟩
  have hrotate := rotate_append_length_eq (before ++ [x]) after
  simpa using hrotate

theorem rotate_wrapped (xs : List α) (h : n < xs.length) :
    xs.rotate (if n + 1 ≥ xs.length then 0 else n + 1) = xs.rotate (n + 1) := by
  split
  · rw [show n + 1 = xs.length by omega, rotate_length, rotate_zero]
  · rfl

theorem SameRows.ring {buffer' : TextBuffer} (hsame : SameRows buffer buffer') (h : buffer.Ring) : buffer'.Ring := by
  refine ⟨?_, ?_, ?_⟩ <;> rw [hsame.storage]
  · rw [hsame.size, h.height]
  · rw [hsame.firstRow]
    exact h.firstRow
  · rw [hsame.size]
    exact h.allocated

theorem Row.Allocated.make {row : Row} {width : Nat} (h : row.Allocated width) (fill : TextAttribute) :
    (Row.make (BitVec.ofNat 16 width) fill).Allocated width := by
  have hmake := Row.allocated_make (BitVec.ofNat 16 width) fill
  rw [BitVec.toNat_ofNat, Nat.mod_eq_of_lt h.small] at hmake
  exact hmake

theorem Ring.incrementCircularBuffer_ok (h : buffer.Ring) (inVtMode : Bool) :
    ∃ buffer', buffer.incrementCircularBuffer inVtMode = .ok buffer' ∧ buffer'.Ring ∧
      buffer'.toRowList = buffer.toRowList.increment inVtMode := by
  obtain ⟨pruned, hpruned, hsame⟩ := h.pruneHyperlinks_ok
  have hring := hsame.ring h
  have hindex : pruned.rowIndex 0 = buffer.firstRow := by
    unfold rowIndex
    rw [hsame.firstRow, hsame.storage, Nat.add_zero, Nat.mod_eq_of_lt h.firstRow]
  obtain ⟨row, hrow, hallocated⟩ : ∃ row, pruned.getRowByOffset 0 = .ok row ∧ row.Allocated pruned.size.width :=
    ⟨_, hring.getRowByOffset_eq 0, hring.allocated _ (get_mem ..)⟩
  unfold incrementCircularBuffer modifyRow
  rw [hpruned, ok_bind, hrow]
  refine ⟨_, rfl, ⟨?_, ?_, ?_⟩, ?_⟩
  · simp [setRow, hring.height]
  · simp only [setRow, length_set, hsame.size, h.height, hsame.storage]
    have := h.firstRow
    split <;> omega
  · intro row' hmem
    rcases mem_or_eq_of_mem_set hmem with hmem | rfl
    · exact hring.allocated row' hmem
    · rw [hallocated.reset_eq]
      exact Row.Allocated.make hallocated _
  · unfold toRowList RowList.increment
    simp only [setRow, hallocated.reset_eq, hindex, hsame.cursor, hsame.currentAttributes, hsame.size, h.height,
      hsame.firstRow, hsame.storage]
    generalize Row.make _ _ = blank
    have hwrapped := rotate_wrapped (buffer.storage.set buffer.firstRow blank) (by simpa using h.firstRow)
    rw [length_set] at hwrapped
    rw [hwrapped, rotate_set _ _ h.firstRow]

/-! ## Moving rows -/

theorem getElem?_rotateRange {first middle last : Nat} (hfirst : first ≤ middle)
    (hmiddle : middle ≤ last) (hlast : last ≤ xs.length) (h : rotateRange first middle last xs = .ok ys) (k : Nat) :
    ys[k]? = if k < first then xs[k]? else if k < first + (last - middle) then xs[k + (middle - first)]?
      else if k < last then xs[k - (last - middle)]? else xs[k]? := by
  unfold rotateRange at h
  rw [if_pos (by omega)] at h
  cases h
  have hlength : ((xs.take last).drop first).length = last - first := by
    simp
    omega
  simp only [Int.toNat_natCast]
  rw [rotate_eq_drop_append_take (by omega)]
  simp only [getElem?_append, getElem?_drop, getElem?_take, length_append, length_take, length_drop]
  split_ifs <;> first | rfl | omega | (congr 1; omega)

theorem length_select {f : Nat → Nat} (h : ∀ k < n, f k < xs.length) :
    ((range n).filterMap fun k => xs[f k]?).length = n := by
  induction n with
  | zero => rfl
  | succ n ih =>
    rw [range_succ, filterMap_append, length_append, ih fun k hk => h k (by omega)]
    simp [getElem?_eq_getElem (h n (by omega))]

theorem getElem?_select {f : Nat → Nat} (h : ∀ k < n, f k < xs.length) {k : Nat}
    (hk : k < n) : ((range n).filterMap fun k => xs[f k]?)[k]? = xs[f k]? := by
  induction n with
  | zero => omega
  | succ n ih =>
    rw [range_succ, filterMap_append, getElem?_append, length_select fun k hk => h k (by omega)]
    split
    · next hlt => exact ih (fun k hk => h k (by omega)) hlt
    · have hlast : k = n := by omega
      subst hlast
      simp [getElem?_eq_getElem (h k (by omega))]

theorem length_rotateRange {first middle last : Int}
    (h : rotateRange first middle last xs = .ok ys) : ys.length = xs.length := by
  unfold rotateRange at h
  split at h
  · cases h
    simp
    omega
  · cases h

theorem scrolledFrom_bounds (hallow : s.Allows (.scrollRows first size delta)) :
    ∀ k < s.rows.length, (RowList.scrolledFrom first size delta k).toNat < s.rows.length := by
  obtain ⟨hfirst, hsize, hlast, hfirst', hlast'⟩ := hallow
  intro k hk
  unfold RowList.scrolledFrom
  split_ifs <;> omega

theorem scroll_of_rotateRange (hallow : s.Allows (.scrollRows first size delta))
    {a b c : Int} (ha : 0 ≤ a) (hab : a ≤ b) (hbc : b ≤ c) (hc : c ≤ s.rows.length)
    (hparts : delta < 0 ∧ first + delta = a ∧ first = b ∧ first + size = c ∨
      0 ≤ delta ∧ first = a ∧ first + size = b ∧ first + size + delta = c) :
    rotateRange a b c s.rows = .ok (s.scroll first size delta).rows := by
  have hbounds := scrolledFrom_bounds hallow
  obtain ⟨a, rfl⟩ := Int.eq_ofNat_of_zero_le ha
  obtain ⟨b, rfl⟩ := Int.eq_ofNat_of_zero_le (Int.le_trans ha hab)
  obtain ⟨c, rfl⟩ := Int.eq_ofNat_of_zero_le (Int.le_trans (Int.le_trans ha hab) hbc)
  obtain ⟨ys, hys⟩ : ∃ ys, rotateRange a b c s.rows = .ok ys := by
    unfold rotateRange
    rw [if_pos ⟨ha, hab, hbc, hc⟩]
    exact ⟨_, rfl⟩
  rw [hys]
  refine congrArg Except.ok (ext_getElem? fun k => ?_)
  unfold RowList.scroll
  by_cases hk : k < s.rows.length
  · rw [getElem?_rotateRange (by omega) (by omega) (by omega) hys, getElem?_select hbounds hk]
    have hcast : ∀ i : Int, ∀ j : Nat, i = j → s.rows[j]? = s.rows[i.toNat]? := by
      rintro i j rfl
      rfl
    unfold RowList.scrolledFrom
    split_ifs
    all_goals
      apply hcast
      omega
  · have hlength := length_rotateRange hys
    rw [getElem?_eq_none (by omega), getElem?_eq_none (by rw [length_select hbounds]; omega)]

theorem rotateRows_eq (hallow : s.Allows (.scrollRows first size delta)) :
    rotateRows first size delta s.rows = .ok (s.scroll first size delta).rows := by
  obtain ⟨hfirst, hsize, hlast, hfirst', hlast'⟩ := id hallow
  unfold rotateRows
  split
  · exact scroll_of_rotateRange hallow (by omega) (by omega) (by omega) (by omega) (by omega)
  · exact scroll_of_rotateRange hallow (by omega) (by omega) (by omega) (by omega) (by omega)

theorem correctFirstRow_eq (buffer : TextBuffer) :
    buffer.correctFirstRow = { buffer with storage := buffer.toRowList.rows, firstRow := 0 } := by
  unfold correctFirstRow toRowList
  split
  · rfl
  · next hzero =>
    rw [not_not] at hzero
    rw [hzero, rotate_zero, ← hzero]

theorem scroll_zero (first size : Int) (s : RowList) : s.scroll first size 0 = s := by
  have hfrom : ∀ k : Nat, (RowList.scrolledFrom first size 0 k).toNat = k := by
    intro k
    unfold RowList.scrolledFrom
    split_ifs <;> omega
  have hrows : (s.scroll first size 0).rows = s.rows := by
    unfold RowList.scroll
    simp only [hfrom]
    refine ext_getElem? fun k => ?_
    by_cases hk : k < s.rows.length
    · exact getElem?_select (fun _ h => h) hk
    · rw [getElem?_eq_none (by rw [length_select fun _ h => h]; omega), getElem?_eq_none (by omega)]
  exact congrArg (fun rows => { s with rows }) hrows

theorem Ring.of_rows (h : buffer.Ring) {rows : List Row} (hlength : rows.length = buffer.storage.length)
    (hrows : ∀ row ∈ rows, row ∈ buffer.storage) :
    ({ buffer with storage := rows, firstRow := 0 } : TextBuffer).Ring where
  height := h.height.trans hlength.symm
  firstRow := hlength ▸ h.length_pos
  allocated row hrow := h.allocated row (hrows row hrow)

theorem Ring.scrollRows_ok (h : buffer.Ring) (hallow : buffer.toRowList.Allows (.scrollRows first size delta)) :
    ∃ buffer', buffer.scrollRows first size delta = .ok buffer' ∧ buffer'.Ring ∧
      buffer'.toRowList = buffer.toRowList.scroll first size delta := by
  unfold scrollRows
  by_cases hdelta : delta = 0
  · subst hdelta
    exact ⟨buffer, if_pos rfl, h, (scroll_zero first size _).symm⟩
  · rw [if_neg hdelta, correctFirstRow_eq, rotateRows_eq hallow]
    refine ⟨_, rfl, h.of_rows ?_ ?_, ?_⟩
    · rw [RowList.scroll, length_select (scrolledFrom_bounds hallow), toRowList, length_rotate]
    · intro row hrow
      obtain ⟨k, -, hk⟩ := mem_filterMap.mp hrow
      exact mem_rotate.mp (mem_of_getElem? hk)
    · unfold toRowList
      rw [rotate_zero]
      rfl

/-! ## Keeping a window -/

theorem bind_eq_ok {x : Except Fault α} {b : β} : (x >>= f) = .ok b ↔ ∃ a, x = .ok a ∧ f a = .ok b := by
  rcases x with fault | a
  · simp
  · simp

theorem orFault_eq_ok {fault : Fault} {x : Option α} {a : α} : orFault fault x = .ok a ↔ x = some a := by
  rcases x with _ | a'
  · simp [orFault]
  · simp

theorem length_write {pos : Nat} {ys xs zs : List α} (h : Span.write pos ys xs = some zs) : zs.length = xs.length := by
  unfold Span.write at h
  split at h
  · cases h
    simp
    omega
  · cases h

theorem resize_allocated {row row' : Row} {width : BitVec 16} {fill : TextAttribute}
    (h : row.resize width fill = .ok row') : row'.Allocated width.toNat := by
  unfold Row.resize at h
  simp only [bind_eq_ok, orFault_eq_ok] at h
  obtain ⟨⟨cols, chars⟩, -, text, -, chars', -, offsets, -, charOffsets, hoffsets, attr, -, h⟩ := h
  cases h
  refine ⟨rfl, rfl, ?_, width.isLt⟩
  rw [length_write hoffsets, length_replicate]

theorem resize_default (width : BitVec 16) (fill : TextAttribute) :
    ({} : Row).resize width fill = .ok (Row.make width fill) := by
  have hextent : ({} : Row).extentToCopy width.toNat = .ok (0, 0) := rfl
  have hattr : Row.resizeAttr width.toNat fill ({} : Row).attr = .ok (Til.Rle.ofLength width.toNat fill) := rfl
  have hmod : width.toNat % 65536 = width.toNat := Nat.mod_eq_of_lt width.isLt
  unfold Row.resize
  simp only [hextent, ok_bind, hattr]
  simp [Span.read, Span.write, Row.make, Row.init, spaces, iota, hmod]

theorem mapM_resize_default (count : Nat) (width : BitVec 16) (fill : TextAttribute) :
    (replicate count ({} : Row)).mapM (Row.resize width fill) = .ok (replicate count (Row.make width fill)) := by
  have hmap : ∀ row ∈ replicate count ({} : Row), Row.resize width fill row = .ok (Row.make width fill) := by
    intro row hrow
    rw [eq_of_mem_replicate hrow, resize_default]
  rw [mapM_ok hmap, map_replicate]

theorem mapM_ok_inv {ys : List β} (h : xs.mapM f = .ok ys) :
    ys.length = xs.length ∧ ∀ y ∈ ys, ∃ x ∈ xs, f x = .ok y := by
  induction xs generalizing ys with
  | nil =>
    cases h
    simp
  | cons x xs ih =>
    rw [mapM_cons, bind_eq_ok] at h
    obtain ⟨y, hy, h⟩ := h
    rw [bind_eq_ok] at h
    obtain ⟨rest, hrest, h⟩ := h
    cases h
    obtain ⟨hlength, hmem⟩ := ih hrest
    refine ⟨by simp [hlength], ?_⟩
    intro z hz
    rcases mem_cons.mp hz with rfl | hz
    · exact ⟨x, mem_cons_self .., hy⟩
    · obtain ⟨x', hx', hfx⟩ := hmem z hz
      exact ⟨x', mem_cons_of_mem _ hx', hfx⟩

theorem ring_ordered (buffer : TextBuffer) {rows : List Row} {width : Nat} (hpos : 0 < rows.length)
    (hrows : ∀ row ∈ rows, row.Allocated width) :
    let ordered := { buffer with
      storage := rows, firstRow := 0, size := ⟨(rows.head?.map Row.columnCount).getD 0, rows.length⟩ }
    ordered.Ring ∧ ordered.toRowList = { buffer.toRowList with rows, width } := by
  have hwidth : (rows.head?.map Row.columnCount).getD 0 = width := by
    rcases rows with _ | ⟨row, rows⟩
    · simp at hpos
    · exact (hrows row (mem_cons_self ..)).columnCount
  intro ordered
  refine ⟨⟨rfl, hpos, ?_⟩, ?_⟩
  · intro row hrow
    rw [show ordered.size.width = width from hwidth]
    exact hrows row hrow
  · simp [ordered, toRowList, hwidth]

/-- Both fail alike, or both succeed and the rows are the same again. -/
def Refines : Except Fault TextBuffer → Except Fault RowList → Prop
  | .ok buffer, .ok s => buffer.Ring ∧ buffer.toRowList = s
  | .error fault, .error fault' => fault = fault'
  | _, _ => False

theorem take_rotate {top n : Nat} (h : top = 0 ∨ top + n ≤ xs.length) :
    (xs.rotate top).take n = (xs.drop top).take n := by
  rcases h with rfl | h
  · rw [rotate_zero, drop_zero]
  · rw [rotate_eq_drop_append_take (by omega), take_append_of_le_length (by simp; omega)]

theorem topRow_spec (height : Nat) {cursorY length : Nat} (h : cursorY < length) :
    topRow height cursorY = 0 ∨ topRow height cursorY + height ≤ length := by
  unfold topRow
  split <;> omega

theorem Ring.resizeTraditional_refines (h : buffer.Ring) (width height : Int)
    (hallow : buffer.toRowList.Allows (.resizeTraditional width height)) :
    Refines (buffer.resizeTraditional width height) (buffer.toRowList.resize width height) := by
  have hcursor : buffer.cursor.y < buffer.toRowList.rows.length := hallow
  unfold resizeTraditional RowList.resize
  dsimp only
  obtain ⟨w, hw⟩ : ∃ w, (max width 1).toNat = w := ⟨_, rfl⟩
  obtain ⟨n, hn⟩ : ∃ n, (max height 1).toNat = n := ⟨_, rfl⟩
  rw [hw, hn]
  by_cases hlarge : w ≥ 2 ^ 16 ∨ n ≥ 2 ^ 16
  · rw [if_pos hlarge, if_pos hlarge]
    exact ⟨h, rfl⟩
  · rw [if_neg hlarge, if_neg hlarge]
    have htop := topRow_spec n hcursor
    have hrotate : buffer.storage.rotate ((buffer.firstRow + topRow n buffer.cursor.y) % buffer.size.height) =
        buffer.toRowList.rows.rotate (topRow n buffer.cursor.y) := by
      rw [h.height, rotate_mod, toRowList, rotate_rotate]
    rw [hrotate, take_rotate htop, length_rotate]
    obtain ⟨window, hwindow⟩ :
      ∃ window, (buffer.toRowList.rows.drop (topRow n buffer.cursor.y)).take n = window := ⟨_, rfl⟩
    have hcount : n - buffer.toRowList.rows.length = n - window.length := by
      rw [← hwindow, length_take, length_drop]
      omega
    have hwindow' : (buffer.toRowList.rows.drop (topRow n buffer.toRowList.cursor.y)).take n = window := hwindow
    have hnarrow : (BitVec.ofNat 16 w).toNat = w := Nat.mod_eq_of_lt (by omega)
    rw [hwindow, hwindow', hcount, mapM_append, mapM_resize_default]
    rcases hmap : window.mapM (Row.resize (BitVec.ofNat 16 w) buffer.currentAttributes) with fault | rows
    · have hmap' : window.mapM (Row.resize (BitVec.ofNat 16 w) buffer.toRowList.currentAttributes) =
        .error fault := hmap
      rw [hmap']
      rfl
    · have hmap' : window.mapM (Row.resize (BitVec.ofNat 16 w) buffer.toRowList.currentAttributes) = .ok rows := hmap
      obtain ⟨hlength, hmem⟩ := mapM_ok_inv hmap
      have hallocated : ∀ row ∈ rows ++ replicate (n - window.length)
          (Row.make (BitVec.ofNat 16 w) buffer.currentAttributes), row.Allocated w := by
        intro row hrow
        rw [← hnarrow]
        rcases mem_append.mp hrow with hrow | hrow
        · obtain ⟨old, -, hold⟩ := hmem row hrow
          exact resize_allocated hold
        · rw [eq_of_mem_replicate hrow]
          exact Row.allocated_make _ _
      rw [hmap']
      refine ring_ordered buffer ?_ hallocated
      rw [length_append]
      omega

/-! ## Runs -/

theorem ringStep_refines (h : buffer.Ring) (op : RingOp) (hallow : buffer.toRowList.Allows op) :
    Refines (buffer.ringStep op) (buffer.toRowList.step op) := by
  cases op with
  | incrementCircularBuffer inVtMode =>
    obtain ⟨buffer', hstep, hring, hrows⟩ := h.incrementCircularBuffer_ok inVtMode
    rw [ringStep, hstep]
    exact ⟨hring, hrows⟩
  | scrollRows first size delta =>
    obtain ⟨buffer', hstep, hring, hrows⟩ := h.scrollRows_ok hallow
    rw [ringStep, hstep]
    exact ⟨hring, hrows⟩
  | resizeTraditional width height => exact h.resizeTraditional_refines width height hallow
  | setCursor position => exact ⟨{ h with }, rfl⟩
  | setCurrentAttributes attr => exact ⟨{ h with }, rfl⟩

theorem ringRun_refines (h : buffer.Ring) (ops : List RingOp) (hallow : buffer.toRowList.AllowsAll ops) :
    Refines (buffer.ringRun ops) (buffer.toRowList.run ops) := by
  induction ops generalizing buffer with
  | nil => exact ⟨h, rfl⟩
  | cons op ops ih =>
    have hstep := ringStep_refines h op hallow.1
    unfold ringRun RowList.run at ih ⊢
    rw [foldlM_cons, foldlM_cons]
    rcases hbuffer : buffer.ringStep op with fault | buffer' <;> rcases hrows : buffer.toRowList.step op with fault' | s
    · rw [hbuffer, hrows] at hstep
      exact hstep
    · rw [hbuffer, hrows] at hstep
      exact hstep.elim
    · rw [hbuffer, hrows] at hstep
      exact hstep.elim
    · rw [hbuffer, hrows] at hstep
      obtain ⟨hring, rfl⟩ := hstep
      exact ih hring (hallow.2 _ hrows)

/-- The rows read are those of the list, after any sequence of calls. -/
theorem ringRun_readRows (h : buffer.Ring) (ops : List RingOp) (hallow : buffer.toRowList.AllowsAll ops) :
    (do (← buffer.ringRun ops).readRows) = (do return (← buffer.toRowList.run ops).rows) := by
  have hrun := ringRun_refines h ops hallow
  rcases hbuffer : buffer.ringRun ops with fault | buffer' <;> rcases hrows : buffer.toRowList.run ops with fault' | s
  · rw [hbuffer, hrows] at hrun
    exact congrArg Except.error hrun
  · rw [hbuffer, hrows] at hrun
    exact hrun.elim
  · rw [hbuffer, hrows] at hrun
    exact hrun.elim
  · rw [hbuffer, hrows] at hrun
    obtain ⟨hring, rfl⟩ := hrun
    exact hring.readRows_eq

end

def threeRows : TextBuffer :=
  let blank := Row.make 1 {}
  { make 1 3 {} with
    storage := [blank, blank, { blank with wrapForced := true }]
    firstRow := 1
    cursor := ⟨0, 2⟩ }

theorem ring_threeRows : threeRows.Ring := by
  refine ⟨rfl, by decide, ?_⟩
  intro row hrow
  have hmake := Row.allocated_make 1 {}
  simp only [threeRows, mem_cons, not_mem_nil, or_false] at hrow
  rcases hrow with rfl | rfl | rfl
  · exact hmake
  · exact hmake
  · exact { hmake with }

theorem ringRun_readRows_three :
    let ops : List RingOp := [.scrollRows 0 1 2, .incrementCircularBuffer true, .resizeTraditional 2 2]
    (do (← threeRows.ringRun ops).readRows) = (do return (← threeRows.toRowList.run ops).rows) := by
  refine ringRun_readRows ring_threeRows _ ⟨by decide, ?_⟩
  intro s hs
  cases hs
  refine ⟨trivial, ?_⟩
  intro s hs
  cases hs
  exact ⟨by decide, fun _ _ => trivial⟩

/-- The cursor is left below the last row, and wraps around. -/
theorem ringRun_wraps : ∃ buffer ops, Ring buffer ∧ buffer.cursor.y < buffer.storage.length ∧
    (∀ op ∈ ops, ∃ width height, op = .resizeTraditional width height) ∧
      (do (← buffer.ringRun ops).readRows) ≠ (do return (← buffer.toRowList.run ops).rows) := by
  refine ⟨threeRows, [.resizeTraditional 1 2, .resizeTraditional 1 2], ring_threeRows, by decide, ?_, by decide +kernel⟩
  intro op hop
  exact ⟨1, 2, by simpa using hop⟩

end TextBuffer

end Terminal.Buffer
