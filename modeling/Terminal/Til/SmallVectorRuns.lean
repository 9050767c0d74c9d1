import Mathlib.Data.List.TakeDrop
import Terminal.Til.SmallVector

/-!
# Small vectors are lists

What a vector represents, and what operations and runs of them do to it.
-/

namespace Terminal.Til

open Storage List

/-! ## Ends of a call -/

/-- The call ends with such a result, unless a vector gets too long. -/
def Ends {α : Type} (P : α → Prop) : Except VectorError α → Prop
  | .ok a => P a
  | .error .tooLong => True
  | .error .undefined => False

theorem Ends.bind {α β : Type} {P : α → Prop} {Q : β → Prop} {x : Except VectorError α} {f : α → Except VectorError β}
    (hx : Ends P x) (hf : ∀ a, P a → Ends Q (f a)) : Ends Q (x >>= f) := by
  rcases x with (_ | _) | a
  · trivial
  · exact hx.elim
  · exact hf a hx

theorem Ends.mono {α : Type} {P Q : α → Prop} {x : Except VectorError α} (hx : Ends P x) (h : ∀ a, P a → Q a) :
    Ends Q x := by
  rcases x with (_ | _) | a
  · trivial
  · exact hx
  · exact h a hx

theorem Ends.map {α β : Type} {P : α → Prop} {Q : β → Prop} {x : Except VectorError α} {f : α → β} (hx : Ends P x)
    (hf : ∀ a, P a → Q (f a)) : Ends Q (x.map f) := by
  rcases x with (_ | _) | a
  · trivial
  · exact hx.elim
  · exact hf a hx

namespace SmallVector

variable {T : Type} {V : VectorType T} {v : SmallVector T} {xs : List T}

/-! ## What a vector represents -/

/-- It has these elements; the buffer is in use exactly with its capacity. -/
structure Represents (V : VectorType T) (v : SmallVector T) (xs : List T) : Prop where
  size : v.size = xs.length
  holds : v.block.Holds 0 xs
  length : v.block.length = v.capacity
  buffer : v.buffer.length = V.N
  inline : v.heap = none ↔ v.capacity = V.N
  least : V.N ≤ v.capacity
  bounded : v.capacity < 2 ^ 64

theorem Represents.size_le (h : Represents V v xs) : v.size ≤ v.capacity := by
  have hlength := h.holds.1
  rw [h.length] at hlength
  have hsize := h.size
  omega

theorem Represents.length_le (h : Represents V v xs) : xs.length ≤ v.capacity := h.size ▸ h.size_le

theorem Represents.toList_eq (h : Represents V v xs) : v.toList = xs.map .alive := by
  have hholds := (Block.holds_iff.mp h.holds).2
  apply ext_getElem
  · simp [toList, h.size]
  · intro i hi hi'
    simp only [toList, getElem_map, getElem_range]
    exact hholds i (by simpa using hi')

theorem holds_nil (b : Block T) : b.Holds 0 [] := ⟨Nat.zero_le _, by simp⟩

theorem represents_make (V : VectorType T) : Represents V (make V) [] where
  size := rfl
  holds := holds_nil _
  length := rfl
  buffer := rfl
  inline := by simp [make]
  least := Nat.le_refl _
  bounded := V.N_lt

theorem block_setBlock (v : SmallVector T) (b : Block T) : (v.setBlock b).block = b := by
  rcases v with ⟨_ | heap, capacity, size, buffer⟩ <;> rfl

theorem setBlock_capacity (v : SmallVector T) (b : Block T) : (v.setBlock b).capacity = v.capacity := by
  rcases v with ⟨_ | heap, capacity, size, buffer⟩ <;> rfl

theorem setBlock_size (v : SmallVector T) (b : Block T) : (v.setBlock b).size = v.size := by
  rcases v with ⟨_ | heap, capacity, size, buffer⟩ <;> rfl

theorem setBlock_heap (v : SmallVector T) (b : Block T) : (v.setBlock b).heap = none ↔ v.heap = none := by
  rcases v with ⟨_ | heap, capacity, size, buffer⟩ <;> simp [setBlock]

theorem setBlock_buffer (v : SmallVector T) {b : Block T} (h : b.length = v.block.length) :
    (v.setBlock b).buffer.length = v.buffer.length := by
  rcases v with ⟨_ | heap, capacity, size, buffer⟩
  · exact h
  · rfl

theorem Represents.setBlock (h : Represents V v xs) {b : Block T} (hlength : b.length = v.block.length) {ys : List T}
    (hholds : b.Holds 0 ys) {size : Nat} (hsize : size = ys.length) :
    Represents V { v.setBlock b with size := size } ys where
  size := hsize
  holds := by
    show (v.setBlock b).block.Holds 0 ys
    rwa [block_setBlock]
  length := by
    show (v.setBlock b).block.length = (v.setBlock b).capacity
    rw [block_setBlock, setBlock_capacity, hlength, h.length]
  buffer := (setBlock_buffer v hlength).trans h.buffer
  inline := by
    rw [setBlock_heap, setBlock_capacity]
    exact h.inline
  least := by
    rw [setBlock_capacity]
    exact h.least
  bounded := by
    rw [setBlock_capacity]
    exact h.bounded

theorem Represents.ends_setBlock (h : Represents V v xs) {x : Option (Block T)} {b : Block T} (hx : x = some b)
    (hlength : b.length = v.block.length) {ys : List T} (hholds : b.Holds 0 ys) {size : Nat}
    (hsize : size = ys.length) :
    Ends (fun v' => Represents V v' ys) (orUndefined x >>= fun b => pure { v.setBlock b with size := size }) := by
  rw [hx]
  exact h.setBlock hlength hholds hsize

/-! ## Storage -/

theorem release_eq (h : v.heap = none ↔ v.capacity = V.N) : release V v = .ok { v with heap := none } := by
  unfold release deallocate
  rcases v with ⟨_ | heap, capacity, size, buffer⟩
  · have hcapacity : capacity = V.N := h.mp rfl
    simp [hcapacity]
  · have hcapacity : capacity ≠ V.N := fun heq => by simpa using h.mpr heq
    simp [hcapacity]

theorem Represents.relocated (h : Represents V v xs) (dst : Block T) (hdst : xs.length ≤ dst.length) :
    ∃ old rest, Block.relocate v.block dst v.size = some (old, dst.write 0 xs) ∧ old.destroy 0 v.size = some rest ∧
      rest.length = v.block.length := by
  have hsize := h.size
  have hlength := h.holds.1
  refine ⟨v.block.fill 0 v.size .moved, (v.block.fill 0 v.size .moved).fill 0 v.size .raw, ?_, ?_, rfl⟩
  · rw [Block.relocate_eq h.holds hdst (Nat.le_of_eq hsize), hsize, take_length]
  · apply Block.destroy_eq
    · show 0 + v.size ≤ v.block.length
      omega
    · intro j _ hj
      have hslot : (v.block.fill 0 v.size .moved).slot j = .moved := if_pos ⟨Nat.zero_le j, hj⟩
      rw [hslot]
      simp

theorem holds_write_zero {b : Block T} (h : xs.length ≤ b.length) : (b.write 0 xs).Holds 0 xs := by
  refine Block.holds_iff.mpr ⟨h, fun i hi => ?_⟩
  exact Block.write_slot_getElem (Nat.zero_le i) hi

theorem grow_spec (h : Represents V v xs) {minCap : Nat} (hmin : v.capacity < minCap) (hbound : minCap < 2 ^ 64) :
    Ends (fun v' => Represents V v' xs ∧ minCap ≤ v'.capacity) (grow V minCap v) := by
  have hsize := h.size
  have hle := h.size_le
  have hleast := h.least
  unfold grow
  extract_lets newCap
  have hnew : minCap ≤ newCap := Nat.le_max_left _ _
  have hnew' : newCap < 2 ^ 64 := Nat.max_lt.mpr ⟨hbound, Nat.mod_lt _ (by decide)⟩
  split
  · trivial
  · have hfits : xs.length ≤ (Block.allocate newCap : Block T).length := show xs.length ≤ newCap by omega
    obtain ⟨old, rest, hrelocate, hdestroy, hrest⟩ := h.relocated _ hfits
    rw [hrelocate]
    show Ends _ (orUndefined (old.destroy 0 v.size) >>= _)
    rw [hdestroy]
    show Ends _ (release V _ >>= _)
    rw [release_eq (by rw [setBlock_heap, setBlock_capacity]; exact h.inline)]
    refine ⟨?_, hnew⟩
    exact {
      size := (setBlock_size v _).trans hsize
      holds := holds_write_zero hfits
      length := rfl
      buffer := (setBlock_buffer v hrest).trans h.buffer
      inline := by
        constructor
        · intro hheap
          cases hheap
        · intro hcap
          exact absurd hcap (show newCap ≠ V.N by omega)
      least := show V.N ≤ newCap by omega
      bounded := hnew' }

theorem ensureFits_spec (h : Represents V v xs) {add : Nat} (hadd : add < 2 ^ 64) :
    Ends (fun r => r.2 = v.size + add ∧ v.size + add ≤ r.1.capacity ∧ Represents V r.1 xs) (ensureFits V add v) := by
  unfold ensureFits
  extract_lets newSize
  split
  · trivial
  next hwrap =>
    -- the sum did not wrap
    have hnew : newSize = v.size + add := by
      omega
    have hlt : newSize < 2 ^ 64 := Nat.mod_lt _ (by decide)
    split
    next hgrow =>
      apply (grow_spec h hgrow hlt).map
      intro v' hv'
      exact ⟨hnew, hnew ▸ hv'.2, hv'.1⟩
    next hfits => exact ⟨hnew, by dsimp only; omega, h⟩

theorem reserve_spec (h : Represents V v xs) {capacity : Nat} (hcapacity : capacity < 2 ^ 64) :
    Ends (fun v' => capacity ≤ v'.capacity ∧ Represents V v' xs) (reserve V capacity v) := by
  unfold reserve
  split
  next hgrow => exact (grow_spec h hgrow hcapacity).mono fun v' hv' => ⟨hv'.2, hv'.1⟩
  next hfits => exact ⟨by omega, h⟩

theorem shrinkToFit_spec (h : Represents V v xs) : Ends (fun v' => Represents V v' xs) (shrinkToFit V v) := by
  have hsize := h.size
  have hle := h.size_le
  unfold shrinkToFit
  split
  · exact h
  next hne =>
    push Not at hne
    have hheap : v.heap ≠ none := fun hnone => hne.1 (h.inline.mp hnone)
    obtain ⟨b, hb⟩ := Option.ne_none_iff_exists'.mp hheap
    have hdst : xs.length ≤ (if v.size > V.N then Block.allocate v.size else v.buffer).length := by
      split
      · exact Nat.le_of_eq hsize.symm
      · rw [h.buffer]
        omega
    obtain ⟨old, rest, hrelocate, hdestroy, hrest⟩ := h.relocated _ hdst
    rw [hrelocate]
    show Ends _ (orUndefined (old.destroy 0 v.size) >>= _)
    rw [hdestroy]
    have hdeallocate : (v.setBlock rest).deallocate = .ok { v with heap := none } := by
      unfold deallocate setBlock
      rw [hb]
    show Ends _ ((v.setBlock rest).deallocate >>= _)
    rw [hdeallocate]
    show Ends _ (if v.size > V.N then _ else _)
    split
    next hbig =>
      rw [if_pos hbig] at hdst
      exact {
        size := hsize
        holds := holds_write_zero hdst
        length := rfl
        buffer := h.buffer
        inline := by
          constructor
          · intro hnone
            cases hnone
          · intro hcap
            exact absurd hcap (show v.size ≠ V.N by omega)
        least := show V.N ≤ v.size by omega
        bounded := Nat.lt_of_le_of_lt hle h.bounded }
    next hsmall =>
      rw [if_neg hsmall] at hdst
      exact {
        size := hsize
        holds := holds_write_zero hdst
        length := h.buffer
        buffer := h.buffer
        inline := by simp
        least := Nat.le_refl _
        bounded := V.N_lt }

/-! ## Elements -/

theorem clear_spec (h : Represents V v xs) : Ends (fun v' => Represents V v' []) v.clear := by
  have hlength := h.holds.1
  have hsize := h.size
  have hdestroy : v.block.destroy 0 v.size = some (v.block.fill 0 v.size .raw) :=
    Block.destroy_eq (by omega) fun j _ hj => h.holds.ne_raw (by omega)
  exact h.ends_setBlock hdestroy rfl (holds_nil _) rfl

theorem holds_append {b : Block T} {ys : List T} (h : b.Holds 0 xs) (hlength : xs.length + ys.length ≤ b.length) :
    (b.write xs.length ys).Holds 0 (xs ++ ys) := by
  rw [Block.holds_iff] at h ⊢
  refine ⟨by rw [length_append]; exact hlength, fun i hi => ?_⟩
  rw [length_append] at hi
  rcases Nat.lt_or_ge i xs.length with hlt | hge
  · rw [Block.write_slot_of_lt hlt, h.2 i hlt, getElem_append_left hlt]
  · rw [Block.write_slot_getElem hge (by omega), getElem_append_right hge]

theorem emplaceBack_spec (h : Represents V v xs) (a : T) :
    Ends (fun v' => Represents V v' (xs ++ [a])) (emplaceBack V (.value a) v) := by
  apply (ensureFits_spec h (by decide : 1 < 2 ^ 64)).bind
  rintro ⟨v', newSize⟩ ⟨hnew, hfits, hv'⟩
  dsimp only at hnew hfits hv'
  have hsize := h.size
  have hroom : xs.length + [a].length ≤ v'.block.length := by
    rw [hv'.length, length_singleton]
    omega
  have hconstruct : v'.block.construct v'.size a = some (v'.block.write xs.length [a]) := by
    have hall : v'.block.constructAll xs.length [a] = _ := Block.constructAll_eq hroom
    rw [hv'.size, ← hall]
    simp [Block.constructAll]
  refine hv'.ends_setBlock hconstruct rfl (holds_append hv'.holds hroom) ?_
  rw [hnew, hsize, length_append, length_singleton]

def resized (n : Nat) (a : T) (xs : List T) : List T := xs.take n ++ List.replicate (n - xs.length) a

theorem genericResize_spec (h : Represents V v xs) {newSize : Nat} (hnew : newSize < 2 ^ 64) (a : T) :
    Ends (fun v' => Represents V v' (resized newSize a xs)) (genericResize V newSize (.value a) v) := by
  have hsize := h.size
  have hlength := h.holds.1
  unfold genericResize resized
  split
  next hless =>
    have hdestroy : v.block.destroy newSize (v.size - newSize) = some (v.block.fill newSize (v.size - newSize) .raw) :=
      Block.destroy_eq (by omega) fun j _ hj => h.holds.ne_raw (by omega)
    rw [show newSize - xs.length = 0 by omega, replicate_zero, append_nil]
    refine h.ends_setBlock hdestroy rfl (Block.holds_iff.mpr ⟨?_, fun i hi => ?_⟩) ?_
    · show (xs.take newSize).length ≤ v.block.length
      rw [length_take]
      omega
    · rw [length_take] at hi
      rw [getElem_take, ← (Block.holds_iff.mp h.holds).2 i (by omega)]
      exact if_neg (by omega)
    · rw [length_take]
      omega
  next hless =>
    split
    next hmore =>
      rw [take_of_length_le (by omega)]
      apply (reserve_spec h hnew).bind
      rintro v' ⟨hfits, hv'⟩
      have hroom : xs.length + (replicate (newSize - xs.length) a).length ≤ v'.block.length := by
        rw [hv'.length, length_replicate]
        omega
      rw [hsize]
      refine hv'.ends_setBlock (Block.constructAll_eq hroom) rfl (holds_append hv'.holds hroom) ?_
      rw [length_append, length_replicate]
      omega
    next hmore =>
      rw [take_of_length_le (by omega), show newSize - xs.length = 0 by omega, replicate_zero, append_nil]
      exact h

def erased (first last : Nat) (xs : List T) : List T := if first < last then xs.take first ++ xs.drop last else xs

theorem erase_spec (h : Represents V v xs) {first last : Nat} (hfirst : first ≤ xs.length) (hlast : last ≤ xs.length) :
    Ends (fun v' => Represents V v' (erased first last xs)) (erase V first last v) := by
  have hsize := h.size
  have hlength := h.holds.1
  unfold erase erased
  rw [if_neg (show ¬ (first > v.size ∨ last > v.size) by omega)]
  rcases Nat.lt_or_ge first last with hlt | hge
  swap
  · rw [if_pos hge, if_neg (show ¬ first < last by omega)]
    exact h
  · rw [if_neg (show ¬ first ≥ last by omega), if_pos hlt]
    have hsource : v.block.Alive last (v.size - last) := h.holds.alive (by omega)
    obtain ⟨b, hb, hshift⟩ := Block.move_shifted V.selfMove hsource hlt
      fun j _ hj => h.holds.ne_raw (by omega)
    rw [hb]
    have hdestroy := Block.destroy_eq (b := b) (n := v.size - (first + (v.size - last)))
      (show first + (v.size - last) + (v.size - (first + (v.size - last))) ≤ b.length by rw [hshift.length]; omega)
      fun j _ hj => hshift.ne_raw hsource (h.holds.ne_raw (by omega))
    refine h.ends_setBlock hdestroy hshift.length (Block.holds_iff.mpr ⟨?_, fun i hi => ?_⟩) ?_
    · show _ ≤ b.length
      rw [hshift.length, length_append, length_take, length_drop]
      omega
    · rw [length_append, length_take, length_drop] at hi
      have hslot : (b.fill (first + (v.size - last)) (v.size - (first + (v.size - last))) .raw).slot i = b.slot i :=
        if_neg (by omega)
      have hxs := (Block.holds_iff.mp h.holds).2
      rw [hslot]
      rcases Nat.lt_or_ge i first with hlt | hge
      · rw [hshift.frame i (by omega) (by omega), hxs i (by omega),
          getElem_append_left (by rw [length_take]; omega), getElem_take]
      · have hmin : min first xs.length = first := by omega
        rw [hshift.target i hge (by omega), hxs _ (by omega),
          getElem_append_right (by rw [length_take]; omega), getElem_drop]
        simp only [length_take, hmin]
    · rw [length_append, length_take, length_drop]
      omega

/-! ## Insertion -/

/-- A gap of `count` slots at `offset`, as far as the other slots go. -/
structure Opened (b : Block T) (size offset count : Nat) (b' : Block T) : Prop where
  length : b'.length = b.length
  before : ∀ j < offset, b'.slot j = b.slot j
  behind : ∀ j, offset + count ≤ j → j < size + count → b'.slot j = b.slot (j - count)
  rest : ∀ j, size + count ≤ j → b'.slot j = b.slot j

theorem memmove_opened {b : Block T} {offset count : Nat} (hoffset : offset ≤ xs.length)
    (hroom : xs.length + count ≤ b.length) :
    ∃ b', b.memmove offset (xs.length - offset) (offset + count) = some b' ∧ Opened b xs.length offset count b' := by
  unfold Block.memmove
  rw [if_pos (by omega)]
  refine ⟨_, rfl, rfl, fun j hj => if_neg (by omega), fun j hfirst hlast => ?_, fun j hj => if_neg (by omega)⟩
  dsimp only
  rw [if_pos (by omega), show offset + (j - (offset + count)) = j - count by omega]

/-- The general path moves no element onto itself, or elements allow that. -/
def Displaces (V : VectorType T) (xs : List T) (offset count : Nat) : Prop :=
  count ≠ 0 ∨ offset = xs.length ∨ ∀ a, V.selfMove a = .alive a

theorem moveBackward_gap (selfMove : T → Slot T) (count : Nat) {b : Block T} {offset n : Nat}
    (hsource : b.Alive offset n) (hroom : offset + count + n ≤ b.length)
    (hraw : ∀ j, offset + count ≤ j → j < offset + count + n → b.slot j ≠ .raw)
    (hgap : count ≠ 0 ∨ n = 0 ∨ ∀ a, selfMove a = .alive a) :
    ∃ b', b.moveBackward selfMove offset n (offset + count) = some b' ∧ b'.length = b.length ∧
      (∀ j, offset + count ≤ j → j < offset + count + n → b'.slot j = b.slot (j - count)) ∧
      (∀ j, ¬ (offset + count ≤ j ∧ j < offset + count + n) → ¬ (offset ≤ j ∧ j < offset + n) → b'.slot j = b.slot j) ∧
      ∀ j, b.slot j ≠ .raw → b'.slot j ≠ .raw := by
  by_cases hcount : count = 0
  · have hstay : b.moveBackward selfMove offset n (offset + count) = some b := by
      rcases hgap with hne | rfl | hself
      · exact absurd hcount hne
      · rfl
      · rw [hcount]
        exact Block.moveBackward_self hself hsource
    refine ⟨b, hstay, rfl, fun j _ _ => ?_, fun _ _ _ => rfl, fun _ h => h⟩
    rw [hcount, Nat.sub_zero]
  · obtain ⟨b', hb', hshift⟩ := Block.moveBackward_shifted selfMove hsource
      (show offset < offset + count by omega) hroom hraw
    refine ⟨b', hb', hshift.length, fun j hfirst hlast => ?_, hshift.frame, fun j hj => hshift.ne_raw hsource hj⟩
    rw [hshift.target j hfirst hlast, show offset + (j - (offset + count)) = j - count by omega]

section Displace

variable {b : Block T} {offset count : Nat}

theorem gap_opened (hholds : b.Holds 0 xs) (hoffset : offset ≤ xs.length) (hroom : xs.length + count ≤ b.length)
    (hdisplaces : Displaces V xs offset count) {displacement : Nat}
    (hdisplacement : displacement = min count (xs.length - offset)) :
    ∃ b₁ b₂, b.uninitializedMove (xs.length - displacement) displacement (xs.length + count - displacement) = some b₁ ∧
      b₁.moveBackward V.selfMove offset (xs.length - offset - displacement)
        (xs.length + count - displacement - (xs.length - offset - displacement)) = some b₂ ∧
      Opened b xs.length offset count b₂ ∧ ∀ j < xs.length, b₂.slot j ≠ .raw := by
  -- the last elements go to the new slots
  have hsource₁ : b.Alive (xs.length - displacement) displacement := hholds.alive (by omega)
  obtain ⟨b₁, hb₁, hshift₁⟩ := Block.uninitializedMove_shifted hsource₁
    (show xs.length - displacement + displacement ≤ xs.length + count - displacement by omega) (by omega)
  have hraw₁ : ∀ j < xs.length, b₁.slot j ≠ .raw := fun j hj => hshift₁.ne_raw hsource₁ (hholds.ne_raw hj)
  have hlength₁ := hshift₁.length
  -- the ones in front of them are moved up
  have hsource₂ : b₁.Alive offset (xs.length - offset - displacement) := by
    refine ⟨by omega, fun j hfirst hlast => ?_⟩
    rw [hshift₁.frame j (by omega) (by omega)]
    exact (hholds.alive (show j + 1 ≤ xs.length by omega)).2 j (Nat.le_refl _) (by omega)
  obtain ⟨b₂, hb₂, hlength₂, htarget₂, hframe₂, hraw₂⟩ := moveBackward_gap V.selfMove count hsource₂ (by omega)
    (fun j _ hj => hraw₁ j (by omega))
    (by rcases hdisplaces with h | h | h
        <;> [exact Or.inl h; exact Or.inr (Or.inl (by omega)); exact Or.inr (Or.inr h)])
  have hkept : ∀ j, j < offset ∨ xs.length + count ≤ j → b₂.slot j = b.slot j := by
    intro j hj
    rw [hframe₂ j (by omega) (by omega), hshift₁.frame j (by omega) (by omega)]
  refine ⟨b₁, b₂, hb₁, ?_, ⟨hlength₂.trans hlength₁, fun j hj => hkept j (Or.inl hj), fun j hfirst hlast => ?_,
    fun j hj => hkept j (Or.inr hj)⟩, fun j hj => hraw₂ j (hraw₁ j hj)⟩
  · rwa [show xs.length + count - displacement - (xs.length - offset - displacement) = offset + count by omega]
  · rcases Nat.lt_or_ge j (offset + count + (xs.length - offset - displacement)) with hlt | hge
    · rw [htarget₂ j hfirst hlt, hshift₁.frame (j - count) (by omega) (by omega)]
    · rw [hframe₂ j (by omega) (by omega), hshift₁.target j (by omega) (by omega),
        show xs.length - displacement + (j - (xs.length + count - displacement)) = j - count by omega]

theorem displace_opened (hholds : b.Holds 0 xs) (hoffset : offset ≤ xs.length)
    (hroom : xs.length + count ≤ b.length) (hdisplaces : Displaces V xs offset count) :
    ∃ b', displace V b xs.length (xs.length + count) offset count = some b' ∧ Opened b xs.length offset count b' := by
  obtain ⟨b₁, b₂, hb₁, hb₂, hopened, hraw⟩ := gap_opened hholds hoffset hroom hdisplaces rfl
  have hlength := hopened.length
  unfold displace
  extract_lets moveable displacement
  have hdisplacement : displacement = min count (xs.length - offset) := rfl
  have hfill : ∀ j, ¬ (offset ≤ j ∧ j < offset + displacement) →
      (b₂.fill offset displacement .raw).slot j = b₂.slot j := fun j hj => if_neg hj
  rw [hb₁, Option.bind_some, hb₂, Option.bind_some, Block.destroy_eq (by omega) fun j _ hj => hraw j (by omega)]
  exact ⟨_, rfl, hlength, fun j hj => (hfill j (by omega)).trans (hopened.before j hj),
    fun j hfirst hlast => (hfill j (by omega)).trans (hopened.behind j hfirst hlast),
    fun j hj => (hfill j (by omega)).trans (hopened.rest j hj)⟩

end Displace

theorem Opened.holds_write {b b' : Block T} {offset : Nat} {as : List T} (h : Opened b xs.length offset as.length b')
    (hholds : b.Holds 0 xs) (hoffset : offset ≤ xs.length) (hroom : xs.length + as.length ≤ b.length) :
    (b'.write offset as).Holds 0 (xs.take offset ++ as ++ xs.drop offset) := by
  have hxs := (Block.holds_iff.mp hholds).2
  have htake : (xs.take offset).length = offset := by rw [length_take]; omega
  refine Block.holds_iff.mpr ⟨?_, fun i hi => ?_⟩
  · show _ ≤ b'.length
    rw [h.length, length_append, length_append, length_drop]
    omega
  · rw [length_append, length_append, length_drop] at hi
    rcases Nat.lt_or_ge i offset with hlt | hge
    · rw [Block.write_slot_of_lt hlt, h.before i hlt, hxs i (by omega),
        getElem_append_left (by rw [length_append, htake]; omega), getElem_append_left (by rw [htake]; exact hlt),
        getElem_take]
    · rcases Nat.lt_or_ge i (offset + as.length) with hlt' | hge'
      · rw [Block.write_slot_getElem hge (by omega), getElem_append_left (by rw [length_append, htake]; omega),
          getElem_append_right (by rw [htake]; exact hge)]
        simp only [htake]
      · rw [Block.write_slot_of_ge hge', h.behind i hge' (by omega), hxs _ (by omega),
          getElem_append_right (by rw [length_append, htake]; exact hge'), getElem_drop]
        simp only [length_append]
        congr 2
        omega

theorem Opened.write_eq {b b₁ b₂ : Block T} {size offset : Nat} {as : List T} (h₁ : Opened b size offset as.length b₁)
    (h₂ : Opened b size offset as.length b₂) : b₁.write offset as = b₂.write offset as := by
  refine Block.write_congr (h₁.length.trans h₂.length.symm) fun j hj => ?_
  rcases Nat.lt_or_ge j offset with hlt | hge
  · rw [h₁.before j hlt, h₂.before j hlt]
  · rcases Nat.lt_or_ge j (size + as.length) with hlt' | hge'
    · rw [h₁.behind j (by omega) hlt', h₂.behind j (by omega) hlt']
    · rw [h₁.rest j hge', h₂.rest j hge']

section Insert

variable {func : SmallVector T → SmallVector T → Block T → Except VectorError (List T)} {as : List T} {pos : Nat}

theorem opened_of_path {b : Block T} {trivial : Bool} (hholds : b.Holds 0 xs) (hpos : pos ≤ xs.length)
    (hroom : xs.length + as.length ≤ b.length) (hpath : trivial = true ∨ Displaces V xs pos as.length) :
    ∃ b', (if trivial then b.memmove pos (xs.length - pos) (pos + as.length)
        else displace V b xs.length (xs.length + as.length) pos as.length) = some b' ∧
      Opened b xs.length pos as.length b' := by
  cases trivial with
  | true => exact memmove_opened hpos hroom
  | false => exact displace_opened hholds hpos hroom (hpath.resolve_left (by simp))

theorem genericInsert_spec (h : Represents V v xs) {trivial : Bool} (hfunc : ∀ v' b, func v v' b = .ok as)
    (hpos : pos ≤ xs.length) (hbound : as.length < 2 ^ 64) (hpath : trivial = true ∨ Displaces V xs pos as.length) :
    Ends (fun r => Represents V r.1 (xs.take pos ++ as ++ xs.drop pos) ∧ r.2 = pos)
      (genericInsert V trivial pos as.length func v) := by
  have hsize := h.size
  unfold genericInsert
  rw [if_neg (by omega)]
  apply (ensureFits_spec h hbound).bind
  rintro ⟨v', newSize⟩ ⟨rfl, hfits, hv'⟩
  dsimp only at hfits hv' ⊢
  have hroom : xs.length + as.length ≤ v'.block.length := by
    rw [hv'.length]
    omega
  obtain ⟨b', hb', hopened⟩ := opened_of_path (b := v'.block) (V := V) hv'.holds hpos hroom hpath
  have hlength := hopened.length
  rw [hsize, hb']
  show Ends _ (func v v' b' >>= _)
  rw [hfunc]
  show Ends _ (orUndefined (b'.constructAll pos as) >>= _)
  rw [Block.constructAll_eq (by omega)]
  have hwritten : (b'.write pos as).length = v'.block.length := hlength
  refine ⟨hv'.setBlock hwritten (hopened.holds_write hv'.holds hpos hroom) ?_, rfl⟩
  rw [length_append, length_append, length_take, length_drop]
  omega

theorem genericInsert_trivial (h : Represents V v xs) (hfunc : ∀ v' b, func v v' b = .ok as) (hpos : pos ≤ xs.length)
    (hbound : as.length < 2 ^ 64) (hpath : Displaces V xs pos as.length) :
    genericInsert V true pos as.length func v = genericInsert V false pos as.length func v := by
  have hsize := h.size
  have hfits := ensureFits_spec h hbound
  unfold genericInsert
  rw [if_neg (by omega), if_neg (by omega)]
  rcases hresult : ensureFits V as.length v with error | ⟨v', newSize⟩
  · rfl
  · rw [hresult] at hfits
    obtain ⟨rfl, hroom, hv'⟩ := hfits
    dsimp only at hroom hv'
    have hroom : xs.length + as.length ≤ v'.block.length := by
      rw [hv'.length]
      omega
    obtain ⟨b₁, hb₁, hopened₁⟩ := memmove_opened hpos hroom
    obtain ⟨b₂, hb₂, hopened₂⟩ := displace_opened hv'.holds hpos hroom hpath
    show (orUndefined (v'.block.memmove pos (v.size - pos) (pos + as.length)) >>= _) =
      (orUndefined (displace V v'.block v.size (v.size + as.length) pos as.length) >>= _)
    rw [hsize, hb₁, hb₂]
    show (func v v' b₁ >>= _) = (func v v' b₂ >>= _)
    rw [hfunc, hfunc]
    show (orUndefined (b₁.constructAll pos as) >>= _) = (orUndefined (b₂.constructAll pos as) >>= _)
    have hlength₁ := hopened₁.length
    have hlength₂ := hopened₂.length
    rw [Block.constructAll_eq (by omega), Block.constructAll_eq (by omega), hopened₁.write_eq hopened₂]

end Insert

/-! ## Assignment -/

section Assignment

variable {ι : Type} [DecidableEq ι] {s : ι → SmallVector T} {l : ι → List T} {i j : ι}

theorem represents_update (hs : ∀ k, Represents V (s k) (l k)) {v : SmallVector T} (hv : Represents V v xs) (k : ι) :
    Represents V (Function.update s i v k) (Function.update l i xs k) := by
  by_cases hk : k = i
  · rw [hk, Function.update_self, Function.update_self]
    exact hv
  · rw [Function.update_of_ne hk, Function.update_of_ne hk]
    exact hs k

theorem copyAssign_spec (hs : ∀ k, Represents V (s k) (l k)) (hij : i ≠ j) :
    Ends (fun s' => ∀ k, Represents V (s' k) (Function.update l i (l j) k)) (copyAssign V i j s) := by
  have hsize := (hs j).size
  have hother : ∀ v, Function.update s i v j = s j := fun v => Function.update_of_ne hij.symm v s
  apply (clear_spec (hs i)).bind
  intro v₁ hv₁
  dsimp only
  rw [Function.update_self, hother]
  apply (reserve_spec hv₁ (Nat.lt_of_le_of_lt (hs j).size_le (hs j).bounded)).bind
  rintro v₂ ⟨hfits, hv₂⟩
  rw [Function.update_idem, Function.update_self, hother, hsize, Block.values_eq (hs j).holds]
  have hroom : (l j).length ≤ v₂.block.length := by
    rw [hv₂.length]
    omega
  show Ends _ (orUndefined (v₂.block.constructAll 0 (l j)) >>= _)
  rw [Block.constructAll_eq (by omega)]
  have hlength : (v₂.block.write 0 (l j)).length = v₂.block.length := rfl
  intro k
  rw [Function.update_idem]
  exact represents_update hs (hv₂.setBlock hlength (holds_write_zero hroom) rfl) k

theorem represents_emptied {v : SmallVector T} (hbuffer : v.buffer.length = V.N) :
    Represents V { v with heap := none, capacity := V.N, size := 0 } [] where
  size := rfl
  holds := holds_nil _
  length := hbuffer
  buffer := hbuffer
  inline := by simp
  least := Nat.le_refl _
  bounded := V.N_lt

theorem steal_spec (hbuffer : (s i).buffer.length = V.N) (hj : Represents V (s j) xs) (hij : i ≠ j) :
    Ends (fun s' => Represents V (s' i) xs ∧ (s' j).buffer.length = V.N ∧ ∀ k, k ≠ i → k ≠ j → s' k = s k)
      (steal V i j s) := by
  unfold steal
  split
  next hcapacity =>
    -- element by element, from buffer to buffer
    have hfits : xs.length ≤ (s i).buffer.length := by
      have hle := hj.length_le
      omega
    obtain ⟨old, rest, hrelocate, hdestroy, hrest⟩ := hj.relocated _ hfits
    dsimp only
    rw [Function.update_of_ne hij.symm, Function.update_self]
    show Ends _ (orUndefined ((s j).block.relocate (s i).buffer (s j).size) >>= _)
    rw [hrelocate]
    show Ends _ (orUndefined (old.destroy 0 (s j).size) >>= _)
    rw [hdestroy]
    refine ⟨?_, ?_, fun k hki hkj => ?_⟩
    · rw [Function.update_of_ne hij, Function.update_self]
      exact {
        size := hj.size
        holds := holds_write_zero hfits
        length := hbuffer
        buffer := hbuffer
        inline := by simp [setBlock]
        least := Nat.le_refl _
        bounded := V.N_lt }
    · rw [Function.update_self, setBlock_buffer (s j) hrest, hj.buffer]
    · rw [Function.update_of_ne hkj, Function.update_of_ne hki, Function.update_of_ne hki]
  next hcapacity =>
    refine ⟨?_, ?_, fun k hki _ => Function.update_of_ne hki _ _⟩
    · rw [Function.update_self]
      obtain ⟨b, hb⟩ := Option.ne_none_iff_exists'.mp fun hnone => hcapacity (hj.inline.mp hnone)
      have hblock : (s j).block = b := by rw [block, hb]; rfl
      exact {
        size := hj.size
        holds := by
          rw [hb]
          exact hblock ▸ hj.holds
        length := by
          rw [hb]
          exact hblock ▸ hj.length
        buffer := hbuffer
        inline := hj.inline
        least := hj.least
        bounded := hj.bounded }
    · rw [Function.update_of_ne hij.symm, hj.buffer]

theorem moveAssign_spec (hs : ∀ k, Represents V (s k) (l k)) (hij : i ≠ j) :
    Ends (fun s' => ∀ k, Represents V (s' k) (Function.update (Function.update l i (l j)) j [] k))
      (moveAssign V i j s) := by
  have hsize := (hs i).size
  have hlength := (hs i).holds.1
  have hdestroy : (s i).block.destroy 0 (s i).size = some ((s i).block.fill 0 (s i).size .raw) :=
    Block.destroy_eq (by omega) fun k _ hk => (hs i).holds.ne_raw (by omega)
  have hfilled : ((s i).block.fill 0 (s i).size .raw).length = (s i).block.length := rfl
  unfold moveAssign
  rw [hdestroy]
  show Ends _ (release V _ >>= _)
  rw [release_eq (by rw [setBlock_heap, setBlock_capacity]; exact (hs i).inline)]
  have hsteal := steal_spec (V := V) (i := i) (j := j)
    (s := Function.update s i { (s i).setBlock ((s i).block.fill 0 (s i).size .raw) with heap := none })
    (by
      rw [Function.update_self]
      exact (setBlock_buffer (s i) hfilled).trans (hs i).buffer)
    (by
      rw [Function.update_of_ne hij.symm]
      exact hs j)
    hij
  apply hsteal.bind
  rintro s' ⟨hi, hj, hrest⟩ k
  rcases eq_or_ne k j with rfl | hkj
  · rw [Function.update_self, Function.update_self]
    exact represents_emptied hj
  · rw [Function.update_of_ne hkj, Function.update_of_ne hkj]
    rcases eq_or_ne k i with rfl | hki
    · rw [Function.update_self]
      exact hi
    · rw [Function.update_of_ne hki, hrest k hki hkj, Function.update_of_ne hki]
      exact hs k

end Assignment

end SmallVector

/-! ## The calls on lists -/

namespace VectorOp

open SmallVector

variable {ι T : Type} [DecidableEq ι] {V : VectorType T}

def argIn (xs : List T) : Arg T → Option T
  | .value a => some a
  | .element i => xs[i]?

def insertedAt (pos : Nat) (as xs : List T) : Option (List T) :=
  if pos ≤ xs.length then some (xs.take pos ++ as ++ xs.drop pos) else none

def onList (i : ι) (f : List T → Option (List T)) (l : ι → List T) : Option (ι → List T) :=
  (f (l i)).map (Function.update l i)

def listStep (V : VectorType T) (l : ι → List T) : VectorOp ι T → Option (ι → List T)
  | .pushBack i arg | .emplaceBack i arg => onList i (fun xs => (argIn xs arg).map fun a => xs ++ [a]) l
  | .insert i _ pos arg => onList i (fun xs => (argIn xs arg).bind fun a => insertedAt pos [a] xs) l
  | .insertCount i _ pos count arg =>
    onList i (fun xs => (argIn xs arg).bind fun a => insertedAt pos (List.replicate count.toNat a) xs) l
  | .insertRange i _ pos as _ => onList i (insertedAt pos as) l
  | .erase i first last =>
    onList i (fun xs => if first ≤ xs.length ∧ last ≤ xs.length then some (erased first last xs) else none) l
  | .resize i newSize => onList i (fun xs => some (resized newSize.toNat V.value xs)) l
  | .resizeValue i newSize arg => onList i (fun xs => (argIn xs arg).map fun a => resized newSize.toNat a xs) l
  | .clear i => onList i (fun _ => some []) l
  | .shrinkToFit _ => some l
  | .copyAssign i j => some (Function.update l i (l j))
  | .moveAssign i j => some (Function.update (Function.update l i (l j)) j [])

def listRun (V : VectorType T) (ops : List (VectorOp ι T)) (l : ι → List T) : Option (ι → List T) :=
  ops.foldlM (listStep V) l

def Outside : Arg T → Prop
  | .value _ => True
  | .element _ => False

/-- No argument refers into the vector, and nothing is moved onto itself. -/
def Allows (V : VectorType T) (l : ι → List T) : VectorOp ι T → Prop
  | .pushBack _ arg | .emplaceBack _ arg | .insert _ _ _ arg | .resizeValue _ _ arg => Outside arg
  | .insertCount i trivial pos count arg =>
    Outside arg ∧ (trivial = true ∨ Displaces V (l i) pos count.toNat)
  | .insertRange i trivial pos as _ => trivial = true ∨ Displaces V (l i) pos as.length
  | .copyAssign i j | .moveAssign i j => i ≠ j
  | _ => True

def AllowsAll (V : VectorType T) : (ι → List T) → List (VectorOp ι T) → Prop
  | _, [] => True
  | l, op :: ops => Allows V l op ∧ ∀ l', listStep V l op = some l' → AllowsAll V l' ops

/-! ## Runs -/

variable {s : ι → SmallVector T} {l l' : ι → List T}

theorem onVector_spec (hs : ∀ k, Represents V (s k) (l k)) {i : ι}
    {f : SmallVector T → Except VectorError (SmallVector T)} {g : List T → Option (List T)}
    (hl : onList i g l = some l')
    (h : ∀ ys, g (l i) = some ys → Ends (fun v => Represents V v ys) (f (s i))) :
    Ends (fun s' => ∀ k, Represents V (s' k) (l' k)) (onVector i f s) := by
  obtain ⟨ys, hys, rfl⟩ := Option.map_eq_some_iff.mp hl
  exact (h ys hys).map fun v hv k => represents_update hs hv k

theorem insert_spec {v : SmallVector T} {xs as ys : List T} (h : Represents V v xs) {trivial : Bool} {pos : Nat}
    {func : SmallVector T → SmallVector T → Storage.Block T → Except VectorError (List T)}
    (hfunc : ∀ v' b, func v v' b = .ok as) (hys : insertedAt pos as xs = some ys) (hbound : as.length < 2 ^ 64)
    (hpath : trivial = true ∨ Displaces V xs pos as.length) :
    Ends (fun v' => Represents V v' ys) ((genericInsert V trivial pos as.length func v).map Prod.fst) := by
  unfold insertedAt at hys
  split at hys
  next hpos =>
    cases hys
    exact (genericInsert_spec h hfunc hpos hbound hpath).map fun r hr => hr.1
  next => cases hys

theorem insertCount_spec {v : SmallVector T} {xs ys : List T} (h : Represents V v xs) {trivial : Bool} {pos : Nat}
    {count : BitVec 64} {a : T} (hys : insertedAt pos (replicate count.toNat a) xs = some ys)
    (hpath : trivial = true ∨ Displaces V xs pos count.toNat) :
    Ends (fun v' => Represents V v' ys) ((v.insertCount V trivial pos count.toNat (.value a)).map Prod.fst) := by
  have hlength : (replicate count.toNat a).length = count.toNat := length_replicate
  have hinsert : Ends (fun v => Represents V v ys)
      ((genericInsert V trivial pos (replicate count.toNat a).length
        (fun before v b => (readArg (.value a) before v b).map (replicate count.toNat)) v).map Prod.fst) :=
    insert_spec h (fun _ _ => rfl) hys (by rw [hlength]; exact count.isLt) (by rw [hlength]; exact hpath)
  rwa [hlength] at hinsert

theorem step_spec (hs : ∀ k, Represents V (s k) (l k)) {op : VectorOp ι T} (hop : Allows V l op)
    (hl : listStep V l op = some l') : Ends (fun s' => ∀ k, Represents V (s' k) (l' k)) (step V s op) := by
  cases op <;> dsimp only [listStep, step] at hl ⊢
  case pushBack i arg =>
    rcases arg with a | _
    · refine onVector_spec hs hl fun ys hys => ?_
      cases hys
      exact emplaceBack_spec (hs i) a
    · exact hop.elim
  case emplaceBack i arg =>
    rcases arg with a | _
    · refine onVector_spec hs hl fun ys hys => ?_
      cases hys
      exact emplaceBack_spec (hs i) a
    · exact hop.elim
  case insert i trivial pos arg =>
    rcases arg with a | _
    · refine onVector_spec hs hl fun ys hys => ?_
      exact insert_spec (hs i) (fun _ _ => rfl) (show insertedAt pos [a] (l i) = some ys from hys) (by simp)
        (Or.inr (Or.inl (by simp)))
    · exact hop.elim
  case insertCount i trivial pos count arg =>
    rcases arg with a | _
    · refine onVector_spec hs hl fun ys hys => ?_
      exact insertCount_spec (hs i) hys hop.2
    · exact hop.1.elim
  case insertRange i trivial pos as fits =>
    refine onVector_spec hs hl fun ys hys => ?_
    exact insert_spec (hs i) (fun _ _ => rfl) hys fits hop
  case erase i first last =>
    refine onVector_spec hs hl fun ys hys => ?_
    split at hys
    next hplace =>
      cases hys
      exact erase_spec (hs i) hplace.1 hplace.2
    next => cases hys
  case resize i newSize =>
    refine onVector_spec hs hl fun ys hys => ?_
    cases hys
    exact genericResize_spec (hs i) newSize.isLt V.value
  case resizeValue i newSize arg =>
    rcases arg with a | _
    · refine onVector_spec hs hl fun ys hys => ?_
      cases hys
      exact genericResize_spec (hs i) newSize.isLt a
    · exact hop.elim
  case clear i =>
    refine onVector_spec hs hl fun ys hys => ?_
    cases hys
    exact clear_spec (hs i)
  case shrinkToFit i =>
    cases hl
    apply (shrinkToFit_spec (hs i)).map
    intro v hv k
    have hupdate := represents_update (i := i) hs hv k
    rwa [Function.update_eq_self] at hupdate
  case copyAssign i j =>
    cases hl
    exact copyAssign_spec hs hop
  case moveAssign i j =>
    cases hl
    exact moveAssign_spec hs hop

theorem run_spec (ops : List (VectorOp ι T)) (hs : ∀ k, Represents V (s k) (l k)) (hops : AllowsAll V l ops)
    (hl : listRun V ops l = some l') : Ends (fun s' => ∀ k, Represents V (s' k) (l' k)) (run V ops s) := by
  induction ops generalizing s l with
  | nil =>
    cases hl
    exact hs
  | cons op ops ih =>
    obtain ⟨l₁, hl₁, hl⟩ := Option.bind_eq_some_iff.mp hl
    exact (step_spec hs hops.1 hl₁).bind fun s₁ hs₁ => ih hs₁ (hops.2 l₁ hl₁) hl

/-- From empty vectors, the vectors are the lists, and both paths of an insertion agree. -/
theorem run_toList (ops : List (VectorOp ι T)) (hops : AllowsAll V (fun _ => []) ops)
    (hl : listRun V ops (fun _ => []) = some l) :
    run V ops (fun _ => make V) = .error .tooLong ∨ ∃ s, run V ops (fun _ => make V) = .ok s ∧
        (∀ i, (s i).toList = (l i).map .alive ∧ (s i).size ≤ (s i).capacity) ∧
        ∀ i pos (as : List T) func, (∀ v b, func (s i) v b = .ok as) → pos ≤ (l i).length → as.length < 2 ^ 64 →
          Displaces V (l i) pos as.length →
            genericInsert V true pos as.length func (s i) = genericInsert V false pos as.length func (s i) := by
  have hrun := run_spec ops (fun _ => represents_make V) hops hl
  rcases hresult : run V ops (fun _ => make V) with (_ | _) | s
  · exact Or.inl rfl
  · rw [hresult] at hrun
    exact hrun.elim
  · rw [hresult] at hrun
    refine Or.inr ⟨s, rfl, fun i => ⟨(hrun i).toList_eq, (hrun i).size_le⟩, ?_⟩
    intro i pos as func hfunc hpos hbound hpath
    exact genericInsert_trivial (hrun i) hfunc hpos hbound hpath

def numbers (selfMove : Nat → Storage.Slot Nat) : VectorType Nat where
  N := 2
  N_ne := by decide
  N_lt := by decide
  sizeof := 8
  value := 0
  selfMove := selfMove

theorem run_toList_copied :
    let ops : List (VectorOp Bool Nat) :=
      [.pushBack false (.value 1), .insertCount false false 0 2 (.value 7), .copyAssign true false]
    run (numbers .alive) ops (fun _ => make (numbers .alive)) = .error .tooLong ∨
      ∃ s, run (numbers .alive) ops (fun _ => make (numbers .alive)) = .ok s ∧
        (s true).toList = [.alive 7, .alive 7, .alive 1] := by
  intro ops
  have hops : AllowsAll (numbers .alive) (fun _ => []) ops := by
    refine ⟨trivial, fun _ h => ?_⟩
    refine ⟨⟨trivial, Or.inr (Or.inl (by decide))⟩, fun _ h => ?_⟩
    exact ⟨Bool.noConfusion, fun _ _ => trivial⟩
  apply (run_toList ops hops rfl).imp_right
  rintro ⟨s, hs, hlists, -⟩
  exact ⟨s, hs, (hlists true).1⟩

/-- A copy to itself, an insertion of nothing, an argument out of the vector. -/
theorem run_loses :
    let elements (V : VectorType Nat) (ops : List (VectorOp Unit Nat)) :=
      (run V ops (fun _ => make V)).toOption.map fun s => (s ()).toList
    let lists (V : VectorType Nat) (ops : List (VectorOp Unit Nat)) := (listRun V ops (fun _ => [])).map fun l => l ()
    let copied : List (VectorOp Unit Nat) := [.pushBack () (.value 1), .copyAssign () ()]
    let nothing : List (VectorOp Unit Nat) := [.pushBack () (.value 1), .insertCount () false 0 0 (.value 2)]
    let again : List (VectorOp Unit Nat) :=
      [.resize () 3, .clear (), .pushBack () (.value 1), .pushBack () (.value 2), .insert () true 0 (.element 1)]
    (elements (numbers .alive) copied = some [] ∧ lists (numbers .alive) copied = some [1]) ∧
      (elements (numbers fun _ => .moved) nothing = some [.moved] ∧
        lists (numbers fun _ => .moved) nothing = some [1]) ∧
      (elements (numbers .alive) again = some [.alive 1, .alive 1, .alive 2] ∧
        lists (numbers .alive) again = some [2, 1, 2]) := by
  decide +kernel

end VectorOp

end Terminal.Til
