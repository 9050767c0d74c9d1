import Mathlib.Data.BitVec
import Terminal.Til.Spsc
import Terminal.Lib.Ring
import Mathlib.Data.List.Range
import Mathlib.Tactic.Common

/-!
# Every run of a channel

The two words are read as counts of values released and given back. The counts only grow, and the
slots in use are the window between them.
-/

namespace Terminal.Til.Spsc

open List BitVec

/-! ## The words -/

/-- The word of a side that has passed `n` slots of a ring of `cap`. -/
def word (cap n : Nat) (dropped : Bool) : SizeType :=
  BitVec.cons dropped (BitVec.cons (decide (n / cap % 2 = 1)) (BitVec.ofNat 30 (n % cap)))

theorem positionMask_eq : positionMask = cons false (cons false (allOnes 30)) := by decide
theorem revolutionFlag_eq : revolutionFlag = cons false (cons true 0) := by decide
theorem dropFlag_eq : dropFlag = cons true (cons false 0) := by decide
theorem zero_eq : (0 : SizeType) = cons false (cons false 0) := by decide

theorem cons_inj {w : Nat} {a b : Bool} {x y : BitVec w} : cons a x = cons b y ↔ a = b ∧ x = y := by
  constructor
  · intro h
    have ha := congrArg BitVec.msb h
    have hx := congrArg (setWidth w) h
    simpa using And.intro ha hx
  · rintro ⟨rfl, rfl⟩
    rfl

theorem eq_cons_of_lt {x : SizeType} (h : x.toNat < 2 ^ 30) :
    x = BitVec.cons false (BitVec.cons false (BitVec.ofNat 30 x.toNat)) := by
  apply BitVec.eq_of_toNat_eq
  simp only [BitVec.toNat_cons', Bool.toNat_false, Nat.zero_shiftLeft, Nat.zero_add]
  exact (Nat.mod_eq_of_lt h).symm

section

variable {cap n m : Nat} {d d' : Bool}

theorem position_toNat (hcap : 0 < cap) (hle : cap ≤ 2 ^ 30) : (word cap n d &&& positionMask).toNat = n % cap := by
  have := Nat.mod_lt n hcap
  simp only [word, positionMask_eq, cons_and_cons, Bool.and_false, and_allOnes, toNat_cons',
    Bool.toNat_false, Nat.zero_shiftLeft, Nat.zero_add, toNat_ofNat]
  exact Nat.mod_eq_of_lt (by omega)

theorem word_and_dropFlag : word cap n d &&& dropFlag = 0 ↔ d = false := by
  simp only [word, dropFlag_eq, zero_eq, cons_and_cons, cons_inj]
  simp

theorem word_or_dropFlag : word cap n false ||| dropFlag = word cap n true := by
  simp only [word, dropFlag_eq, cons_or_cons]
  simp

theorem word_and_revolutionFlag : word cap n d &&& revolutionFlag = cons false (cons (decide (n / cap % 2 = 1)) 0) := by
  simp only [word, revolutionFlag_eq, cons_and_cons]
  simp

theorem word_xor_revolutionFlag : (word cap n d ^^^ word cap m d') &&& revolutionFlag ≠ 0 ↔
    n / cap % 2 ≠ m / cap % 2 := by
  simp only [word, revolutionFlag_eq, zero_eq, cons_and_cons, cons_xor_cons, cons_inj, ne_eq]
  simp
  omega

theorem word_xor_eq (hcap : 0 < cap) (hle : cap ≤ 2 ^ 30) (dropped revolution : Bool) :
    word cap n d ^^^ word cap m d' = BitVec.cons dropped (BitVec.cons revolution 0) ↔
      (d ^^ d') = dropped ∧ decide (n / cap % 2 ≠ m / cap % 2) = revolution ∧ n % cap = m % cap := by
  have hn := Nat.mod_lt n hcap
  have hm := Nat.mod_lt m hcap
  have hposition : BitVec.ofNat 30 (n % cap) ^^^ BitVec.ofNat 30 (m % cap) = 0 ↔ n % cap = m % cap := by
    rw [show (0 : BitVec 30) = 0#30 from rfl, BitVec.xor_eq_zero_iff, ← BitVec.toNat_inj,
      BitVec.toNat_ofNat, BitVec.toNat_ofNat,
      Nat.mod_eq_of_lt (Nat.lt_of_lt_of_le hn hle), Nat.mod_eq_of_lt (Nat.lt_of_lt_of_le hm hle)]
  have hparity : (decide (n / cap % 2 = 1) ^^ decide (m / cap % 2 = 1)) = decide (n / cap % 2 ≠ m / cap % 2) := by
    rcases Nat.mod_two_eq_zero_or_one (n / cap) with h | h <;>
      rcases Nat.mod_two_eq_zero_or_one (m / cap) with h' | h' <;> simp [h, h']
  simp only [word, BitVec.cons_xor_cons, cons_inj, hposition, hparity]

end

/-! ## Acquisitions -/

structure Granted (cap n limit : Nat) (a : Acquisition) (k : Nat) : Prop where
  pos : 0 < k
  first : a.first.toNat = n % cap
  last : a.last.toNat = n % cap + k
  inside : n % cap + k ≤ cap
  within : n + k ≤ limit
  next : a.next = word cap (n + k) false
  alive : a.alive = true

section

variable {cap n m k : Nat} {d d' : Bool} {capacity slots : SizeType} {a : Acquisition}

theorem Granted.mono (h : Granted cap n m a k) {m' : Nat} (hle : m ≤ m') : Granted cap n m' a k :=
  { h with within := Nat.le_trans h.within hle }

theorem Granted.last_ne_zero (h : Granted cap n m a k) : a.last ≠ 0 := by
  intro h0
  have := h.last
  have := h.pos
  rw [h0] at *
  simp at *
  omega

theorem Granted.slot (h : Granted cap n m a k) {j : Nat} (hj : j < k) : (n + j) % cap = n % cap + j := by
  have := h.inside
  exact (Ring.add_of_lt (by omega)).1

theorem next_eq (hcap : 0 < cap) (hle : cap ≤ 2 ^ 30) (hcapacity : capacity.toNat = cap) {last : SizeType}
    (hlast : last.toNat = n % cap + k) (hinside : n % cap + k ≤ cap) :
    (if last ≠ capacity then last ||| (word cap n false &&& revolutionFlag)
      else (word cap n false &&& revolutionFlag) ^^^ revolutionFlag) = word cap (n + k) false := by
  rw [word_and_revolutionFlag]
  by_cases heq : last = capacity
  · obtain ⟨hmod, hdiv⟩ := Ring.add_of_eq hcap (show n % cap + k = cap by rw [← hlast, heq, hcapacity])
    rw [if_neg (not_not_intro heq), revolutionFlag_eq, word, hmod, hdiv]
    rcases Nat.mod_two_eq_zero_or_one (n / cap) with h | h <;> simp [Nat.add_mod, h]
  · have hlt : n % cap + k < cap := by
      rcases Nat.lt_or_eq_of_le hinside with hlt | h
      · exact hlt
      · exact absurd (eq_of_toNat_eq (by omega)) heq
    obtain ⟨hmod, hdiv⟩ := Ring.add_of_lt hlt
    rw [if_pos heq, eq_cons_of_lt (show last.toNat < 2 ^ 30 by omega), word, hmod, hdiv, hlast]
    simp

theorem acquireRange_granted (hcap : 0 < cap) (hle : cap ≤ 2 ^ 30) (hcapacity : capacity.toNat = cap)
    {theirs : SizeType} (htheirs : (theirs &&& positionMask).toNat = m % cap) (hlt : n < m) (hfits : m ≤ n + cap)
    (hslots : 0 < slots.toNat) (hslots' : slots.toNat ≤ positionMask.toNat) :
    ∃ k, k ≤ slots.toNat ∧ Granted cap n m (acquireRange capacity (word cap n false) theirs slots) k := by
  have hmask : positionMask.toNat = 2 ^ 30 - 1 := by decide
  have hfirst := position_toNat (n := n) (d := false) hcap hle
  obtain ⟨hstop, hstop'⟩ := Ring.stop_le hcap hlt hfits
  set stop := if n % cap < m % cap then m % cap else cap with hstop_eq
  have hstop_le : stop ≤ cap := by
    have := Nat.mod_lt m hcap
    rw [hstop_eq]
    split <;> omega
  obtain ⟨last, hlast_eq⟩ : ∃ last, last = if theirs &&& positionMask > word cap n false &&& positionMask
      then theirs &&& positionMask else capacity := ⟨_, rfl⟩
  have hend : last.toNat = stop := by
    simp only [hlast_eq, hstop_eq, lt_def, hfirst, htheirs]
    split
    · exact htheirs
    · exact hcapacity
  have hsum : ((word cap n false &&& positionMask) + slots).toNat = n % cap + slots.toNat := by
    rw [toNat_add]
    omega
  have hlast : (acquireRange capacity (word cap n false) theirs slots).last.toNat =
      n % cap + min (stop - n % cap) slots.toNat := by
    simp only [acquireRange]
    rw [← hlast_eq]
    simp only [lt_def]
    split
    · omega
    · omega
  refine ⟨min (stop - n % cap) slots.toNat, by omega, by omega, hfirst, hlast, by omega, by omega, ?_, rfl⟩
  exact next_eq hcap hle hcapacity hlast (by omega)

theorem acquire_producer (hcap : 0 < cap) (hle : cap ≤ 2 ^ 30) (hnm : m ≤ n) (hfits : n ≤ m + cap) (blocking : Bool) :
    acquire capacity (word cap n false) (word cap m d) revolutionFlag slots blocking =
      if d = true then some ⟨0, 0, 0, false⟩
      else if n = m + cap then if blocking then none else some ⟨0, 0, 0, true⟩
      else some (acquireRange capacity (word cap n false) (word cap m d) slots) := by
  have hfull : word cap n false ^^^ word cap m d = revolutionFlag ↔ d = false ∧ n = m + cap := by
    rw [revolutionFlag_eq, word_xor_eq hcap hle, Ring.eq_add_iff_mod_eq hcap hnm hfits]
    simp
    tauto
  have hflag : revolutionFlag ≠ 0 := by decide
  unfold acquire
  simp only [ne_eq, word_and_dropFlag, hfull, hflag]
  cases d <;> simp

theorem acquire_consumer (hcap : 0 < cap) (hle : cap ≤ 2 ^ 30) (hnm : n ≤ m) (hfits : m ≤ n + cap) (blocking : Bool) :
    acquire capacity (word cap n false) (word cap m d) 0 slots blocking =
      if m = n then
        if d = true then some ⟨0, 0, 0, false⟩ else if blocking then none else some ⟨0, 0, 0, true⟩
      else some (acquireRange capacity (word cap n false) (word cap m d) slots) := by
  have hempty : word cap n false ^^^ word cap m d = 0 ↔ d = false ∧ m = n := by
    rw [zero_eq, word_xor_eq hcap hle, Ring.eq_iff_mod_eq hcap hnm hfits]
    simp
    tauto
  have hclosed : word cap n false ^^^ word cap m d = dropFlag ↔ d = true ∧ m = n := by
    rw [dropFlag_eq, word_xor_eq hcap hle, Ring.eq_iff_mod_eq hcap hnm hfits]
    simp
    tauto
  unfold acquire
  simp only [ne_eq, word_and_dropFlag, hempty, hclosed]
  cases d <;> simp

end

/-! ## The invariant -/

section

variable {T : Type}

/-- Released `n` values, may go up to `limit`, has constructed `pushed`. -/
def Sender.At (cap n limit pushed : Nat) : Sender T → Prop
  | .idle _ | .dropping | .dropped => pushed = n
  | .acquiring _ rest _ _ => pushed = n ∧ rest ≠ [] ∧ rest.length ≤ positionMask.toNat
  | .copying _ rest _ a slot => ∃ k j, Granted cap n limit a k ∧ pushed = n + j ∧ j ≤ k ∧ slot = n % cap + j ∧
      k ≤ j + rest.length ∧ rest.length ≤ positionMask.toNat

/-- Released `n` slots, may go up to `limit`, has moved out `popped`. -/
def Receiver.At (cap n limit popped gone : Nat) : Receiver → Prop
  | .idle _ | .dropping | .dropped => popped = n ∧ gone = n
  | .acquiring _ remaining _ _ => popped = n ∧ gone = n ∧ 0 < remaining.toNat ∧
      remaining.toNat ≤ positionMask.toNat
  | .moving _ remaining _ a slot => ∃ k j, Granted cap n limit a k ∧ popped = n + j ∧ gone = n ∧ j ≤ k ∧
      slot = n % cap + j ∧ k ≤ remaining.toNat ∧ remaining.toNat ≤ positionMask.toNat
  | .destroying _ remaining _ a slot => ∃ k j, Granted cap n limit a k ∧ popped = n + k ∧ gone = n + j ∧ j ≤ k ∧
      slot = n % cap + j ∧ k ≤ remaining.toNat ∧ remaining.toNat ≤ positionMask.toNat

/-- `p` values and `c` slots are released, `d` destroyed. -/
structure System.Holds (p c d : Nat) (s : System T) : Prop where
  cap_pos : 0 < s.capacity.toNat
  cap_le : s.capacity.toNat ≤ 2 ^ 30
  producer : s.producer = word s.capacity.toNat p s.sender.isDropped
  consumer : s.consumer = word s.capacity.toNat c s.receiver.isDropped
  le : c ≤ p
  fits : p ≤ c + s.capacity.toNat
  window : Ring.Window s.capacity.toNat d s.pushed.length s.pushed s.data
  popped : s.popped <+: s.pushed
  sender : s.sender.At s.capacity.toNat p (c + s.capacity.toNat) s.pushed.length
  receiver : s.receiver.At s.capacity.toNat c p s.popped.length d
  closed : ∀ n, s.receiver = .idle (n, false) → s.sender.isDropped = true ∧ s.popped = s.pushed
  dropped : s.eitherSideDropped = (s.sender.isGone || s.receiver.isGone)
  destroyedBy : s.destroyedBy = if s.sender.isGone && s.receiver.isGone then some s.destroyedSlots else none

variable {cap n m p c d q g : Nat} {s : System T}

variable {sender : Sender T} {receiver : Receiver} {rest : List T} {remaining : SizeType}
  {count slot : Nat} {forever : Bool} {a : Acquisition}

theorem Sender.At.mono (h : sender.At cap n m p) {m' : Nat} (hle : m ≤ m') : sender.At cap n m' p := by
  cases sender with
  | copying count rest forever a slot =>
    obtain ⟨k, j, hgranted, hrest⟩ := h
    exact ⟨k, j, hgranted.mono hle, hrest⟩
  | _ => exact h

theorem Receiver.At.mono (h : receiver.At cap n m q g) {m' : Nat} (hle : m ≤ m') : receiver.At cap n m' q g := by
  cases receiver with
  | moving count remaining forever a slot =>
    obtain ⟨k, j, hgranted, hrest⟩ := h
    exact ⟨k, j, hgranted.mono hle, hrest⟩
  | destroying count remaining forever a slot =>
    obtain ⟨k, j, hgranted, hrest⟩ := h
    exact ⟨k, j, hgranted.mono hle, hrest⟩
  | _ => exact h

theorem Sender.At.le (h : sender.At cap n m p) (hnm : n ≤ m) : n ≤ p ∧ p ≤ m := by
  cases sender with
  | copying count rest forever a slot =>
    obtain ⟨k, j, hgranted, hp, hj, -⟩ := h
    have := hgranted.within
    omega
  | acquiring count rest forever blocking =>
    have := h.1
    omega
  | _ =>
    have : p = n := h
    omega

theorem Receiver.At.eq_of_isGone (h : receiver.At cap n m q g) (hgone : receiver.isGone = true) : q = n ∧ g = n := by
  cases receiver with
  | dropped => exact h
  | _ => cases hgone

theorem Sender.At.eq_of_isDropped (h : sender.At cap n m p) (hdropped : sender.isDropped = true) : p = n := by
  cases sender with
  | dropping => exact h
  | dropped => exact h
  | _ => cases hdropped

theorem Receiver.At.le (h : receiver.At cap n m q g) (hnm : n ≤ m) : n ≤ g ∧ g ≤ q ∧ q ≤ m := by
  cases receiver with
  | moving count remaining forever a slot =>
    obtain ⟨k, j, hgranted, hq, hg, hj, -⟩ := h
    have := hgranted.within
    omega
  | destroying count remaining forever a slot =>
    obtain ⟨k, j, hgranted, hq, hg, hj, -⟩ := h
    have := hgranted.within
    omega
  | acquiring count remaining forever blocking =>
    obtain ⟨hq, hg, -⟩ := h
    omega
  | _ =>
    obtain ⟨hq, hg⟩ : q = n ∧ g = n := h
    omega

theorem holds_channel {capacity : SizeType} (hchannel : channel capacity = some s) (hle : capacity.toNat ≤ 2 ^ 30) :
    s.Holds 0 0 0 := by
  unfold channel at hchannel
  split at hchannel
  · cases hchannel
  · next hne =>
    cases hchannel
    have hword : word capacity.toNat 0 false = 0 := by
      simp only [word, Nat.zero_div, zero_eq]
      rfl
    refine ⟨?_, hle, hword.symm, hword.symm, Nat.le_refl 0, Nat.zero_le _, Ring.window_empty _, prefix_rfl, rfl,
      ⟨rfl, rfl⟩, ?_, rfl, rfl⟩
    · exact Nat.pos_of_ne_zero fun h => hne (eq_of_toNat_eq h)
    · rintro n ⟨⟩

/-! ## The steps -/

@[simp] theorem isDropped_pushLoop (count : Nat) (rest : List T) (forever blocking : Bool) :
    (pushLoop count rest forever blocking).isDropped = false := by
  unfold pushLoop
  split <;> rfl

@[simp] theorem isGone_pushLoop (count : Nat) (rest : List T) (forever blocking : Bool) :
    (pushLoop count rest forever blocking).isGone = false := by
  unfold pushLoop
  split <;> rfl

theorem at_pushLoop (count : Nat) (forever blocking : Bool)
    (h : rest.length ≤ positionMask.toNat) : (pushLoop count rest forever blocking).At cap n m n := by
  unfold pushLoop
  split
  · exact rfl
  · next hne => exact ⟨rfl, hne, h⟩

@[simp] theorem isDropped_popLoop (count : Nat) (remaining : SizeType) (forever blocking : Bool) :
    (popLoop count remaining forever blocking).isDropped = false := by
  unfold popLoop
  split <;> rfl

@[simp] theorem isGone_popLoop (count : Nat) (remaining : SizeType) (forever blocking : Bool) :
    (popLoop count remaining forever blocking).isGone = false := by
  unfold popLoop
  split <;> rfl

theorem at_popLoop (count : Nat) (forever blocking : Bool)
    (h : remaining.toNat ≤ positionMask.toNat) : (popLoop count remaining forever blocking).At cap n m n n := by
  unfold popLoop
  split
  · exact ⟨rfl, rfl⟩
  · next hne => exact ⟨rfl, rfl, Nat.pos_of_ne_zero fun h => hne (eq_of_toNat_eq h), h⟩

theorem popLoop_ne_closed (count : Nat) (remaining : SizeType) (forever blocking : Bool) (n : Nat) :
    popLoop count remaining forever blocking ≠ .idle (n, false) := by
  unfold popLoop
  split <;> simp

theorem Sender.isDropped_of_isGone (h : sender.isGone = true) : sender.isDropped = true := by
  cases sender <;> first | rfl | cases h

theorem Sender.isGone_eq_false (h : sender.isDropped = false) : sender.isGone = false := by
  cases sender <;> first | rfl | cases h

theorem Receiver.isGone_eq_false (h : receiver.isDropped = false) : receiver.isGone = false := by
  cases receiver <;> first | rfl | cases h

theorem System.Holds.sends (h : s.Holds p c d) (hactive : s.sender.isDropped = false) {data : Nat → Option T}
    {producer : SizeType} {pushed : List T} (hgone : sender.isGone = false) (hle : p ≤ q)
    (hproducer : producer = word s.capacity.toNat q sender.isDropped) (hfits : q ≤ c + s.capacity.toNat)
    (hwindow : Ring.Window s.capacity.toNat d pushed.length pushed data) (hpushed : s.pushed <+: pushed)
    (hsender : sender.At s.capacity.toNat q (c + s.capacity.toNat) pushed.length) :
    ({ s with data := data, producer := producer, sender := sender, pushed := pushed } : System T).Holds q c d := by
  have hstays := Sender.isGone_eq_false hactive
  refine { h with
    producer := hproducer, le := Nat.le_trans h.le hle, fits := hfits, window := hwindow, sender := hsender
    popped := h.popped.trans hpushed, receiver := h.receiver.mono hle, closed := ?_, dropped := ?_, destroyedBy := ?_ }
  · intro n hn
    exact absurd (hactive.symm.trans (h.closed n hn).1) Bool.false_ne_true
  · rw [h.dropped, hstays, hgone]
  · simpa [hstays, hgone] using h.destroyedBy

theorem System.Holds.withSender (h : s.Holds p c d) (hactive : s.sender.isDropped = false)
    (hsender : sender.At s.capacity.toNat p (c + s.capacity.toNat) s.pushed.length)
    (hactive' : sender.isDropped = false) : ({ s with sender := sender } : System T).Holds p c d :=
  h.sends hactive (Sender.isGone_eq_false hactive') (Nat.le_refl p)
    (by rw [h.producer, hactive, hactive']) h.fits h.window prefix_rfl hsender

theorem System.Holds.receives (h : s.Holds p c d) (hactive : s.receiver.isDropped = false) {data : Nat → Option T}
    {consumer : SizeType} {popped : List T} (hgone : receiver.isGone = false) (hle : c ≤ q) (hle' : q ≤ p)
    (hconsumer : consumer = word s.capacity.toNat q receiver.isDropped)
    (hwindow : Ring.Window s.capacity.toNat g s.pushed.length s.pushed data) (hpopped : popped <+: s.pushed)
    (hreceiver : receiver.At s.capacity.toNat q p popped.length g)
    (hclosed : ∀ n, receiver = .idle (n, false) → s.sender.isDropped = true ∧ popped = s.pushed) :
    ({ s with data := data, consumer := consumer, receiver := receiver, popped := popped } : System T).Holds p q g := by
  have hstays := Receiver.isGone_eq_false hactive
  have hfits := h.fits
  refine { h with
    consumer := hconsumer, le := hle', fits := show p ≤ q + s.capacity.toNat by omega, window := hwindow
    popped := hpopped, sender := h.sender.mono (Nat.add_le_add_right hle _), receiver := hreceiver, closed := hclosed
    dropped := ?_, destroyedBy := ?_ }
  · rw [h.dropped, hstays, hgone]
  · simpa [hstays, hgone] using h.destroyedBy

theorem System.Holds.withReceiver (h : s.Holds p c d) (hactive : s.receiver.isDropped = false)
    (hreceiver : receiver.At s.capacity.toNat c p s.popped.length d) (hactive' : receiver.isDropped = false)
    (hclosed : ∀ n, receiver = .idle (n, false) → s.sender.isDropped = true ∧ s.popped = s.pushed) :
    ({ s with receiver := receiver } : System T).Holds p c d :=
  h.receives hactive (Receiver.isGone_eq_false hactive') (Nat.le_refl c) h.le (by rw [h.consumer, hactive, hactive'])
    h.window h.popped hreceiver hclosed

theorem System.Holds.pushN (h : s.Holds p c d) (forever : Bool) (values : List T) :
    (s.pushN forever values).Holds p c d := by
  unfold System.pushN
  split
  · next result hidle =>
    split
    · exact h
    · next hlength =>
      have hlen : s.pushed.length = p := by
        have := h.sender
        rwa [hidle] at this
      apply h.withSender (by rw [hidle]; rfl) _ (isDropped_pushLoop ..)
      rw [hlen]
      exact at_pushLoop _ _ _ (Nat.le_of_not_lt hlength)
  · exact h

theorem System.Holds.popN (h : s.Holds p c d) (forever : Bool) (count : Nat) : (s.popN forever count).Holds p c d := by
  unfold System.popN
  split
  · next result hidle =>
    split
    · exact h
    · obtain ⟨hpopped, hgone⟩ : s.popped.length = c ∧ d = c := by
        have := h.receiver
        rwa [hidle] at this
      apply h.withReceiver (by rw [hidle]; rfl) _ (isDropped_popLoop ..)
      · intro n hn
        exact absurd hn (popLoop_ne_closed _ _ _ _ n)
      · rw [hpopped, hgone]
        apply at_popLoop
        rw [toNat_ofNat]
        omega
  · exact h

theorem System.Holds.dropProducer (h : s.Holds p c d) : s.dropProducer.Holds p c d := by
  unfold System.dropProducer
  split
  · next result hidle =>
    have hsender := h.sender
    rw [hidle] at hsender
    refine h.sends (by rw [hidle]; rfl) rfl (Nat.le_refl p) ?_ h.fits h.window prefix_rfl hsender
    rw [h.producer, hidle]
    exact word_or_dropFlag
  · exact h

theorem System.Holds.dropConsumer (h : s.Holds p c d) : s.dropConsumer.Holds p c d := by
  unfold System.dropConsumer
  split
  · next result hidle =>
    have hreceiver := h.receiver
    rw [hidle] at hreceiver
    refine h.receives (by rw [hidle]; rfl) rfl (Nat.le_refl c) h.le ?_ h.window h.popped hreceiver (by simp)
    rw [h.consumer, hidle]
    exact word_or_dropFlag
  · exact h

theorem System.exchangeDropped_eq (hdestroyed : s.destroyedBy = none) : s.exchangeDropped = { s with
      eitherSideDropped := true
      destroyedBy := if s.eitherSideDropped then some s.destroyedSlots else none } := by
  unfold System.exchangeDropped
  split
  · next hdropped => rw [← hdropped]
  · rw [← hdestroyed]

theorem System.Holds.exchangeProducer (h : s.Holds p c d) (hdropping : s.sender = .dropping) :
    ({ s.exchangeDropped with sender := .dropped } : System T).Holds p c d := by
  have hsender := h.sender
  have hproducer := h.producer
  have hclosed := h.closed
  have hdropped := h.dropped
  have hdestroyed := h.destroyedBy
  rw [hdropping] at hsender hproducer hclosed hdropped hdestroyed
  rw [System.exchangeDropped_eq (by simpa [Sender.isGone] using hdestroyed)]
  refine { h with producer := hproducer, sender := hsender, closed := hclosed, dropped := rfl, destroyedBy := ?_ }
  simp only [hdropped]
  rfl

theorem System.Holds.exchangeConsumer (h : s.Holds p c d) (hdropping : s.receiver = .dropping) :
    ({ s.exchangeDropped with receiver := .dropped } : System T).Holds p c d := by
  have hreceiver := h.receiver
  have hconsumer := h.consumer
  have hdropped := h.dropped
  have hdestroyed := h.destroyedBy
  rw [hdropping] at hreceiver hconsumer hdropped hdestroyed
  rw [System.exchangeDropped_eq (by simpa [Receiver.isGone] using hdestroyed)]
  refine { h with consumer := hconsumer, receiver := hreceiver, closed := ?_, dropped := ?_, destroyedBy := ?_ }
  · rintro n ⟨⟩
  · simp [Receiver.isGone]
  · simp [hdropped, Receiver.isGone]
    rfl

theorem System.Holds.copy (h : s.Holds p c d) {value : T}
    (hcopying : s.sender = .copying count (value :: rest) forever a slot) (hslot : slot < a.last.toNat) :
    ({ s with
        data := Function.update s.data slot (some value)
        sender := .copying count rest forever a (slot + 1)
        pushed := s.pushed ++ [value] } : System T).Holds p c d := by
  have hsender := h.sender
  have hproducer := h.producer
  rw [hcopying] at hsender hproducer
  obtain ⟨k, j, hgranted, hpushed, hj, rfl, hrest, hmask⟩ := hsender
  simp only [length_cons] at hrest hmask
  have hlast := hgranted.last
  have hwithin := hgranted.within
  obtain ⟨hd, -⟩ := h.receiver.le h.le
  have hwindow := h.window.write (by omega) value
  rw [hpushed, hgranted.slot (by omega), ← hpushed] at hwindow
  refine h.sends (by rw [hcopying]; rfl) rfl (Nat.le_refl p) hproducer h.fits ?_ (prefix_append ..) ?_
  · simpa using hwindow
  · exact ⟨k, j + 1, hgranted, by simp [hpushed, Nat.add_assoc], by omega, rfl, by omega, by omega⟩

theorem System.Holds.releaseProducer (h : s.Holds p c d) (hcopying : s.sender = .copying count rest forever a slot)
    (hslot : ¬slot < a.last.toNat) :
    ({ s with producer := a.next, sender := pushLoop count rest forever forever } : System T).Holds
      s.pushed.length c d := by
  have hsender := h.sender
  rw [hcopying] at hsender
  obtain ⟨k, j, hgranted, hpushed, hj, rfl, hrest, hmask⟩ := hsender
  have hlast := hgranted.last
  have hwithin := hgranted.within
  have hall : s.pushed.length = p + k := by omega
  refine h.sends (by rw [hcopying]; rfl) (isGone_pushLoop ..) (by omega) ?_ (by omega) h.window prefix_rfl
    (at_pushLoop _ _ _ hmask)
  rw [isDropped_pushLoop, hall]
  exact hgranted.next

theorem System.Holds.producerAcquire_cases (h : s.Holds p c d) (hdropped : s.sender.isDropped = false)
    (slots : SizeType) (hslots : 0 < slots.toNat) (hslots' : slots.toNat ≤ positionMask.toNat) (blocking : Bool) :
    s.producerAcquire slots blocking = none ∨ (∃ alive, s.producerAcquire slots blocking = some ⟨0, 0, 0, alive⟩) ∨
      ∃ a k, s.producerAcquire slots blocking = some a ∧ k ≤ slots.toNat ∧
        Granted s.capacity.toNat p (c + s.capacity.toNat) a k := by
  have hfits := h.fits
  simp only [Arc.producerAcquire, h.producer, h.consumer, hdropped, acquire_producer h.cap_pos h.cap_le h.le h.fits]
  split
  · exact .inr (.inl ⟨_, rfl⟩)
  · split
    · cases blocking
      · exact .inr (.inl ⟨_, rfl⟩)
      · exact .inl rfl
    · have hposition := position_toNat (n := c) (d := s.receiver.isDropped) h.cap_pos h.cap_le
      rw [← Nat.add_mod_right] at hposition
      obtain ⟨k, hk, hgranted⟩ := acquireRange_granted h.cap_pos h.cap_le rfl hposition (show p < _ by omega)
        (by have := h.le; omega) hslots hslots'
      exact .inr (.inr ⟨_, k, rfl, hk, hgranted⟩)

theorem System.Holds.producerStep (h : s.Holds p c d) : ∃ p', s.producerStep.Holds p' c d := by
  unfold System.producerStep
  split
  · exact ⟨p, h⟩
  · exact ⟨p, h⟩
  · next count rest forever blocking hacquiring =>
    have hsender := h.sender
    rw [hacquiring] at hsender
    obtain ⟨hpushed, hne, hmask⟩ := hsender
    have hdropped : s.sender.isDropped = false := by rw [hacquiring]; rfl
    have hlength : (BitVec.ofNat 32 rest.length).toNat = rest.length := by
      rw [toNat_ofNat, Nat.mod_eq_of_lt (by omega)]
    have hpos := length_pos_iff.mpr hne
    rcases h.producerAcquire_cases hdropped (BitVec.ofNat 32 rest.length) (by omega) (by omega) blocking with
      heq | ⟨alive, heq⟩ | ⟨a, k, heq, hk, hgranted⟩ <;> rw [heq]
    · exact ⟨p, h⟩
    · exact ⟨p, h.withSender hdropped hpushed rfl⟩
    · simp only [hgranted.last_ne_zero]
      refine ⟨p, h.withSender hdropped ⟨k, 0, hgranted, hpushed, Nat.zero_le k, hgranted.first, ?_, hmask⟩ rfl⟩
      omega
  · next count rest forever a slot hcopying =>
    split
    · next hslot =>
      cases rest with
      | nil => exact ⟨p, h⟩
      | cons value rest => exact ⟨p, h.copy hcopying hslot⟩
    · next hslot => exact ⟨s.pushed.length, h.releaseProducer hcopying hslot⟩
  · next hdropping => exact ⟨p, h.exchangeProducer hdropping⟩

theorem System.Holds.consumerAcquire_eq (h : s.Holds p c d) (hdropped : s.receiver.isDropped = false)
    (slots : SizeType) (blocking : Bool) :
    s.consumerAcquire slots blocking =
      if p = c then
        if s.sender.isDropped = true then some ⟨0, 0, 0, false⟩ else if blocking then none else some ⟨0, 0, 0, true⟩
      else some (acquireRange s.capacity s.consumer s.producer slots) := by
  simp only [Arc.consumerAcquire, h.producer, h.consumer, hdropped, acquire_consumer h.cap_pos h.cap_le h.le h.fits]

theorem System.Holds.consumerRange (h : s.Holds p c d) (hdropped : s.receiver.isDropped = false) (hne : p ≠ c)
    {slots : SizeType} (hslots : 0 < slots.toNat) (hslots' : slots.toNat ≤ positionMask.toNat) :
    ∃ k, k ≤ slots.toNat ∧ Granted s.capacity.toNat c p (acquireRange s.capacity s.consumer s.producer slots) k := by
  have hle := h.le
  simp only [h.producer, h.consumer, hdropped]
  exact acquireRange_granted h.cap_pos h.cap_le rfl (position_toNat h.cap_pos h.cap_le) (by omega) h.fits
    hslots hslots'

theorem System.Holds.move (h : s.Holds p c d) (hmoving : s.receiver = .moving count remaining forever a slot)
    (hslot : slot < a.last.toNat) :
    ∃ value, s.data slot = some value ∧ s.pushed[s.popped.length]? = some value ∧ ({ s with
          receiver := .moving count remaining forever a (slot + 1)
          popped := s.popped ++ [value] } : System T).Holds p c d := by
  have hreceiver := h.receiver
  have hconsumer := h.consumer
  rw [hmoving] at hreceiver hconsumer
  obtain ⟨k, j, hgranted, hpopped, rfl, hj, rfl, hk, hmask⟩ := hreceiver
  have hlast := hgranted.last
  have hwithin := hgranted.within
  obtain ⟨hp, -⟩ := h.sender.le h.fits
  have hlt : s.popped.length < s.pushed.length := by omega
  have hlive := h.window.live s.popped.length (by omega) hlt
  obtain ⟨value, hvalue⟩ : ∃ value, s.pushed[s.popped.length]? = some value := ⟨_, getElem?_eq_getElem hlt⟩
  rw [hvalue, hpopped, hgranted.slot (by omega)] at hlive
  refine ⟨_, hlive, hvalue, ?_⟩
  refine h.receives (by rw [hmoving]; rfl) rfl (Nat.le_refl _) h.le hconsumer h.window ?_ ?_ (by simp)
  · obtain ⟨rest, hrest⟩ := h.popped
    rw [← hrest, getElem?_append_right (Nat.le_refl _), Nat.sub_self] at hvalue
    obtain ⟨rest, rfl⟩ := head?_eq_some_iff.mp (head?_eq_getElem? ▸ hvalue)
    exact ⟨rest, by rw [← hrest, ← append_cons]⟩
  · exact ⟨k, j + 1, hgranted, by simp [hpopped, Nat.add_assoc], rfl, by omega, rfl, hk, hmask⟩

theorem System.Holds.destroy (h : s.Holds p c d)
    (hdestroying : s.receiver = .destroying count remaining forever a slot) (hslot : slot < a.last.toNat) :
    (s.data slot).isSome ∧ ({ s with
          data := Function.update s.data slot none
          receiver := .destroying count remaining forever a (slot + 1) } : System T).Holds p c (d + 1) := by
  have hreceiver := h.receiver
  have hconsumer := h.consumer
  rw [hdestroying] at hreceiver hconsumer
  obtain ⟨k, j, hgranted, hpopped, rfl, hj, rfl, hk, hmask⟩ := hreceiver
  have hlast := hgranted.last
  have hwithin := hgranted.within
  obtain ⟨hp, -⟩ := h.sender.le h.fits
  have hlt : c + j < s.pushed.length := by omega
  have hlive := h.window.live (c + j) (Nat.le_refl _) hlt
  have hclear := h.window.clear hlt
  rw [hgranted.slot (by omega)] at hlive hclear
  refine ⟨by simp [hlive, hlt], ?_⟩
  exact h.receives (by rw [hdestroying]; rfl) rfl (Nat.le_refl c) h.le hconsumer hclear h.popped
    ⟨k, j + 1, hgranted, hpopped, by omega, by omega, rfl, hk, hmask⟩ (by simp)

theorem System.Holds.releaseConsumer (h : s.Holds p c d)
    (hdestroying : s.receiver = .destroying count remaining forever a slot) (hslot : ¬slot < a.last.toNat) :
    ({ s with
        consumer := a.next
        receiver := popLoop count (remaining - (a.last - a.first)) forever forever } : System T).Holds p d d := by
  have hreceiver := h.receiver
  rw [hdestroying] at hreceiver
  obtain ⟨k, j, hgranted, hpopped, rfl, hj, rfl, hk, hmask⟩ := hreceiver
  have hlast := hgranted.last
  have hfirst := hgranted.first
  obtain rfl : j = k := by omega
  refine h.receives (by rw [hdestroying]; rfl) (isGone_popLoop ..) (Nat.le_add_right c j)
    hgranted.within ?_ h.window h.popped ?_ fun n hn => absurd hn (popLoop_ne_closed _ _ _ _ n)
  · rw [isDropped_popLoop]
    exact hgranted.next
  · rw [hpopped]
    apply at_popLoop
    have hgot : (a.last - a.first).toNat = j := by
      rw [toNat_sub_of_le (by rw [le_def]; omega)]
      omega
    rw [toNat_sub_of_le (by rw [le_def, hgot]; exact hk)]
    omega

theorem System.Holds.popped_eq_iff (h : s.Holds p c d) : s.popped = s.pushed ↔ s.popped.length = s.pushed.length :=
  ⟨congrArg length, h.popped.eq_of_length⟩

theorem System.Holds.acquireConsumer (h : s.Holds p c d) {forever blocking : Bool}
    (hacquiring : s.receiver = .acquiring count remaining forever blocking) : s.consumerStep.Holds p c d := by
  have hreceiver := h.receiver
  rw [hacquiring] at hreceiver
  obtain ⟨hpopped, hd, hpos, hmask⟩ := hreceiver
  have hdropped : s.receiver.isDropped = false := by rw [hacquiring]; rfl
  have hidle (n : Nat) (alive : Bool) (halive : alive = false → s.sender.isDropped = true ∧ p = c) :
      ({ s with receiver := .idle (n, alive) } : System T).Holds p c d := by
    refine h.withReceiver hdropped (show (Receiver.idle (n, alive)).At _ _ _ _ _ from ⟨hpopped, hd⟩) rfl ?_
    rintro n ⟨⟩
    obtain ⟨hsender, heq⟩ := halive rfl
    have hpushed := h.sender.eq_of_isDropped hsender
    exact ⟨hsender, h.popped_eq_iff.mpr (by omega)⟩
  unfold System.consumerStep
  rw [hacquiring]
  simp only [h.consumerAcquire_eq hdropped]
  by_cases hpc : p = c
  · rw [if_pos hpc]
    cases hsender : s.sender.isDropped
    · cases blocking
      · exact hidle _ true (by simp)
      · exact h
    · exact hidle _ false fun _ => ⟨hsender, hpc⟩
  · obtain ⟨k, hk, hgranted⟩ := h.consumerRange hdropped hpc hpos hmask
    rw [if_neg hpc]
    simp only [hgranted.last_ne_zero]
    refine h.withReceiver hdropped ⟨k, 0, hgranted, hpopped, hd, Nat.zero_le k, hgranted.first, hk, hmask⟩ rfl ?_
    rintro n ⟨⟩

theorem System.Holds.consumerStep (h : s.Holds p c d) : ∃ c' d', s.consumerStep.Holds p c' d' := by
  cases hreceiver : s.receiver with
  | acquiring count remaining forever blocking => exact ⟨c, d, h.acquireConsumer hreceiver⟩
  | idle result =>
    simp only [System.consumerStep, hreceiver]
    exact ⟨c, d, h⟩
  | moving count remaining forever a slot =>
    simp only [System.consumerStep, hreceiver]
    split
    · next hslot =>
      obtain ⟨value, hdata, -, hmove⟩ := h.move hreceiver hslot
      simp only [hdata]
      exact ⟨c, d, hmove⟩
    · have hat := h.receiver
      rw [hreceiver] at hat
      obtain ⟨k, j, hgranted, hpopped, hd, hj, rfl, hk, hmask⟩ := hat
      have hlast := hgranted.last
      obtain rfl : j = k := by omega
      refine ⟨c, d, h.withReceiver (by rw [hreceiver]; rfl)
        ⟨j, 0, hgranted, hpopped, hd, Nat.zero_le j, hgranted.first, hk, hmask⟩ rfl ?_⟩
      rintro n ⟨⟩
  | destroying count remaining forever a slot =>
    simp only [System.consumerStep, hreceiver]
    split
    · next hslot => exact ⟨c, d + 1, (h.destroy hreceiver hslot).2⟩
    · next hslot => exact ⟨d, d, h.releaseConsumer hreceiver hslot⟩
  | dropping =>
    simp only [System.consumerStep, hreceiver]
    exact ⟨c, d, h.exchangeConsumer hreceiver⟩
  | dropped =>
    simp only [System.consumerStep, hreceiver]
    exact ⟨c, d, h⟩

theorem System.Holds.step (h : s.Holds p c d) (action : Action T) : ∃ p' c' d', (s.step action).Holds p' c' d' := by
  cases action with
  | pushN forever values => exact ⟨p, c, d, h.pushN forever values⟩
  | dropProducer => exact ⟨p, c, d, h.dropProducer⟩
  | producerStep =>
    obtain ⟨p', h'⟩ := h.producerStep
    exact ⟨p', c, d, h'⟩
  | popN forever count => exact ⟨p, c, d, h.popN forever count⟩
  | dropConsumer => exact ⟨p, c, d, h.dropConsumer⟩
  | consumerStep =>
    obtain ⟨c', d', h'⟩ := h.consumerStep
    exact ⟨p, c', d', h'⟩

theorem System.Holds.run (h : s.Holds p c d) (actions : List (Action T)) :
    ∃ p' c' d', (s.run actions).Holds p' c' d' := by
  induction actions generalizing s p c d with
  | nil => exact ⟨p, c, d, h⟩
  | cons action actions ih =>
    obtain ⟨p', c', d', h'⟩ := h.step action
    exact ih h'

/-! ## The promises -/

theorem System.Holds.destroyedSlots (h : s.Holds p c d) : s.destroyedSlots.Nodup ∧
      ∀ i, i ∈ s.destroyedSlots ↔ ∃ v, c ≤ v ∧ v < p ∧ v % s.capacity.toNat = i := by
  have hcap := h.cap_pos
  simp only [Arc.destroyedSlots, h.producer, h.consumer, position_toNat hcap h.cap_le, word_xor_revolutionFlag,
    Ring.exists_mod_eq_iff hcap h.le h.fits]
  rcases Ring.div_mod_cases hcap h.le h.fits with ⟨hdiv, hle⟩ | ⟨hdiv, hle⟩
  · rw [hdiv]
    split
    · refine ⟨nodup_range', ?_⟩
      simp
      omega
    · simp
      omega
  · rw [if_neg (by omega), if_pos (by omega)]
    constructor
    · refine nodup_append.mpr ⟨nodup_range, nodup_range', ?_⟩
      intro a ha b hb
      simp at ha hb
      omega
    · intro i
      rw [if_neg (by omega)]
      simp
      omega

theorem System.Holds.safe (h : s.Holds p c d) : s.Safe := by
  obtain ⟨hd, hd', hq⟩ := h.receiver.le h.le
  refine ⟨h.popped, ?_, ?_, ?_, h.closed, ?_, ?_, ?_⟩
  · intro count rest forever a slot hcopying hslot
    have hsender := h.sender
    rw [hcopying] at hsender
    obtain ⟨k, j, hgranted, hpushed, hj, rfl, -⟩ := hsender
    have hlast := hgranted.last
    have hinside := hgranted.inside
    have hwithin := hgranted.within
    have hfree := h.window.next_free (by omega)
    rw [hpushed, hgranted.slot (by omega)] at hfree
    exact ⟨by omega, hfree⟩
  · intro count remaining forever a slot hmoving hslot
    obtain ⟨value, hdata, hnext, -⟩ := h.move hmoving hslot
    rw [hdata, hnext]
    exact ⟨rfl, rfl⟩
  · intro count remaining forever a slot hdestroying hslot
    exact (h.destroy hdestroying hslot).1
  · intro count remaining forever blocking hsender hacquiring
    have hreceiver := h.receiver
    rw [hacquiring] at hreceiver
    obtain ⟨hpopped, -, hpos, hmask⟩ := hreceiver
    have hpushed := h.sender.eq_of_isDropped hsender
    have hdropped : s.receiver.isDropped = false := by rw [hacquiring]; rfl
    rw [h.consumerAcquire_eq hdropped, h.popped_eq_iff, hpopped, hpushed]
    by_cases hpc : p = c
    · refine ⟨⟨0, 0, 0, false⟩, ?_, ?_, ?_⟩ <;> simp [hpc, hsender]
    · obtain ⟨k, hk, hgranted⟩ := h.consumerRange hdropped hpc hpos hmask
      refine ⟨_, by rw [if_neg hpc], ?_, ?_⟩
      · exact iff_of_false hgranted.last_ne_zero (Ne.symm hpc)
      · exact iff_of_false hgranted.last_ne_zero (by simp [hgranted.alive])
  · rw [h.destroyedBy]
    cases s.sender.isGone <;> cases s.receiver.isGone <;> simp
  · intro slots hslots
    rw [h.destroyedBy] at hslots
    split at hslots
    · next hgone =>
      cases hslots
      rw [Bool.and_eq_true] at hgone
      have hpushed := h.sender.eq_of_isDropped (Sender.isDropped_of_isGone hgone.1)
      obtain ⟨-, rfl⟩ := h.receiver.eq_of_isGone hgone.2
      obtain ⟨hnodup, hmem⟩ := h.destroyedSlots
      refine ⟨hnodup, fun i => ?_⟩
      rw [hmem, h.window.isSome_iff, hpushed]
    · cases hslots

end

/-! ## Rings of more slots than positions

A producer that fills `2 ^ 30` slots carries into the revolution flag: the words then read as a
full ring.
-/

section

variable {T : Type} {s : System T} {n : Nat}

structure System.Filled (n : Nat) (s : System T) : Prop where
  capacity : 2 ^ 30 < s.capacity.toNat
  sender : ∃ result, s.sender = .idle result
  receiver : ∃ result, s.receiver = .idle result
  producer : s.producer = BitVec.ofNat 32 n
  consumer : s.consumer = 0
  free : ∀ i, n ≤ i → s.data i = none
  dropped : s.eitherSideDropped = false

theorem System.run_append (s : System T) (actions actions' : List (Action T)) :
    s.run (actions ++ actions') = (s.run actions).run actions' := foldl_append

theorem System.run_copies {count : Nat} {rest : List T} {forever : Bool} {a : Acquisition} {slot : Nat}
    (hcopying : s.sender = .copying count rest forever a slot) (hlast : slot + rest.length = a.last.toNat) :
    ∃ data pushed, s.run (replicate rest.length .producerStep) =
        { s with data := data, pushed := pushed, sender := .copying count [] forever a a.last.toNat } ∧
      ∀ i, a.last.toNat ≤ i → data i = s.data i := by
  induction rest generalizing s slot with
  | nil =>
    refine ⟨s.data, s.pushed, ?_, fun _ _ => rfl⟩
    simp only [length_nil, Nat.add_zero] at hlast
    rw [← hlast, ← hcopying]
    rfl
  | cons value rest ih =>
    simp only [length_cons] at hlast
    have hstep : s.producerStep = { s with
          data := Function.update s.data slot (some value)
          sender := .copying count rest forever a (slot + 1)
          pushed := s.pushed ++ [value] } := by
      simp only [System.producerStep, hcopying]
      rw [if_pos (by omega)]
    have hnext : s.producerStep.sender = .copying count rest forever a (slot + 1) := by rw [hstep]
    obtain ⟨data, pushed, hrun, hdata⟩ := ih hnext (by omega)
    refine ⟨data, pushed, ?_, ?_⟩
    · refine Eq.trans hrun ?_
      rw [hstep]
    · intro i hi
      rw [hdata i hi, hstep]
      exact Function.update_of_ne (by omega) _ _

theorem System.Filled.producerAcquire (h : s.Filled n) {k : Nat} (hk : 0 < k) (hn : n < 2 ^ 30) (hle : n + k ≤ 2 ^ 30) :
    s.producerAcquire (BitVec.ofNat 32 k) true =
      some ⟨BitVec.ofNat 32 n, BitVec.ofNat 32 (n + k), BitVec.ofNat 32 (n + k), true⟩ := by
  have hcapacity := h.capacity
  have hword : BitVec.ofNat 32 n = word (2 ^ 30) n false := by
    rw [eq_cons_of_lt (show (BitVec.ofNat 32 n).toNat < 2 ^ 30 by rw [BitVec.toNat_ofNat]; omega), word,
      Nat.div_eq_of_lt hn, Nat.mod_eq_of_lt hn, BitVec.toNat_ofNat, Nat.mod_eq_of_lt (by omega)]
    rfl
  have hfirst : BitVec.ofNat 32 n &&& positionMask = BitVec.ofNat 32 n := by
    apply BitVec.eq_of_toNat_eq
    nth_rewrite 1 [hword]
    rw [position_toNat (by decide) (Nat.le_refl _), BitVec.toNat_ofNat]
    omega
  have hrevolution : BitVec.ofNat 32 n &&& revolutionFlag = 0 := by
    rw [hword, word_and_revolutionFlag, Nat.div_eq_of_lt hn]
    rfl
  have hwait : BitVec.ofNat 32 n ≠ revolutionFlag := by
    intro heq
    rw [heq] at hrevolution
    exact absurd hrevolution (by decide)
  have hsum : BitVec.ofNat 32 n + BitVec.ofNat 32 k = BitVec.ofNat 32 (n + k) := (BitVec.ofNat_add n k).symm
  have hlast : BitVec.ofNat 32 (n + k) < s.capacity := by
    rw [BitVec.lt_def, BitVec.toNat_ofNat]
    omega
  have hne : BitVec.ofNat 32 (n + k) ≠ s.capacity := BitVec.ne_of_lt hlast
  simp only [Arc.producerAcquire, acquire, acquireRange, h.producer, h.consumer, hfirst, hrevolution, hsum]
  simp [hwait, hlast, hne]

theorem System.Filled.push (h : s.Filled n) {values : List T} (hvalues : values ≠ [])
    (hmask : values.length ≤ positionMask.toNat) (hn : n < 2 ^ 30) (hle : n + values.length ≤ 2 ^ 30) :
    ∃ actions, (s.run actions).Filled (n + values.length) := by
  obtain ⟨result, hsender⟩ := h.sender
  have hpos := List.length_pos_iff.mpr hvalues
  have hlast : (BitVec.ofNat 32 (n + values.length)).toNat = n + values.length := by
    rw [BitVec.toNat_ofNat]
    omega
  have hfirst : (BitVec.ofNat 32 n).toNat = n := by
    rw [BitVec.toNat_ofNat]
    omega
  obtain ⟨a, ha⟩ : ∃ a : Acquisition, a = ⟨BitVec.ofNat 32 n, BitVec.ofNat 32 (n + values.length),
    BitVec.ofNat 32 (n + values.length), true⟩ := ⟨_, rfl⟩
  have hstart : s.run [.pushN true values, .producerStep] =
    { s with sender := .copying values.length values true a n } := by
    have hnonzero : BitVec.ofNat 32 (n + values.length) ≠ 0 := by
      intro h0
      rw [h0] at hlast
      simp at hlast
      omega
    have hcall : s.pushN true values = { s with sender := .acquiring values.length values true true } := by
      simp only [System.pushN, hsender, pushLoop, hvalues, if_false]
      rw [if_neg (by omega)]
    have hacquire := h.producerAcquire hpos hn hle
    simp only [System.run, List.foldl_cons, List.foldl_nil, System.step, hcall, System.producerStep]
    simp only [hacquire, hnonzero, if_false, hfirst, ha]
  obtain ⟨data, pushed, hcopies, hdata⟩ := System.run_copies (s := s.run [.pushN true values, .producerStep])
    (by rw [hstart]) (show n + values.length = a.last.toNat by rw [ha, hlast])
  refine ⟨[.pushN true values, .producerStep] ++ (List.replicate values.length .producerStep ++ [.producerStep]), ?_⟩
  rw [System.run_append, System.run_append, hcopies, hstart]
  have hrelease (t : System T) (ht : t.sender = .copying values.length [] true a a.last.toNat) :
      t.run [.producerStep] = { t with producer := a.next, sender := .idle (values.length, true) } := by
    simp only [System.run, List.foldl_cons, List.foldl_nil, System.step, System.producerStep, ht, pushLoop,
      Nat.lt_irrefl, if_false, if_true]
  rw [hrelease _ rfl]
  refine { h with sender := ⟨_, rfl⟩, producer := by rw [ha], free := ?_ }
  intro i hi
  rw [hstart] at hdata
  exact (hdata i (by rw [ha, hlast]; exact hi)).trans (h.free i (by omega))

theorem System.Filled.not_safe_of_drop (h : s.Filled (2 ^ 30)) :
    ¬(s.run [.dropProducer, .producerStep, .dropConsumer, .consumerStep]).Safe := by
  obtain ⟨result, hsender⟩ := h.sender
  obtain ⟨result', hreceiver⟩ := h.receiver
  intro hsafe
  have hrun : s.run [.dropProducer, .producerStep, .dropConsumer, .consumerStep] = { s with
        producer := revolutionFlag ||| dropFlag, consumer := 0 ||| dropFlag, eitherSideDropped := true
        sender := .dropped, receiver := .dropped
        destroyedBy := some (List.range 0 ++ List.range' 0 s.capacity.toNat) } := by
    have hword : BitVec.ofNat 32 (2 ^ 30) = revolutionFlag := by decide
    have hflags : (((0 : SizeType) ||| dropFlag) ^^^ (revolutionFlag ||| dropFlag)) &&& revolutionFlag ≠ 0 := by decide
    have hfirst : (((0 : SizeType) ||| dropFlag) &&& positionMask).toNat = 0 := by decide
    have hlast : ((revolutionFlag ||| dropFlag) &&& positionMask).toNat = 0 := by decide
    simp only [System.run, foldl_cons, foldl_nil, System.step, System.dropProducer, hsender,
      System.producerStep, System.exchangeDropped, h.dropped, Bool.false_eq_true, if_false, System.dropConsumer,
      hreceiver, System.consumerStep, if_true, Arc.destroyedSlots, h.producer, h.consumer, hword, hfirst, hlast,
      gt_iff_lt, Nat.lt_irrefl, ne_eq, hflags, not_false_eq_true, Nat.sub_zero]
  have hmem := ((hsafe.destroys_rest (range 0 ++ range' 0 s.capacity.toNat) (by rw [hrun])).2 (2 ^ 30)).mp
  rw [hrun] at hmem
  have hnone := h.free (2 ^ 30) (Nat.le_refl _)
  simp only [hnone] at hmem
  have hcapacity := h.capacity
  exact absurd (hmem (by simp; omega)) (by simp)

theorem exists_not_safe [Inhabited T] {capacity : SizeType} (hchannel : channel capacity = some s)
    (hcapacity : 2 ^ 30 < capacity.toNat) : ∃ actions, ¬(s.run actions).Safe := by
  have hmask : positionMask.toNat = 2 ^ 30 - 1 := by decide
  have hfilled : s.Filled 0 := by
    unfold channel at hchannel
    split at hchannel
    · cases hchannel
    · cases hchannel
      exact ⟨hcapacity, ⟨_, rfl⟩, ⟨_, rfl⟩, rfl, rfl, fun _ _ => rfl, rfl⟩
  -- `push_n` takes at most `2 ^ 30 - 1` values, so the last position takes a second call
  have hvalues (k : Nat) : ∃ values : List T, values.length = k := ⟨replicate k default, length_replicate⟩
  obtain ⟨values, hlength⟩ := hvalues (2 ^ 30 - 1)
  obtain ⟨value, hone⟩ := hvalues 1
  obtain ⟨actions, hfilled⟩ := hfilled.push (ne_nil_of_length_pos (show 0 < values.length by omega))
    (by omega) (by omega) (by omega)
  rw [hlength] at hfilled
  obtain ⟨actions', hfilled⟩ := hfilled.push (ne_nil_of_length_pos (show 0 < value.length by omega))
    (by omega) (by omega) (by omega)
  rw [hone] at hfilled
  refine ⟨actions ++ (actions' ++ [.dropProducer, .producerStep, .dropConsumer, .consumerStep]), ?_⟩
  rw [System.run_append, System.run_append]
  exact hfilled.not_safe_of_drop

/-! ## The channel -/

/-- Every run keeps the promises if and only if every slot has a position. -/
theorem run_safe_iff [Inhabited T] {capacity : SizeType} (hchannel : channel capacity = some s) :
    (∀ actions, (s.run actions).Safe) ↔ capacity.toNat ≤ 2 ^ 30 := by
  constructor
  · intro hsafe
    by_contra hle
    obtain ⟨actions, hnot⟩ := exists_not_safe hchannel (Nat.lt_of_not_le hle)
    exact hnot (hsafe actions)
  · intro hle actions
    obtain ⟨p, c, d, h⟩ := (holds_channel hchannel hle).run actions
    exact h.safe

theorem run_safe_ten : (channel 10 : Option (System Nat)) = some { data := fun _ => none, capacity := 10 } ∧
    ∀ actions, (({ data := fun _ => none, capacity := 10 } : System Nat).run actions).Safe :=
  ⟨rfl, (run_safe_iff (show channel 10 = some _ from rfl)).mpr (by decide)⟩

/-- A channel of one slot more than there are positions. -/
theorem run_not_safe : ∃ s : System Nat, channel (2 ^ 30 + 1) = some s ∧ ∃ actions, ¬(s.run actions).Safe :=
  ⟨_, rfl, exists_not_safe (show channel (2 ^ 30 + 1) = some _ from rfl) (by decide)⟩

end

end Terminal.Til.Spsc
