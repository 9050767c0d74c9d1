import Terminal.Til.U8u16
import Mathlib.Data.List.Forall2
import Mathlib.Tactic.IntervalCases

/-!
# Base64 (`base64.cpp`)

Four characters at a time while more than five are left, and then the rest, in which `=` is
skipped. An access outside of the source or of the output buffer is `none`.
-/

namespace Terminal.Parser

open Terminal.Til List

/-! ## The decoder -/

def decodeTable : List (BitVec 8) :=
  List.replicate 43 255 ++ [62, 255, 62, 255, 63, 52, 53, 54, 55, 56, 57, 58, 59, 60, 61, 255, 255, 255, 255, 255, 255,
    255, 0, 1, 2, 3, 4, 5, 6, 7, 8, 9, 10, 11, 12, 13, 14, 15, 16, 17, 18, 19, 20, 21, 22, 23, 24, 25, 255, 255, 255,
    255, 63, 255, 26, 27, 28, 29, 30, 31, 32, 33, 34, 35, 36, 37, 38, 39, 40, 41, 42, 43, 44, 45, 46, 47, 48, 49, 50,
    51, 255, 255, 255, 255, 255]

inductive Base64Result where
  | invalidData
  | converted (result : HResult)
deriving DecidableEq, Repr

structure Base64 where
  result : List UInt8
  out : Nat := 0
  r : BitVec 32 := 0
  error : BitVec 32 := 0
deriving DecidableEq, Repr

namespace Base64

/-- A character above 0x7f and an entry of 255 set a bit of the error. -/
def accumulate (ch : Wchar) (d : Base64) : Base64 :=
  let n := decodeTable.getD (ch &&& 0x7f).toNat 255
  { d with
    error := d.error ||| ((ch ||| n.setWidth 16) &&& 0xff80).setWidth 32
    r := d.r <<< 6 ||| n.setWidth 32 }

def put (d : Base64) (shift : Nat) : Option Base64 := do
  let result ← Span.write d.out [UInt8.ofBitVec ((d.r >>> shift).setWidth 8)] d.result
  return { d with result, out := d.out + 1 }

def decodeBatched (tail : Nat) : List Wchar → Base64 → Option (List Wchar × Base64)
  | ch0 :: ch1 :: ch2 :: ch3 :: rest, d =>
    if tail < rest.length + 4 then do
      let d ← [16, 8, 0].foldlM put ([ch0, ch1, ch2, ch3].foldl (fun d ch => d.accumulate ch) d)
      decodeBatched tail rest d
    else some (ch0 :: ch1 :: ch2 :: ch3 :: rest, d)
  | rest, d => if tail < rest.length then none else some (rest, d)

def decodeTail : List Wchar → Base64 × Nat → Base64 × Nat
  | [], (d, ri) => (d, ri)
  | ch :: rest, (d, ri) => decodeTail rest (if ch ≠ 0x3D then (d.accumulate ch, ri + 1) else (d, ri))

def putTail (ri : Nat) (d : Base64) : Option Base64 :=
  match ri with
  | 2 => [4].foldlM put d
  | 3 => [10, 2].foldlM put d
  | 4 => [16, 8, 0].foldlM put d
  | _ => some { d with error := d.error ||| BitVec.ofNat 32 ri }

def decode (convert : List UInt8 → List Wchar) (src dst : List Wchar) : Option (Base64Result × List Wchar) := do
  let d : Base64 := { result := List.replicate ((src.length + 3) / 4 * 3) 0 }
  let (rest, d) ← decodeBatched (min 5 src.length) src d
  let (d, ri) := decodeTail rest (d, 0)
  let d ← putTail ri d
  if d.error ≠ 0 then return (.invalidData, dst)
  else
    let (result, out) := u8u16Whole convert (d.result.take d.out)
    return (.converted result, out)

end Base64

/-! ## Encoding -/

def base64Group (a b c : UInt8) : List (BitVec 6) :=
  let bits : BitVec 32 := a.toBitVec.setWidth 32 <<< 16 ||| b.toBitVec.setWidth 32 <<< 8 ||| c.toBitVec.setWidth 32
  [18, 12, 6, 0].map fun shift => (bits >>> shift).setWidth 6

def base64Digits : List UInt8 → List (BitVec 6)
  | [] => []
  | [a] => (base64Group a 0 0).take 2
  | [a, b] => (base64Group a b 0).take 3
  | a :: b :: c :: rest => base64Group a b c ++ base64Digits rest

def base64Char (plus slash : Wchar) (digit : BitVec 6) : Wchar :=
  if digit < 26 then 0x41 + digit.setWidth 16
  else if digit < 52 then 0x61 + (digit.setWidth 16 - 26)
  else if digit < 62 then 0x30 + (digit.setWidth 16 - 52)
  else if digit = 62 then plus
  else slash

def IsBase64Char (ch : Wchar) (digit : BitVec 6) : Prop :=
  ch = base64Char 0x2B 0x2F digit ∨ ch = base64Char 0x2D 0x5F digit

def base64Padding (length : Nat) : Nat := (3 - length % 3) % 3

/-- Digits of either alphabet and at most the standard padding. -/
def IsBase64 (src : List Wchar) (bytes : List UInt8) : Prop :=
  ∃ digits padding, List.Forall₂ IsBase64Char digits (base64Digits bytes) ∧ padding ≤ base64Padding bytes.length ∧
    src = digits ++ List.replicate padding 0x3D

/-! ## The output buffer -/

namespace Base64

def byteAt (r : BitVec 32) (shift : Nat) : UInt8 := UInt8.ofBitVec ((r >>> shift).setWidth 8)

def Holds (d : Base64) (size : Nat) (bytes : List UInt8) : Prop :=
  ∃ rest, d.result = bytes ++ rest ∧ d.out = bytes.length ∧ bytes.length + rest.length = size

section

variable {d : Base64} {size : Nat} {bytes : List UInt8}

theorem Holds.written (h : d.Holds size bytes) : d.result.take d.out = bytes := by
  obtain ⟨rest, hresult, hout, -⟩ := h
  rw [hresult, hout, take_left]

theorem put_spec (h : d.Holds size bytes) (hroom : bytes.length < size) (shift : Nat) :
    ∃ d', d.put shift = some d' ∧ d'.Holds size (bytes ++ [byteAt d.r shift]) ∧ d'.r = d.r ∧ d'.error = d.error := by
  obtain ⟨rest, hresult, hout, hsize⟩ := h
  rcases rest with _ | ⟨old, rest⟩
  · simp at hsize
    omega
  · have hwrite := Span.write_append bytes [byteAt d.r shift] [old] rest hout rfl
    rw [singleton_append, ← hresult] at hwrite
    refine ⟨{ d with result := bytes ++ ([byteAt d.r shift] ++ rest), out := d.out + 1 }, ?_,
      ⟨rest, ?_, ?_, ?_⟩, rfl, rfl⟩
    · unfold put
      rw [← byteAt, hwrite]
      rfl
    · rw [append_assoc]
    · simp [hout]
    · rw [length_cons] at hsize
      simp
      omega

theorem puts_spec (shifts : List Nat) (h : d.Holds size bytes) (hroom : bytes.length + shifts.length ≤ size) :
    ∃ d', shifts.foldlM put d = some d' ∧ d'.Holds size (bytes ++ shifts.map (byteAt d.r)) ∧ d'.error = d.error := by
  induction shifts generalizing d bytes with
  | nil => exact ⟨d, rfl, by simpa using h, rfl⟩
  | cons shift shifts ih =>
    rw [length_cons] at hroom
    obtain ⟨d₁, hput, hholds, hr, herror⟩ := put_spec h (by omega) shift
    obtain ⟨d₂, hputs, hholds₂, herror₂⟩ := ih hholds (by simp; omega)
    refine ⟨d₂, by rw [foldlM_cons, hput]; exact hputs, ?_, herror₂.trans herror⟩
    rw [append_assoc, hr] at hholds₂
    exact hholds₂

theorem Holds.of_eq {d' : Base64} (h : d.Holds size bytes) (hresult : d'.result = d.result) (hout : d'.out = d.out) :
    d'.Holds size bytes := by
  obtain ⟨rest, hrest, hlength, hsize⟩ := h
  exact ⟨rest, hresult.trans hrest, hout.trans hlength, hsize⟩

theorem accumulateAll_buffer (chars : List Wchar) (d : Base64) :
    (chars.foldl (fun d ch => d.accumulate ch) d).result = d.result ∧
      (chars.foldl (fun d ch => d.accumulate ch) d).out = d.out := by
  induction chars generalizing d with
  | nil => exact ⟨rfl, rfl⟩
  | cons ch chars ih => exact ih (d.accumulate ch)

theorem decodeTail_eq (rest : List Wchar) (d : Base64) (ri : Nat) : decodeTail rest (d, ri) =
      ((rest.filter (· ≠ 0x3D)).foldl (fun d ch => d.accumulate ch) d, ri + (rest.filter (· ≠ 0x3D)).length) := by
  induction rest generalizing d ri with
  | nil => rfl
  | cons ch rest ih =>
    unfold decodeTail
    by_cases h : ch ≠ 0x3D
    · rw [if_pos h, ih, filter_cons_of_pos (by simpa using h), length_cons]
      congr 1
      omega
    · rw [if_neg h, ih, filter_cons_of_neg (by simpa using h)]

def decodeAll (src : List Wchar) (d : Base64) : Option Base64 := do
  let (rest, d) ← decodeBatched 5 src d
  let (d, ri) := decodeTail rest (d, 0)
  putTail ri d

theorem decodeBatched_short {tail : Nat} {src : List Wchar} (h : src.length ≤ tail) (d : Base64) :
    decodeBatched tail src d = some (src, d) := by
  rcases src with _ | ⟨ch0, _ | ⟨ch1, _ | ⟨ch2, _ | ⟨ch3, rest⟩⟩⟩⟩
  all_goals
    exact if_neg (Nat.not_lt.mpr h)

theorem decodeBatched_min (src : List Wchar) (d : Base64) :
    decodeBatched (min 5 src.length) src d = decodeBatched 5 src d := by
  rcases Nat.le_total 5 src.length with h | h
  · rw [Nat.min_eq_left h]
  · rw [Nat.min_eq_right h, decodeBatched_short (Nat.le_refl _), decodeBatched_short h]

theorem decodeAll_short {src : List Wchar} (h : src.length ≤ 5) (d : Base64) : decodeAll src d =
      putTail (src.filter (· ≠ 0x3D)).length ((src.filter (· ≠ 0x3D)).foldl (fun d ch => d.accumulate ch) d) := by
  unfold decodeAll
  rw [decodeBatched_short h]
  show putTail (decodeTail src (d, 0)).2 (decodeTail src (d, 0)).1 = _
  rw [decodeTail_eq, Nat.zero_add]

theorem decodeAll_batch {rest : List Wchar} (h : 2 ≤ rest.length) (ch0 ch1 ch2 ch3 : Wchar) (d : Base64) :
    decodeAll (ch0 :: ch1 :: ch2 :: ch3 :: rest) d =
      ([16, 8, 0].foldlM put ([ch0, ch1, ch2, ch3].foldl (fun d ch => d.accumulate ch) d)).bind (decodeAll rest) := by
  unfold decodeAll
  rw [decodeBatched, if_pos (by omega)]
  cases [16, 8, 0].foldlM put ([ch0, ch1, ch2, ch3].foldl (fun d ch => d.accumulate ch) d) <;> rfl

theorem putTail_spec (ri : Nat) (h : d.Holds size bytes) (hroom : bytes.length + 3 ≤ size) :
    ∃ d' new, putTail ri d = some d' ∧ d'.Holds size (bytes ++ new) ∧ new.length ≤ 3 := by
  unfold putTail
  split
  · obtain ⟨d', hput, hholds, -⟩ := puts_spec [4] h (by simp; omega)
    exact ⟨d', _, hput, hholds, by simp⟩
  · obtain ⟨d', hput, hholds, -⟩ := puts_spec [10, 2] h (by simp; omega)
    exact ⟨d', _, hput, hholds, by simp⟩
  · obtain ⟨d', hput, hholds, -⟩ := puts_spec [16, 8, 0] h (by simp; omega)
    exact ⟨d', _, hput, hholds, by simp⟩
  · exact ⟨_, [], rfl, by rw [append_nil]; exact h.of_eq rfl rfl, by simp⟩

theorem decodeAll_fits (src : List Wchar) (h : d.Holds size bytes)
    (hroom : bytes.length + (src.length + 3) / 4 * 3 ≤ size) :
    ∃ d' new, decodeAll src d = some d' ∧ d'.Holds size (bytes ++ new) ∧ new.length ≤ (src.length + 3) / 4 * 3 := by
  induction hlength : src.length using Nat.strongRecOn generalizing src d bytes with
  | ind n ih =>
    subst hlength
    rcases Nat.lt_or_ge 5 src.length with hlong | hshort
    · obtain ⟨ch0, ch1, ch2, ch3, rest, rfl⟩ : ∃ ch0 ch1 ch2 ch3 rest, src = ch0 :: ch1 :: ch2 :: ch3 :: rest := by
        rcases src with _ | ⟨ch0, _ | ⟨ch1, _ | ⟨ch2, _ | ⟨ch3, rest⟩⟩⟩⟩
        all_goals simp at hlong
        exact ⟨ch0, ch1, ch2, ch3, rest, rfl⟩
      simp only [length_cons] at hlong hroom ⊢
      have hbuffer := accumulateAll_buffer [ch0, ch1, ch2, ch3] d
      obtain ⟨d₁, hput, hholds, -⟩ := puts_spec [16, 8, 0] (h.of_eq hbuffer.1 hbuffer.2) (by simp; omega)
      obtain ⟨d₂, new, hdecode, hholds₂, hnew⟩ := ih rest.length (by simp; omega) rest hholds (by simp; omega) rfl
      rw [decodeAll_batch (by omega), hput]
      refine ⟨d₂, _, hdecode, by rw [append_assoc] at hholds₂; exact hholds₂, ?_⟩
      simp
      omega
    · rw [decodeAll_short hshort]
      have hbuffer := accumulateAll_buffer (src.filter (· ≠ 0x3D)) d
      rcases src with _ | ⟨ch, rest⟩
      · exact ⟨_, [], rfl, by simpa [putTail] using h, by simp⟩
      · obtain ⟨d', new, hput, hholds, hnew⟩ :=
          putTail_spec ((ch :: rest).filter (· ≠ 0x3D)).length (h.of_eq hbuffer.1 hbuffer.2)
            (by simp at hroom; omega)
        exact ⟨d', new, hput, hholds, by simp; omega⟩

end

/-! ## Digits -/

def Looked (ch : Wchar) (digit : BitVec 6) : Prop :=
  decodeTable.getD (ch &&& 0x7f).toNat 255 = digit.setWidth 8 ∧
    (ch ||| (digit.setWidth 8).setWidth 16) &&& 0xff80 = 0 ∧ ch ≠ 0x3D

instance (ch : Wchar) (digit : BitVec 6) : Decidable (Looked ch digit) := inferInstanceAs (Decidable (_ ∧ _ ∧ _))

theorem looked_standard : ∀ i : Fin 64, Looked (base64Char 0x2B 0x2F (BitVec.ofNat 6 i)) (BitVec.ofNat 6 i) := by
  decide +kernel

theorem looked_url : ∀ i : Fin 64, Looked (base64Char 0x2D 0x5F (BitVec.ofNat 6 i)) (BitVec.ofNat 6 i) := by
  decide +kernel

theorem IsBase64Char.looked {ch : Wchar} {digit : BitVec 6} (h : IsBase64Char ch digit) : Looked ch digit := by
  have hdigit : BitVec.ofNat 6 digit.toFin = digit := BitVec.ofNat_toNat 6 digit
  have hstandard := looked_standard digit.toFin
  have hurl := looked_url digit.toFin
  rw [hdigit] at hstandard hurl
  rcases h with rfl | rfl
  · exact hstandard
  · exact hurl

theorem accumulate_digit {ch : Wchar} {digit : BitVec 6} (h : IsBase64Char ch digit) (d : Base64) :
    d.accumulate ch = { d with r := d.r <<< 6 ||| digit.setWidth 32 } := by
  obtain ⟨hn, herror, -⟩ := IsBase64Char.looked h
  unfold accumulate
  simp only [hn, herror]
  simp

def appendDigits (r : BitVec 32) (digits : List (BitVec 6)) : BitVec 32 :=
  digits.foldl (fun r digit => r <<< 6 ||| digit.setWidth 32) r

theorem accumulateAll_digits {chars : List Wchar} {digits : List (BitVec 6)}
    (h : List.Forall₂ IsBase64Char chars digits) (d : Base64) :
    chars.foldl (fun d ch => d.accumulate ch) d = { d with r := appendDigits d.r digits } := by
  induction h generalizing d with
  | nil => rfl
  | cons h hrest ih =>
    rw [foldl_cons, accumulate_digit h d, ih]
    rfl

theorem filter_digits {chars : List Wchar} {digits : List (BitVec 6)} (h : List.Forall₂ IsBase64Char chars digits)
    (padding : Nat) : (chars ++ replicate padding 0x3D).filter (· ≠ 0x3D) = chars := by
  rw [filter_append, filter_replicate_of_neg (by simp), append_nil]
  induction h with
  | nil => rfl
  | cons h hrest ih => rw [filter_cons_of_pos (by simpa using (IsBase64Char.looked h).2.2), ih]

theorem byteAt_group (r : BitVec 32) (a b c : UInt8) :
    [16, 8, 0].map (byteAt (appendDigits r (base64Group a b c))) = [a, b, c] := by
  simp only [appendDigits, base64Group, byteAt, map_cons, map_nil, foldl_cons, foldl_nil, cons.injEq, and_true]
  -- compared bit by bit
  refine ⟨?_, ?_, ?_⟩
  all_goals
    apply UInt8.eq_of_toBitVec_eq
    ext i hi
    interval_cases i <;> simp

theorem byteAt_digit (r : BitVec 32) (digit : BitVec 6) {shift : Nat} (h : shift ≤ 18) :
    byteAt (r <<< 6 ||| digit.setWidth 32) (shift + 6) = byteAt r shift := by
  unfold byteAt
  congr 1
  ext i hi
  have hsub : shift + 6 + i - 6 = shift + i := by omega
  have hdigit : digit.getLsbD (shift + 6 + i) = false := BitVec.getLsbD_of_ge _ _ (by omega)
  simp only [BitVec.getElem_setWidth, BitVec.getLsbD_ushiftRight, BitVec.getLsbD_or, BitVec.getLsbD_shiftLeft,
    BitVec.getLsbD_setWidth, hdigit, hsub]
  simp
  omega

theorem byteAt_pair (r : BitVec 32) (a b : UInt8) :
    [10, 2].map (byteAt (appendDigits r ((base64Group a b 0).take 3))) = [a, b] := by
  have hgroup := byteAt_group r a b 0
  simp only [map_cons, map_nil, cons.injEq, and_true] at hgroup ⊢
  exact ⟨(byteAt_digit _ _ (by omega)).symm.trans hgroup.1, (byteAt_digit _ _ (by omega)).symm.trans hgroup.2.1⟩

theorem byteAt_single (r : BitVec 32) (a : UInt8) :
    [4].map (byteAt (appendDigits r ((base64Group a 0 0).take 2))) = [a] := by
  have hpair := byteAt_pair r a 0
  simp only [map_cons, map_nil, cons.injEq, and_true] at hpair ⊢
  exact (byteAt_digit _ _ (by omega)).symm.trans hpair.1

/-! ## Decoding what was encoded -/

section

variable {d : Base64} {size : Nat} {bytes : List UInt8}

theorem decodeAll_last {chars : List Wchar} {digits : List (BitVec 6)} (h : List.Forall₂ IsBase64Char chars digits)
    {padding : Nat} (hlength : digits.length + padding ≤ 5) (d : Base64) :
    decodeAll (chars ++ replicate padding 0x3D) d = putTail digits.length { d with r := appendDigits d.r digits } := by
  rw [decodeAll_short (by simpa [h.length_eq] using hlength), filter_digits h, accumulateAll_digits h, h.length_eq]

theorem length_base64Digits {bytes : List UInt8} (h : bytes ≠ []) : 2 ≤ (base64Digits bytes).length := by
  rcases bytes with _ | ⟨a, _ | ⟨b, _ | ⟨c, rest⟩⟩⟩
  · exact absurd rfl h
  all_goals simp [base64Digits, base64Group]

theorem putTail_encoded (shifts : List Nat) {r : BitVec 32} {new : List UInt8} (h : d.Holds size bytes)
    (hroom : bytes.length + shifts.length ≤ size) (hnew : shifts.map (byteAt r) = new) :
    ∃ d', shifts.foldlM put { d with r := r } = some d' ∧ d'.Holds size (bytes ++ new) ∧ d'.error = d.error := by
  subst hnew
  have hholds : ({ d with r := r } : Base64).Holds size bytes := h.of_eq rfl rfl
  exact puts_spec shifts hholds hroom

theorem decodeAll_encoded {src : List Wchar} (v : List UInt8) (hsrc : IsBase64 src v) (h : d.Holds size bytes)
    (hroom : bytes.length + (src.length + 3) / 4 * 3 ≤ size) :
    ∃ d', decodeAll src d = some d' ∧ d'.Holds size (bytes ++ v) ∧ d'.error = d.error := by
  induction v using base64Digits.induct generalizing src d bytes with
  | case1 =>
    obtain ⟨chars, padding, hchars, hpadding, rfl⟩ := hsrc
    rw [decodeAll_last hchars (by simp [base64Digits, base64Padding] at hpadding ⊢; omega)]
    refine ⟨_, rfl, ?_, ?_⟩
    · rw [append_nil]
      exact h.of_eq rfl rfl
    · simp [base64Digits]
  | case2 a =>
    obtain ⟨chars, padding, hchars, hpadding, rfl⟩ := hsrc
    have hlength := hchars.length_eq
    simp [base64Padding] at hpadding
    simp [base64Digits, base64Group] at hlength
    rw [decodeAll_last hchars (by simp [base64Digits]; omega)]
    exact putTail_encoded [4] h (by simp [hlength] at hroom ⊢; omega) (byteAt_single d.r a)
  | case3 a b =>
    obtain ⟨chars, padding, hchars, hpadding, rfl⟩ := hsrc
    have hlength := hchars.length_eq
    simp [base64Padding] at hpadding
    simp [base64Digits, base64Group] at hlength
    rw [decodeAll_last hchars (by simp [base64Digits]; omega)]
    exact putTail_encoded [10, 2] h (by simp [hlength] at hroom ⊢; omega) (byteAt_pair d.r a b)
  | case4 a b c rest ih =>
    obtain ⟨chars, padding, hchars, hpadding, rfl⟩ := hsrc
    have hpadding' : padding ≤ base64Padding rest.length := by
      simp only [base64Padding, length_cons] at hpadding ⊢
      omega
    rcases rest with _ | ⟨e, rest⟩
    · have hlength := hchars.length_eq
      simp [base64Padding] at hpadding'
      simp [base64Digits, base64Group] at hlength
      rw [decodeAll_last hchars (by simp [base64Digits, base64Group]; omega)]
      exact putTail_encoded [16, 8, 0] h (by simp [hlength] at hroom ⊢; omega)
        (by simpa [base64Digits] using byteAt_group d.r a b c)
    · have hmore := length_base64Digits (cons_ne_nil e rest)
      rw [base64Digits] at hchars
      obtain ⟨ch0, _, h0, hchars1, rfl⟩ := forall₂_cons_right_iff.mp hchars
      obtain ⟨ch1, _, h1, hchars2, rfl⟩ := forall₂_cons_right_iff.mp hchars1
      obtain ⟨ch2, _, h2, hchars3, rfl⟩ := forall₂_cons_right_iff.mp hchars2
      obtain ⟨ch3, more, h3, hchars4, rfl⟩ := forall₂_cons_right_iff.mp hchars3
      have hmore' : List.Forall₂ IsBase64Char more (base64Digits (e :: rest)) := hchars4
      have hgroup : List.Forall₂ IsBase64Char [ch0, ch1, ch2, ch3] (base64Group a b c) :=
        .cons h0 (.cons h1 (.cons h2 (.cons h3 .nil)))
      have hlength := hmore'.length_eq
      simp only [length_cons, length_append, length_replicate] at hroom
      obtain ⟨d₁, hput, hholds, herror⟩ := putTail_encoded [16, 8, 0] h (by simp; omega) (byteAt_group d.r a b c)
      obtain ⟨d₂, hdecode, hholds₂, herror₂⟩ := ih ⟨more, padding, hmore', hpadding', rfl⟩ hholds (by simp; omega)
      refine ⟨d₂, ?_, ?_, herror₂.trans herror⟩
      · simp only [cons_append]
        rw [decodeAll_batch (by simp; omega), accumulateAll_digits hgroup, hput]
        exact hdecode
      · rw [append_assoc] at hholds₂
        exact hholds₂

end

/-- `MultiByteToWideChar`: each code unit comes from some bytes. -/
structure ConvertsBytes (convert : List UInt8 → List Wchar) : Prop where
  nil : convert [] = []
  ne_nil : ∀ v, v ≠ [] → convert v ≠ []
  length_le : ∀ v, (convert v).length ≤ v.length

theorem u8u16Whole_eq {convert : List UInt8 → List Wchar} (h : ConvertsBytes convert) (v : List UInt8) :
    u8u16Whole convert v = if intMax < v.length then (.abort, []) else (.ok, convert v) := by
  unfold u8u16Whole multiByteToWideChar
  by_cases hnil : v = []
  · subst hnil
    simp [h.nil]
  · have hroom : ¬(convert v = [] ∨ (convert v).length > v.length) := by
      simpa [h.ne_nil v hnil] using h.length_le v
    rw [if_neg hnil, if_neg hroom]

theorem decode_eq (convert : List UInt8 → List Wchar) (src dst : List Wchar) : decode convert src dst =
      (decodeAll src { result := replicate ((src.length + 3) / 4 * 3) 0 }).map fun d =>
        if d.error ≠ 0 then (.invalidData, dst)
        else (.converted (u8u16Whole convert (d.result.take d.out)).1,
          (u8u16Whole convert (d.result.take d.out)).2) := by
  unfold decode decodeAll
  dsimp only
  rw [decodeBatched_min]
  rcases decodeBatched 5 src _ with _ | ⟨rest, d⟩
  · rfl
  · show (putTail (decodeTail rest (d, 0)).2 (decodeTail rest (d, 0)).1).bind _ =
      (putTail (decodeTail rest (d, 0)).2 (decodeTail rest (d, 0)).1).map _
    rcases putTail (decodeTail rest (d, 0)).2 (decodeTail rest (d, 0)).1 with _ | d'
    · rfl
    · rw [Option.bind_some, Option.map_some]
      split <;> rfl

theorem holds_fresh (size : Nat) : ({ result := replicate size 0 } : Base64).Holds size [] :=
  ⟨replicate size 0, rfl, rfl, by simp⟩

theorem decode_encoded {convert : List UInt8 → List Wchar} (hconvert : ConvertsBytes convert) {v : List UInt8}
    {src : List Wchar} (hsrc : IsBase64 src v) (dst : List Wchar) :
    decode convert src dst = some (if intMax < v.length then (.converted .abort, []) else
      (.converted .ok, convert v)) := by
  obtain ⟨d, hdecode, hholds, herror⟩ := decodeAll_encoded v hsrc (holds_fresh _) (Nat.le_of_eq (Nat.zero_add _))
  rw [decode_eq, hdecode, Option.map_some, if_neg (not_not.mpr herror), hholds.written, nil_append,
    u8u16Whole_eq hconvert]
  split <;> rfl

/-- Encoded bytes are decoded again; a failure leaves `dst` as it was, up to `INT_MAX` bytes. -/
theorem decode_inverts {convert : List UInt8 → List Wchar} (hconvert : ConvertsBytes convert) :
    (∀ v src dst, IsBase64 src v → v.length ≤ intMax → decode convert src dst = some (.converted .ok, convert v)) ∧
      ∀ src dst, ∃ result out, decode convert src dst = some (result, out) ∧ (result ≠ .converted .ok →
          out = dst ∨ result = .converted .abort ∧ intMax < (src.length + 3) / 4 * 3) := by
  constructor
  · intro v src dst hsrc hlength
    rw [decode_encoded hconvert hsrc, if_neg (Nat.not_lt.mpr hlength)]
  · intro src dst
    obtain ⟨d, new, hdecode, hholds, hnew⟩ := decodeAll_fits src (holds_fresh _) (Nat.le_of_eq (Nat.zero_add _))
    rw [decode_eq, hdecode, Option.map_some]
    by_cases herror : d.error = 0
    · rw [if_neg (not_not.mpr herror), hholds.written, u8u16Whole_eq hconvert]
      refine ⟨_, _, rfl, ?_⟩
      split
      · next hlong => exact fun _ => .inr ⟨rfl, Nat.lt_of_lt_of_le hlong hnew⟩
      · exact fun h => absurd rfl h
    · rw [if_pos herror]
      exact ⟨_, _, rfl, fun _ => .inl rfl⟩

theorem wideOfUtf8_cases (v : List UInt8) : (∃ text, v = utf8 text) ∨ wideOfUtf8 v = v.map fun _ => 0xFFFD := by
  rcases hdecode : v.toByteArray.utf8Decode? with _ | text
  · refine .inr ?_
    unfold wideOfUtf8
    rw [hdecode]
  · refine .inl ⟨text.toList, ?_⟩
    have hencode := ByteArray.utf8Encode_get_utf8Decode? (b := v.toByteArray) (h := by rw [hdecode]; rfl)
    simp only [hdecode] at hencode
    have hdata := congrArg (fun b => b.data.toList) hencode
    simpa [utf8Encode, utf8] using hdata.symm

theorem convertsBytes_wideOfUtf8 : ConvertsBytes wideOfUtf8 where
  nil := converts_wideOfUtf8.nil
  ne_nil v h := by
    rcases wideOfUtf8_cases v with ⟨text, rfl⟩ | hmap
    · exact converts_wideOfUtf8.ne_nil fun htext => h (by rw [htext]; rfl)
    · rw [hmap]
      simpa using h
  length_le v := by
    rcases wideOfUtf8_cases v with ⟨text, rfl⟩ | hmap
    · exact converts_wideOfUtf8.length_le text
    · rw [hmap, length_map]

theorem decode_inverts_a : IsBase64 [0x59, 0x51, 0x3D] [0x61] ∧
    decode wideOfUtf8 [0x59, 0x51, 0x3D] [] = some (.converted .ok, [0x61]) := by
  have hencoded : IsBase64 [0x59, 0x51, 0x3D] [0x61] := by
    refine ⟨[0x59, 0x51], 1, ?_, by decide, rfl⟩
    exact .cons (.inl (by decide)) (.cons (.inl (by decide)) .nil)
  refine ⟨hencoded, ?_⟩
  rw [(decode_inverts convertsBytes_wideOfUtf8).1 [0x61] _ [] hencoded (by decide)]
  rfl

theorem exists_isBase64 (v : List UInt8) : ∃ src, IsBase64 src v := by
  refine ⟨(base64Digits v).map (base64Char 0x2B 0x2F), _, 0, ?_, Nat.zero_le _, (append_nil _).symm⟩
  rw [forall₂_map_left_iff]
  exact forall₂_same.mpr fun digit _ => .inl rfl

/-- Too many bytes for an `int` are refused after `dst` has been cleared. -/
theorem decode_refuses : ∃ v src dst out, IsBase64 src v ∧
    decode wideOfUtf8 src dst = some (.converted .abort, out) ∧ out ≠ dst := by
  have hbytes (n : Nat) : ∃ v : List UInt8, v.length = n := ⟨replicate n 0, length_replicate⟩
  obtain ⟨v, hlength⟩ := hbytes (2 ^ 31)
  obtain ⟨src, hsrc⟩ := exists_isBase64 v
  refine ⟨v, src, [0x61], [], hsrc, ?_, by decide⟩
  have hlong : intMax < v.length := by
    have hmax : intMax < 2 ^ 31 := by decide
    omega
  rw [decode_encoded convertsBytes_wideOfUtf8 hsrc, if_pos hlong]

end Base64

end Terminal.Parser
