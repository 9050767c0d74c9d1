import Mathlib.Data.List.Forall2

/-!
# Suffixes and numbers of strings (`til/string.h`, `Utils::StringToUint`)

A character has any width, so one function is the overload for narrow and for wide strings.
`unsigned int` has 32 bits.
-/

namespace Terminal.Til

variable {w : Nat}

/-! ## Suffixes -/

/-- A string in memory, from `data` on. -/
structure StringView (w : Nat) where
  memory : List (BitVec w)
  data : Nat
  size : Nat
  inside : data + size ≤ memory.length

def StringView.chars (str : StringView w) : List (BitVec w) := (str.memory.drop str.data).take str.size

def tolowerAscii (c : BitVec w) : BitVec w := if 0x41 ≤ c.toNat ∧ c.toNat ≤ 0x5A then c ||| 0x20 else c

def equalsInsensitiveAscii : List (BitVec w) → List (BitVec w) → Bool
  | [], [] => true
  | c :: str1, d :: str2 =>
    if c ≠ d ∧ tolowerAscii c ≠ tolowerAscii d then false else equalsInsensitiveAscii str1 str2
  | _, _ => false

/-- It compares what is in front of the string, if there is that much. -/
def endsWithInsensitiveAscii (str : StringView w) (suffix : List (BitVec w)) : Option Bool :=
  if str.size ≥ suffix.length then
    if suffix.length ≤ str.data then
      some (equalsInsensitiveAscii ((str.memory.drop (str.data - suffix.length)).take suffix.length) suffix)
    else none
  else some false

def endsWithInsensitiveAsciiWide (str suffix : List (BitVec 16)) : Bool :=
  str.length ≥ suffix.length && str.drop (str.length - suffix.length) == suffix

def SameLetters (str1 str2 : List (BitVec w)) : Prop := str1.map tolowerAscii = str2.map tolowerAscii

instance (str1 str2 : List (BitVec w)) : Decidable (SameLetters str1 str2) := inferInstanceAs (Decidable (_ = _))

def EndsWith (str suffix : List (BitVec w)) : Prop :=
  suffix.length ≤ str.length ∧ SameLetters (str.drop (str.length - suffix.length)) suffix

instance (str suffix : List (BitVec w)) : Decidable (EndsWith str suffix) := inferInstanceAs (Decidable (_ ∧ _))

theorem equalsInsensitiveAscii_iff (str1 str2 : List (BitVec w)) :
    equalsInsensitiveAscii str1 str2 = true ↔ SameLetters str1 str2 := by
  unfold SameLetters
  induction str1 generalizing str2 with
  | nil => cases str2 <;> simp [equalsInsensitiveAscii]
  | cons c str1 ih =>
    cases str2 with
    | nil => simp [equalsInsensitiveAscii]
    | cons d str2 =>
      unfold equalsInsensitiveAscii
      by_cases heq : tolowerAscii c = tolowerAscii d
      · simp [heq, ih]
      · simp [heq, mt (congrArg tolowerAscii) heq]

theorem StringView.length_chars (str : StringView w) : str.chars.length = str.size := by
  have := str.inside
  rw [StringView.chars, List.length_take, List.length_drop]
  omega

/-- Right wherever the string is stored just for suffixes that need not be read. -/
theorem endsWithInsensitiveAscii_narrow (chars suffix : List (BitVec 8)) :
    (∀ str : StringView 8, str.chars = chars →
      endsWithInsensitiveAscii str suffix = some (decide (EndsWith chars suffix))) ↔
    suffix = [] ∨ chars.length < suffix.length := by
  constructor
  · intro h
    by_contra hread
    obtain ⟨hne, hle⟩ := not_or.1 hread
    have hnone := h ⟨chars, 0, chars.length, by simp⟩ (by simp [StringView.chars])
    have hpos := List.length_pos_of_ne_nil hne
    rw [endsWithInsensitiveAscii, if_pos (Nat.not_lt.1 hle), if_neg (Nat.not_le.2 hpos)] at hnone
    cases hnone
  · rintro (rfl | hlong) str rfl
    · simp [endsWithInsensitiveAscii, equalsInsensitiveAscii, EndsWith, SameLetters]
    · have hsize := str.length_chars
      rw [endsWithInsensitiveAscii, if_neg (by omega), decide_eq_false fun h => Nat.not_le.2 hlong h.1]

/-- Right unless the last characters of the string differ from the suffix in their case alone. -/
theorem endsWithInsensitiveAscii_wide (str suffix : List (BitVec 16)) :
    endsWithInsensitiveAsciiWide str suffix = decide (EndsWith str suffix) ↔
      ¬ ∃ front last, str = front ++ last ∧ SameLetters last suffix ∧ last ≠ suffix := by
  have hwide : endsWithInsensitiveAsciiWide str suffix = true ↔ suffix <:+ str := by
    rw [endsWithInsensitiveAsciiWide, Bool.and_eq_true, beq_iff_eq, decide_eq_true_iff, List.suffix_iff_eq_drop]
    constructor
    · exact fun h => h.2.symm
    · intro h
      have := congrArg List.length h
      rw [List.length_drop] at this
      exact ⟨by omega, h.symm⟩
  rw [Bool.eq_iff_iff, hwide, decide_eq_true_iff]
  constructor
  · rintro h ⟨front, last, rfl, hsame, hne⟩
    have hlength : last.length = suffix.length := by simpa using congrArg List.length hsame
    obtain ⟨front', heq⟩ := h.2 ⟨by simp [hlength], by simpa [← hlength] using hsame⟩
    exact hne (List.append_inj_right' heq hlength.symm).symm
  · intro h
    refine ⟨fun hsuffix => ⟨hsuffix.length_le, congrArg (List.map _) (List.suffix_iff_eq_drop.1 hsuffix).symm⟩, ?_⟩
    intro hends
    rw [List.suffix_iff_eq_drop]
    by_contra hne
    exact h ⟨_, _, (List.take_append_drop _ _).symm, hends.2, Ne.symm hne⟩

theorem endsWithInsensitiveAscii_iff (chars suffix : List (BitVec 8)) (wstr wsuffix : List (BitVec 16)) :
    ((∀ str : StringView 8, str.chars = chars →
        endsWithInsensitiveAscii str suffix = some (decide (EndsWith chars suffix))) ↔
      suffix = [] ∨ chars.length < suffix.length) ∧
    (endsWithInsensitiveAsciiWide wstr wsuffix = decide (EndsWith wstr wsuffix) ↔
      ¬ ∃ front last, wstr = front ++ last ∧ SameLetters last wsuffix ∧ last ≠ wsuffix) :=
  ⟨endsWithInsensitiveAscii_narrow chars suffix, endsWithInsensitiveAscii_wide wstr wsuffix⟩

/-- `a` at the begin of the memory, and `A` with the suffix `a`. -/
theorem endsWithInsensitiveAscii_wrong :
    endsWithInsensitiveAscii ⟨[0x61#8], 0, 1, by decide⟩ [0x61] ≠ some (decide (EndsWith [0x61#8] [0x61])) ∧
      endsWithInsensitiveAsciiWide [0x41] [0x61] ≠ decide (EndsWith [0x41#16] [0x61]) := by
  decide

/-! ## Unsigned numbers -/

def horner (base n : Nat) (digits : List Nat) : Nat := digits.foldl (fun n digit => n * base + digit) n

def isNumber (wch : BitVec 16) : Bool := 0x30 ≤ wch.toNat && wch.toNat ≤ 0x39

def stringToUintLoop : BitVec 32 → List (BitVec 16) → Option (BitVec 32)
  | result, [] => some result
  | result, wch :: rest =>
    if isNumber wch then stringToUintLoop (result * 10 + BitVec.ofNat 32 (wch.toNat - 0x30)) rest else none

def stringToUint (wstr : List (BitVec 16)) (value : BitVec 32) : Bool × BitVec 32 :=
  if wstr = [] then (false, value)
  else
    match stringToUintLoop 0 wstr with
    | some result => (true, result)
    | none => (false, value)

def decimalValue (wstr : List (BitVec 16)) : Nat := horner 10 0 (wstr.map fun wch => wch.toNat - 0x30)

def IsUint (wstr : List (BitVec 16)) : Prop := wstr ≠ [] ∧ wstr.all isNumber ∧ decimalValue wstr < 0x100000000

instance (wstr : List (BitVec 16)) : Decidable (IsUint wstr) := inferInstanceAs (Decidable (_ ∧ _))

theorem stringToUintLoop_eq {n : Nat} {result : BitVec 32} (h : result = BitVec.ofNat 32 n) (wstr : List (BitVec 16)) :
    stringToUintLoop result wstr =
      if wstr.all isNumber then some
        (BitVec.ofNat 32 (horner 10 n (wstr.map fun wch => wch.toNat - 0x30))) else none := by
  induction wstr generalizing n result with
  | nil => simp [stringToUintLoop, horner, h]
  | cons wch wstr ih =>
    have hnext : result * 10 + BitVec.ofNat 32 (wch.toNat - 0x30) = BitVec.ofNat 32 (n * 10 + (wch.toNat - 0x30)) := by
      rw [h, BitVec.ofNat_add, BitVec.ofNat_mul]
      rfl
    unfold stringToUintLoop
    rw [ih hnext]
    by_cases hdigit : isNumber wch <;> simp [hdigit, horner]

/-- The value of a number too large for 32 bits wraps around. -/
theorem stringToUint_exact_iff (wstr : List (BitVec 16)) (value : BitVec 32) :
    stringToUint wstr value = (if IsUint wstr then (true, BitVec.ofNat 32 (decimalValue wstr)) else (false, value)) ↔
      (wstr.all isNumber → decimalValue wstr < 0x100000000) := by
  have hloop : stringToUintLoop 0 wstr =
      if wstr.all isNumber then some (BitVec.ofNat 32 (decimalValue wstr)) else none :=
        stringToUintLoop_eq (n := 0) rfl wstr
  unfold stringToUint
  by_cases hnil : wstr = []
  · subst hnil
    simp [IsUint, decimalValue, horner]
  · rw [if_neg hnil, hloop]
    by_cases hdigits : wstr.all isNumber
    · rw [if_pos hdigits]
      by_cases hsmall : decimalValue wstr < 0x100000000
      · rw [if_pos ⟨hnil, hdigits, hsmall⟩]
        simp [hsmall]
      · rw [if_neg fun h => hsmall h.2.2]
        simp [hsmall, hdigits]
    · rw [if_neg hdigits, if_neg fun h => hdigits h.2.1]
      simp [hdigits]

/-- `4294967296` is stored as 0. -/
theorem stringToUint_wraps : stringToUint [0x34, 0x32, 0x39, 0x34, 0x39, 0x36, 0x37, 0x32, 0x39, 0x36] 7 = (true, 0) ∧
    ¬ IsUint [0x34, 0x32, 0x39, 0x34, 0x39, 0x36, 0x37, 0x32, 0x39, 0x36] := by
  decide

end Terminal.Til
