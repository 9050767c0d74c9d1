import Terminal.Parser.Chars

/-!
# UTF-16 (`til/unicode.h`)
-/

namespace Terminal.Til

open Terminal.Parser (Wchar)
open List

def unicodeReplacement : Wchar := 0xFFFD

def isSurrogate (wch : Wchar) : Bool := wch &&& 0xF800 == 0xD800

def isLeadingSurrogate (wch : Wchar) : Bool := wch &&& 0xFC00 == 0xD800

def isTrailingSurrogate (wch : Wchar) : Bool := wch &&& 0xFC00 == 0xDC00

def utf16Next : List Wchar → List Wchar
  | [] => [unicodeReplacement]
  | [wch] => if isSurrogate wch then [unicodeReplacement] else [wch]
  | wch :: wch2 :: _ =>
    if isSurrogate wch then
      if isLeadingSurrogate wch && isTrailingSurrogate wch2 then [wch, wch2] else [unicodeReplacement]
    else [wch]

def codePoints : List Wchar → List (List Wchar)
  | [] => []
  | [wch] => [utf16Next [wch]]
  | wch :: wch2 :: rest =>
    if isLeadingSurrogate wch && isTrailingSurrogate wch2 then [wch, wch2] :: codePoints rest
    else utf16Next [wch] :: codePoints (wch2 :: rest)

theorem isSurrogate_of_leading {wch : Wchar} (h : isLeadingSurrogate wch = true) : isSurrogate wch = true := by
  simp only [isLeadingSurrogate, isSurrogate, beq_iff_eq] at *
  calc wch &&& 0xF800 = wch &&& 0xFC00 &&& 0xF800 := by rw [BitVec.and_assoc]; rfl
    _ = 0xD800 := by rw [h]; rfl

theorem isSurrogate_of_trailing {wch : Wchar} (h : isTrailingSurrogate wch = true) : isSurrogate wch = true := by
  simp only [isTrailingSurrogate, isSurrogate, beq_iff_eq] at *
  calc wch &&& 0xF800 = wch &&& 0xFC00 &&& 0xF800 := by rw [BitVec.and_assoc]; rfl
    _ = 0xD800 := by rw [h]; rfl

theorem isLeading_of_trailing {wch : Wchar} (h : isTrailingSurrogate wch = true) : isLeadingSurrogate wch = false := by
  simp only [isTrailingSurrogate, isLeadingSurrogate, beq_iff_eq] at *
  rw [h]
  rfl

theorem length_utf16Next_singleton (wch : Wchar) : (utf16Next [wch]).length = 1 := by
  rw [utf16Next]
  split_ifs <;> rfl

theorem utf16Next_pair {wch wch2 : Wchar} (h : (isLeadingSurrogate wch && isTrailingSurrogate wch2)
    = true) (rest : List Wchar) :
    utf16Next (wch :: wch2 :: rest) = [wch, wch2] := by
  rw [utf16Next, if_pos (isSurrogate_of_leading (Bool.and_eq_true_iff.1 h).1), if_pos h]

theorem utf16Next_single {wch wch2 : Wchar}
    (h : ¬ (isLeadingSurrogate wch && isTrailingSurrogate wch2) = true) (rest : List Wchar) :
    utf16Next (wch :: wch2 :: rest) = utf16Next [wch] := by
  rw [utf16Next, utf16Next, if_neg h]

theorem length_utf16Next_pos (text : List Wchar) : 0 < (utf16Next text).length := by
  unfold utf16Next
  split
  · exact Nat.one_pos
  · split_ifs <;> exact Nat.one_pos
  · split_ifs <;> simp

theorem length_utf16Next (text : List Wchar) : (utf16Next text).length = 1 ∨ (utf16Next text).length = 2 := by
  unfold utf16Next
  split
  · exact .inl rfl
  · split_ifs <;> exact .inl rfl
  · split_ifs <;> simp

theorem codePoints_eq {text : List Wchar} (h : text ≠ []) :
    codePoints text = utf16Next text :: codePoints (text.drop (utf16Next text).length) := by
  match text with
  | [wch] => rw [length_utf16Next_singleton]; rfl
  | wch :: wch2 :: rest =>
    rw [codePoints]
    split_ifs with hpair
    · rw [utf16Next_pair hpair]
      rfl
    · rw [utf16Next_single hpair, length_utf16Next_singleton]
      rfl

@[simp] theorem codePoints_eq_nil {text : List Wchar} : codePoints text = [] ↔ text = [] := by
  constructor
  · intro h
    by_contra hne
    simp [codePoints_eq hne] at h
  · rintro rfl
    rfl

theorem length_pos_of_mem_codePoints {text glyph : List Wchar} (h : glyph ∈ codePoints text) : 0 < glyph.length := by
  match text with
  | [wch] =>
    rw [mem_singleton.1 h]
    exact length_utf16Next_pos _
  | wch :: wch2 :: rest =>
    rw [codePoints] at h
    split_ifs at h with hpair
    · rcases mem_cons.1 h with rfl | h
      · exact Nat.two_pos
      · exact length_pos_of_mem_codePoints h
    · rcases mem_cons.1 h with rfl | h
      · exact length_utf16Next_pos _
      · exact length_pos_of_mem_codePoints h

theorem codePoints_replicate {wch : Wchar} (h : isSurrogate wch = false) (n : Nat) :
    codePoints (replicate n wch) = replicate n [wch] := by
  have hnext (rest : List Wchar) : utf16Next (wch :: rest) = [wch] := by
    cases rest <;> simp [utf16Next, h]
  induction n with
  | zero => rfl
  | succ n ih =>
    rw [replicate_succ, codePoints_eq (by simp), hnext, length_singleton, drop_succ_cons, drop_zero, ih, replicate_succ]

theorem codePoints_drop (text : List Wchar) (n : Nat) :
    codePoints (text.drop ((codePoints text).take n).flatten.length) = (codePoints text).drop n := by
  induction n generalizing text with
  | zero => simp
  | succ n ih =>
    by_cases h : text = []
    · simp [h, codePoints]
    · have := ih (text.drop (utf16Next text).length)
      rw [codePoints_eq h, take_succ_cons, flatten_cons, length_append, ← drop_drop, this]
      rfl

theorem codePoints_tail_of_pair {text : List Wchar} (h : (utf16Next text).length = 2) :
    codePoints (text.drop 1) = [unicodeReplacement] :: codePoints (text.drop 2) := by
  match text with
  | [] => simp [utf16Next] at h
  | [wch] => simp [length_utf16Next_singleton] at h
  | wch :: wch2 :: rest =>
    by_cases hpair : (isLeadingSurrogate wch && isTrailingSurrogate wch2) = true
    · have htrailing := (Bool.and_eq_true_iff.1 hpair).2
      have hnext : utf16Next (wch2 :: rest) = [unicodeReplacement] := by
        cases rest with
        | nil => rw [utf16Next, if_pos (isSurrogate_of_trailing htrailing)]
        | cons wch3 rest =>
          rw [utf16Next, if_pos (isSurrogate_of_trailing htrailing), isLeading_of_trailing htrailing]
          rfl
      rw [drop_succ_cons, drop_zero, codePoints_eq (by simp), hnext]
      rfl
    · rw [utf16Next_single hpair, length_utf16Next_singleton] at h
      simp at h

end Terminal.Til
