import Mathlib.Tactic.Common
import Terminal.Parser.Chars

/-!
# Pasted text (`Utils::FilterStringForPaste`, `Terminal::WritePastedText`)

The filter copies the text between two cuts. Its result is stated over characters alone.
-/

namespace Terminal.Core

open Terminal.Parser (Wchar ESC)
open List

def HT : Wchar := 0x09

def LF : Wchar := 0x0A

def CR : Wchar := 0x0D

/-! ## The filter -/

structure FilterOption where
  carriageReturnNewline : Bool := false
  controlCodes : Bool := false
deriving DecidableEq, Repr

/-- C0 and C1 controls and DEL, but not HT, LF and CR. -/
def isControlCode (c : Wchar) : Bool :=
  if 0x20 ≤ c.toNat ∧ c.toNat < 0x7F then false
  else if c.toNat > 0x9F then false
  else c ≠ HT && c ≠ LF && c ≠ CR

def filterStep (option : FilterOption) (wstr : List Wchar) (x : Nat × List Wchar) (pos : Nat) : Nat × List Wchar :=
  let c := wstr.getD pos 0
  let copied := x.2 ++ (wstr.drop x.1).take (pos - x.1)
  if option.carriageReturnNewline && c = LF then
    (pos + 1, if pos > 0 && wstr.getD (pos - 1) 0 = CR then copied else copied ++ [CR])
  else if option.controlCodes && isControlCode c then (pos + 1, copied)
  else x

def filterStringForPaste (wstr : List Wchar) (option : FilterOption) : List Wchar :=
  let x := (List.range wstr.length).foldl (filterStep option wstr) (0, [])
  if x.1 = 0 then wstr else x.2 ++ wstr.drop x.1

def writePastedText (bracketedPasteMode : Bool) (string : List Wchar) : List Wchar :=
  let filtered := filterStringForPaste string { carriageReturnNewline := true, controlCodes := true }
  if bracketedPasteMode then
    [ESC, 0x5B, 0x32, 0x30, 0x30, 0x7E] ++ filtered ++ [ESC, 0x5B, 0x32, 0x30, 0x31, 0x7E]
  else filtered

/-! ## What the filter is for -/

def pastedChar (c : Wchar) : List Wchar :=
  if c = LF then [CR] else if isControlCode c then [] else [c]

/-- A line end is one CR. Other controls but HT are dropped. -/
def pasted : List Wchar → List Wchar
  | [] => []
  | [c] => pastedChar c
  | c :: d :: rest => if c = CR ∧ d = LF then CR :: pasted rest else pastedChar c ++ pasted (d :: rest)

theorem pastedChar_cr : pastedChar CR = [CR] := by decide

theorem pastedChar_lf : pastedChar LF = [CR] := by decide

theorem pasted_append (text : List Wchar) (c : Wchar) :
    pasted (text ++ [c]) = pasted text ++ if text.getLast? = some CR ∧ c = LF then [] else pastedChar c := by
  fun_induction pasted text with
  | case1 => simp [pasted]
  | case2 c' =>
    by_cases h : c' = CR ∧ c = LF
    · obtain ⟨rfl, rfl⟩ := h
      simp [pasted, pastedChar_cr]
    · simp [pasted, h]
  | case3 c' d rest h ih =>
    obtain ⟨rfl, rfl⟩ := h
    -- the last character is that of the rest, or LF
    have hlast : (CR :: LF :: rest).getLast? = some CR ↔ rest.getLast? = some CR := by
      cases rest with
      | nil => simp [CR, LF]
      | cons e rest => simp
    simp only [cons_append, pasted, and_self, if_true, ih, hlast]
  | case4 c' d rest h ih =>
    have hlast : (c' :: d :: rest).getLast? = (d :: rest).getLast? := by simp
    rw [cons_append, cons_append, pasted, if_neg h, ← cons_append, ih, hlast, append_assoc]

/-! ## The loop -/

def filtered (wstr : List Wchar) (pos : Nat) (x : Nat × List Wchar) : List Wchar :=
  x.2 ++ (wstr.drop x.1).take (pos - x.1)

theorem filtered_cut (wstr : List Wchar) (pos : Nat) (copied : List Wchar) :
    filtered wstr pos (pos, copied) = copied := by
  simp [filtered]

theorem filtered_kept {wstr : List Wchar} {x : Nat × List Wchar} {pos : Nat}
    (hpos : pos < wstr.length) (hle : x.1 ≤ pos) :
    filtered wstr (pos + 1) x = filtered wstr pos x ++ [wstr[pos]] := by
  have hlt : pos - x.1 < (wstr.drop x.1).length := by rw [length_drop]; omega
  have hget : (wstr.drop x.1)[pos - x.1] = wstr[pos] := by
    rw [getElem_drop]
    congr 1
    omega
  rw [filtered, show pos + 1 - x.1 =
    pos - x.1 + 1 by omega, take_add_one, getElem?_eq_getElem hlt, hget, ← append_assoc]
  rfl

def pasteOption : FilterOption := { carriageReturnNewline := true, controlCodes := true }

/-- The loop up to `pos`; nothing is copied before the first cut. -/
structure Filtering (wstr : List Wchar) (pos : Nat) (x : Nat × List Wchar) : Prop where
  le : x.1 ≤ pos
  uncut : x.1 = 0 → x.2 = []
  text : filtered wstr pos x = pasted (wstr.take pos)

theorem filterStep_filtering {wstr : List Wchar} {x : Nat × List Wchar} {pos : Nat} (hpos : pos < wstr.length)
    (hx : Filtering wstr pos x) : Filtering wstr (pos + 1) (filterStep pasteOption wstr x pos) := by
  have hc : wstr.getD pos 0 = wstr[pos] := by simp [hpos]
  have htake : wstr.take (pos + 1) = wstr.take pos ++ [wstr[pos]] := by
    rw [take_add_one, getElem?_eq_getElem hpos]
    rfl
  have hlast : (wstr.take pos).getLast? = some CR ↔ pos > 0 ∧ wstr.getD (pos - 1) 0 = CR := by
    rcases pos with _ | k
    · simp
    · have hk : k < wstr.length := by omega
      simp [getLast?_take, hk]
  have hnext := pasted_append (wstr.take pos) wstr[pos]
  rw [← htake, ← hx.text] at hnext
  have hcopied : x.2 ++ (wstr.drop x.1).take (pos - x.1) = filtered wstr pos x := rfl
  unfold filterStep
  rw [hc, hcopied]
  by_cases hlf : wstr[pos] = LF
  · rw [if_pos (by simp [pasteOption, hlf])]
    refine ⟨Nat.le_refl _, by simp, ?_⟩
    rw [filtered_cut, hnext, hlf, pastedChar_lf]
    by_cases hcr : (wstr.take pos).getLast? = some CR
    · rw [if_pos (by simpa using hlast.mp hcr), if_pos ⟨hcr, rfl⟩, append_nil]
    · have hno : ¬(pos > 0 ∧ wstr.getD (pos - 1) 0 = CR) := fun h => hcr (hlast.mpr h)
      rw [if_neg (by simpa using hno), if_neg (fun h => hcr h.1)]
  · have hchar : filtered wstr pos x ++ pastedChar wstr[pos] = pasted (wstr.take (pos + 1)) := by
      rw [hnext, if_neg (fun h => hlf h.2)]
    rw [if_neg (by simp [hlf])]
    by_cases hctl : isControlCode wstr[pos] = true
    · rw [if_pos (by simp [pasteOption, hctl])]
      refine ⟨Nat.le_refl _, by simp, ?_⟩
      rw [filtered_cut, ← hchar, pastedChar, if_neg hlf, if_pos hctl, append_nil]
    · rw [if_neg (by simp [hctl])]
      refine ⟨Nat.le_succ_of_le hx.le, hx.uncut, ?_⟩
      rw [filtered_kept hpos hx.le, ← hchar, pastedChar, if_neg hlf, if_neg hctl]

theorem foldl_filtering (wstr : List Wchar) (n : Nat) (hn : n ≤ wstr.length) :
    Filtering wstr n ((range n).foldl (filterStep pasteOption wstr) (0, [])) := by
  induction n with
  | zero => exact ⟨Nat.le_refl 0, fun _ => rfl, rfl⟩
  | succ n ih =>
    rw [range_succ, foldl_append]
    exact filterStep_filtering hn (ih (Nat.le_of_succ_le hn))

theorem filterStringForPaste_eq (wstr : List Wchar) : filterStringForPaste wstr pasteOption = pasted wstr := by
  obtain ⟨hle, huncut, htext⟩ := foldl_filtering wstr wstr.length (Nat.le_refl _)
  have hall : ∀ k, (wstr.drop k).take (wstr.length - k) = wstr.drop k := by
    intro k
    rw [← length_drop, take_length]
  rw [filtered, hall, take_length] at htext
  unfold filterStringForPaste
  dsimp only
  split
  · rename_i hzero
    rw [← htext, huncut hzero, hzero]
    rfl
  · exact htext

/-! ## What is pasted -/

/-- No C0 control but HT and CR, no DEL and no C1 control. -/
def isHarmless (c : Wchar) : Bool := (0x20 ≤ c.toNat || c = HT || c = CR) && (c.toNat < 0x7F || c.toNat > 0x9F)

theorem isHarmless_of_kept {c : Wchar} (hlf : c ≠ LF) (hctl : isControlCode c = false) : isHarmless c = true := by
  unfold isControlCode at hctl
  unfold isHarmless
  split_ifs at hctl with hprintable hhigh
  · simp [hprintable.1, hprintable.2]
  · have : 0x20 ≤ c.toNat := by omega
    simp [hhigh, this]
  · have hc : c = HT ∨ c = CR := by
      by_cases hht : c = HT
      · exact .inl hht
      · exact .inr (by simpa [hht, hlf] using hctl)
    rcases hc with rfl | rfl <;> decide

theorem pastedChar_harmless (c : Wchar) : ∀ d ∈ pastedChar c, isHarmless d = true := by
  unfold pastedChar
  split_ifs with hlf hctl
  · simp [isHarmless, CR]
  · simp
  · simpa using isHarmless_of_kept hlf (by simpa using hctl)

theorem pasted_harmless (text : List Wchar) : ∀ d ∈ pasted text, isHarmless d = true := by
  fun_induction pasted text with
  | case1 => simp
  | case2 c => exact pastedChar_harmless c
  | case3 c d rest h ih =>
    rintro e (_ | ⟨_, he⟩)
    · decide
    · exact ih e he
  | case4 c d rest h ih =>
    intro e he
    rcases mem_append.mp he with he | he
    · exact pastedChar_harmless c e he
    · exact ih e he

/-- Pasted text is sent without controls but HT and CR, with CR for line ends. -/
theorem writePastedText_payload (bracketed : Bool) (string : List Wchar) : writePastedText bracketed string =
        (if bracketed then [ESC, 0x5B, 0x32, 0x30, 0x30, 0x7E] else []) ++ pasted string ++
          (if bracketed then [ESC, 0x5B, 0x32, 0x30, 0x31, 0x7E] else []) ∧
      ∀ c ∈ pasted string, (c.toNat < 0x20 → c = HT ∨ c = CR) ∧ ¬(0x7F ≤ c.toNat ∧ c.toNat ≤ 0x9F) := by
  constructor
  · have hfilter := filterStringForPaste_eq string
    unfold writePastedText
    rw [pasteOption] at hfilter
    rw [hfilter]
    cases bracketed <;> simp
  · intro c hc
    have h := pasted_harmless string c hc
    simp only [isHarmless, Bool.and_eq_true, Bool.or_eq_true, decide_eq_true_eq] at h
    constructor
    · intro hlow
      rcases h.1 with (hge | hht) | hcr
      · omega
      · exact .inl hht
      · exact .inr hcr
    · omega

example : writePastedText true [0x61, 0x0D, 0x0A, 0x62, 0x0A, 0x1B, 0x9B, 0x09, 0x63] =
    [ESC, 0x5B, 0x32, 0x30, 0x30, 0x7E, 0x61, 0x0D, 0x62, 0x0D, 0x09, 0x63, ESC, 0x5B, 0x32, 0x30, 0x31, 0x7E] := by
  decide

end Terminal.Core
