import Terminal.Host.Alias
import Terminal.Parser.Csi
import Mathlib.Algebra.Ring.Nat

/-!
# What an alias stands for

The target is read from the left, in pairs behind each `$`. Arguments are put in as they are, so the
line feeds of the result are those that were counted.
-/

namespace Terminal.Host.Alias

open Terminal.Parser (Wchar mem_splitOn)
open List

/-- Only a letter and its lower case are that letter in upper case. -/
def UppercasesLetters (towupper : Wchar → Wchar) : Prop :=
  ∀ letter ∈ ([0x4C, 0x47, 0x42, 0x54] : List Wchar), ∀ ch, towupper ch = letter ↔ ch = letter ∨ ch = letter + 0x20

inductive Item where
  | text (ch : Wchar)
  | pair (ch : Wchar)

namespace Item

def expansion (line : List Wchar) : Item → List Wchar
  | text ch => [ch]
  | pair ch =>
    if 0x31 ≤ ch.toNat ∧ ch.toNat ≤ 0x39 then (tokenize line)[ch.toNat - 0x30]?.getD []
    else if ch = ASTERISK then getArgString line
    else if ch = 0x4C ∨ ch = 0x6C then [0x3C]
    else if ch = 0x47 ∨ ch = 0x67 then [0x3E]
    else if ch = 0x42 ∨ ch = 0x62 then [0x7C]
    else if ch = 0x54 ∨ ch = 0x74 then [CARRIAGERETURN, LINEFEED]
    else [DOLLAR, ch]

def lines : Item → Nat
  | text _ => 0
  | pair ch => if ch = 0x54 ∨ ch = 0x74 then 1 else 0

def ch : Item → Wchar
  | text ch | pair ch => ch

end Item

/-- The items of a target. A `$` is text at the end only. -/
inductive Reads : List Item → List Wchar → Prop
  | nil : Reads [] []
  | last : Reads [.text DOLLAR] [DOLLAR]
  | text {items rest} (ch : Wchar) (hch : ch ≠ DOLLAR) (h : Reads items rest) : Reads (.text ch :: items) (ch :: rest)
  | pair {items rest} (ch : Wchar) (h : Reads items rest) : Reads (.pair ch :: items) (DOLLAR :: ch :: rest)

theorem exists_reads : ∀ target, ∃ items, Reads items target
  | [] => ⟨[], .nil⟩
  | ch :: rest => by
    by_cases hch : ch = DOLLAR
    · subst hch
      match rest with
      | [] => exact ⟨_, .last⟩
      | next :: rest =>
        obtain ⟨items, h⟩ := exists_reads rest
        exact ⟨_, .pair next h⟩
    · obtain ⟨items, h⟩ := exists_reads rest
      exact ⟨_, .text ch hch h⟩

theorem Reads.ch_mem {items : List Item} {target : List Wchar} (h : Reads items target) :
    ∀ item ∈ items, item.ch ∈ target := by
  induction h with
  | nil => simp
  | last => simp [Item.ch]
  | text ch hch h ih =>
    rintro item (_ | ⟨_, hitem⟩)
    · exact mem_cons_self
    · exact mem_cons_of_mem _ (ih item hitem)
  | pair ch h ih =>
    rintro item (_ | ⟨_, hitem⟩)
    · exact mem_cons_of_mem _ mem_cons_self
    · exact mem_cons_of_mem _ (mem_cons_of_mem _ (ih item hitem))

section Expansion

variable {towupper : Wchar → Wchar} (hupper : UppercasesLetters towupper) (line : List Wchar)
include hupper

theorem replaceMacro_eq (ch : Wchar) : replaceMacro towupper (tokenize line) (getArgString line) ch =
    ((Item.pair ch).expansion line, (Item.pair ch).lines) := by
  have hL := hupper 0x4C (by simp) ch
  have hG := hupper 0x47 (by simp) ch
  have hB := hupper 0x42 (by simp) ch
  have hT := hupper 0x54 (by simp) ch
  simp only [replaceMacro, tryReplaceNumberedArgMacro, tryReplaceWildcardArgMacro, tryReplaceInputRedirMacro,
    tryReplaceOutputRedirMacro, tryReplacePipeRedirMacro, tryReplaceNextCommandMacro, tryReplaceLetter, hL, hG, hB, hT,
    Item.expansion, Item.lines]
  by_cases hT' : ch = 0x54 ∨ ch = 0x74
  · rcases hT' with rfl | rfl <;> rfl
  · have hT'' : ¬ (ch = 0x54 ∨ ch = 0x54 + 0x20) := hT'
    simp only [if_neg hT', if_neg hT'']
    split_ifs <;> first | rfl | simp_all

theorem replaceEach_eq {items : List Item} {target : List Wchar} (h : Reads items target) :
    replaceEach towupper (tokenize line) (getArgString line) target =
      (items.flatMap (Item.expansion line), (items.map Item.lines).sum) := by
  induction h with
  | nil => rfl
  | last => rfl
  | text ch hch h ih =>
    rename_i items rest
    cases rest with
    | nil =>
      cases h
      rfl
    | cons next rest =>
      rw [replaceEach, if_neg hch, ih]
      simp [Item.expansion, Item.lines]
  | pair ch h ih =>
    rw [replaceEach, if_pos rfl, ih, replaceMacro_eq hupper]
    simp

omit hupper in
theorem count_expansion {line : List Wchar} (hline : LINEFEED ∉ line) (item : Item) (hitem : item.ch ≠ LINEFEED) :
    (item.expansion line).count LINEFEED = item.lines := by
  cases item with
  | text ch => exact count_eq_zero.mpr (by simpa [Item.expansion, Item.ch] using Ne.symm hitem)
  | pair ch =>
    have htoken : ∀ n : Nat, LINEFEED ∉ (tokenize line)[n]?.getD [] := by
      intro n hmem
      cases htok : (tokenize line)[n]? with
      | none => simp [htok] at hmem
      | some token =>
        rw [htok, Option.getD_some] at hmem
        exact hline (mem_splitOn (mem_of_getElem? htok) hmem).1
    have hargs : LINEFEED ∉ getArgString line := fun hmem =>
      hline ((dropWhile_sublist _).subset (mem_of_mem_drop hmem))
    have hch : LINEFEED ≠ ch := Ne.symm hitem
    by_cases hT : ch = 0x54 ∨ ch = 0x74
    · rcases hT with rfl | rfl <;> rfl
    · rw [Item.lines, if_neg hT, count_eq_zero, Item.expansion]
      split_ifs
      · exact htoken _
      · exact hargs
      · decide
      · decide
      · decide
      · simp [hch, (by decide : LINEFEED ≠ DOLLAR)]

end Expansion

def towupperAscii (ch : Wchar) : Wchar := if 0x61 ≤ ch.toNat ∧ ch.toNat ≤ 0x7A then ch - 0x20 else ch

theorem uppercasesLetters_towupperAscii : UppercasesLetters towupperAscii := by
  intro letter hletter ch
  simp only [mem_cons, not_mem_nil, or_false] at hletter
  unfold towupperAscii
  rcases hletter with rfl | rfl | rfl | rfl <;> split_ifs <;> bv_omega

end Terminal.Host.Alias
