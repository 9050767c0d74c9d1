import Mathlib.Data.List.Induction
import Terminal.Parser.Chars

/-!
# The client's command line (`ConsoleArguments.cpp`)

The arguments for the client are quoted and put together again; it splits them by the rules of
`CommandLineToArgvW`.
-/

namespace Terminal.Host.ConsoleArguments

open Terminal.Parser (Wchar)
open List

def quotationMark : Wchar := 0x22
def backslash : Wchar := 0x5C
def blank : Wchar := 0x20
def tabulator : Wchar := 0x09

def backslashes (n : Nat) : List Wchar := List.replicate n backslash

theorem backslashes_succ (n : Nat) : backslashes (n + 1) = backslashes n ++ [backslash] := replicate_succ'

def clientCommandlineArg : List Wchar := [0x2D, 0x2D]

/-! ## Quoting -/

def countChar (s : Nat × Bool) (c : Wchar) : Nat × Bool :=
  if c = quotationMark ∨ c = backslash then (s.1 + 1, s.2)
  else if c = blank ∨ c = tabulator then (s.1, true)
  else s

def escapeChar (s : List Wchar × Nat) (c : Wchar) : List Wchar × Nat :=
  if c = backslash then (s.1 ++ [backslash], s.2 + 1)
  else if c = quotationMark then (s.1 ++ (backslashes s.2 ++ [backslash, c]), 0)
  else (s.1 ++ [c], 0)

def escapeArgument (ac : List Wchar) : List Wchar :=
  if ac = [] then [quotationMark, quotationMark]
  else
    let (n, hasSpace) := ac.foldl countChar (ac.length, false)
    let n := if hasSpace then n + 2 else n
    if n = ac.length then ac
    else
      let (buf, slashes) := ac.foldl escapeChar (if hasSpace then [quotationMark] else [], 0)
      if hasSpace then buf ++ (backslashes slashes ++ [quotationMark]) else buf

def appendArguments : List (List Wchar) → List Wchar
  | [] => []
  | arg :: rest => escapeArgument arg ++ ((if rest = [] then [] else [blank]) ++ appendArguments rest)

def getClientCommandline (args : List (List Wchar)) (index : Nat) (skipFirst : Bool) :
    Option (List Wchar × List (List Wchar)) :=
  if skipFirst then
    if args[index]? = some clientCommandlineArg then
      some (appendArguments (args.drop (index + 1)), args.take index)
    else none
  else if index ≤ args.length then some (appendArguments (args.drop index), args.take index)
  else none

/-! ## Splitting -/

/-- The arguments so far, the one being read, its backslashes, an open mark. -/
structure Splitter where
  args : List (List Wchar) := []
  current : Option (List Wchar) := none
  slashes : Nat := 0
  inQuotes : Bool := false

namespace Splitter

def finished (s : Splitter) : List (List Wchar) :=
  s.args ++ (s.current.map fun arg => arg ++ backslashes s.slashes).toList

/-- Before a mark, `2n` backslashes are `n`, and `2n + 1` are `n` and a literal mark. -/
def read (s : Splitter) (c : Wchar) : Splitter :=
  let arg := s.current.getD []
  if c = backslash then { s with current := some arg, slashes := s.slashes + 1 }
  else if c = quotationMark then
    let arg := arg ++ backslashes (s.slashes / 2)
    if s.slashes % 2 = 0 then { s with current := some arg, slashes := 0, inQuotes := !s.inQuotes }
    else { s with current := some (arg ++ [quotationMark]), slashes := 0 }
  else if (c = blank ∨ c = tabulator) ∧ s.inQuotes = false then { args := s.finished }
  else { s with current := some (arg ++ (backslashes s.slashes ++ [c])), slashes := 0 }

end Splitter

def commandLineToArgs (text : List Wchar) : List (List Wchar) := (text.foldl Splitter.read {}).finished

/-! ## Reading a quoted argument -/

structure Splitter.Holds (s : Splitter) (args : List (List Wchar)) (text : List Wchar)
    (slashes : Nat) (inQuotes : Bool) : Prop where
  args_eq : s.args = args
  slashes_eq : s.slashes = slashes
  inQuotes_eq : s.inQuotes = inQuotes
  text_eq : s.current.getD [] ++ backslashes slashes = text
  empty : s.current = none → text = []

namespace Splitter

variable {s : Splitter} {args : List (List Wchar)} {text : List Wchar} {n : Nat} {inQuotes : Bool} {c : Wchar}

theorem Holds.read_backslash (h : s.Holds args text n inQuotes) :
    (s.read backslash).Holds args (text ++ [backslash]) (n + 1) inQuotes := by
  have hread : s.read backslash = { s with current := some (s.current.getD []), slashes := s.slashes + 1 } := by
    simp [read]
  rw [hread]
  refine ⟨h.args_eq, by simp [h.slashes_eq], h.inQuotes_eq, ?_, by simp⟩
  rw [← h.text_eq, backslashes_succ, Option.getD_some, append_assoc]

theorem Holds.read_backslashes (h : s.Holds args text n inQuotes) (k : Nat) :
    ((backslashes k).foldl read s).Holds args (text ++ backslashes k) (n + k) inQuotes := by
  induction k with
  | zero => simpa [backslashes] using h
  | succ k ih =>
    rw [backslashes_succ, foldl_append, ← append_assoc]
    exact ih.read_backslash

theorem Holds.read_delimiter (h : s.Holds args (text ++ backslashes n) (n + n) inQuotes) :
    (s.read quotationMark).Holds args text 0 (!inQuotes) ∧ (s.read quotationMark).current ≠ none := by
  have hne : quotationMark ≠ backslash := by decide
  have hhalf : s.slashes / 2 = n := by rw [h.slashes_eq]; omega
  have heven : s.slashes % 2 = 0 := by rw [h.slashes_eq]; omega
  have htext : s.current.getD [] ++ backslashes n = text := by
    have := h.text_eq
    rw [backslashes, replicate_add, ← append_assoc] at this
    exact append_cancel_right this
  simp only [read, if_neg hne, if_pos, heven, hhalf, htext]
  exact ⟨⟨h.args_eq, rfl, by rw [h.inQuotes_eq], by simp [backslashes], by simp⟩, by simp⟩

theorem Holds.read_literal (h : s.Holds args (text ++ backslashes (n + 1)) (n + (n + 1)) inQuotes) :
    (s.read quotationMark).Holds args (text ++ [quotationMark]) 0 inQuotes := by
  have hne : quotationMark ≠ backslash := by decide
  have hhalf : s.slashes / 2 = n := by rw [h.slashes_eq]; omega
  have hodd : ¬ s.slashes % 2 = 0 := by rw [h.slashes_eq]; omega
  have htext : s.current.getD [] ++ backslashes n = text := by
    have := h.text_eq
    rw [backslashes, replicate_add, ← append_assoc] at this
    exact append_cancel_right this
  simp only [read, if_neg hne, if_neg hodd, hhalf, htext]
  exact ⟨h.args_eq, rfl, h.inQuotes_eq, by simp [backslashes], by simp⟩

theorem Holds.read_other (h : s.Holds args text n inQuotes) (hslash : c ≠ backslash) (hmark : c ≠ quotationMark)
    (hspace : c = blank ∨ c = tabulator → inQuotes = true) : (s.read c).Holds args (text ++ [c]) 0 inQuotes := by
  have hinside : ¬ ((c = blank ∨ c = tabulator) ∧ s.inQuotes = false) := by
    rintro ⟨hc, hout⟩
    rw [h.inQuotes_eq, hspace hc] at hout
    exact absurd hout (by decide)
  simp only [read, if_neg hslash, if_neg hmark, if_neg hinside]
  refine ⟨h.args_eq, rfl, h.inQuotes_eq, ?_, by simp⟩
  rw [h.slashes_eq, ← append_assoc, h.text_eq]
  simp [backslashes]

theorem Holds.finished_eq (h : s.Holds args text n inQuotes) (hsome : s.current ≠ none) :
    s.finished = args ++ [text] := by
  obtain ⟨arg, harg⟩ := Option.ne_none_iff_exists'.1 hsome
  have := h.text_eq
  rw [harg, Option.getD_some] at this
  simp [finished, h.args_eq, h.slashes_eq, harg, this]

theorem Holds.read_blank (h : s.Holds args text n false) (hsome : s.current ≠ none) (hc : c = blank ∨ c = tabulator) :
    s.read c = { args := args ++ [text] } := by
  rw [← h.finished_eq hsome]
  have hslash : c ≠ backslash := by rcases hc with rfl | rfl <;> decide
  have hmark : c ≠ quotationMark := by rcases hc with rfl | rfl <;> decide
  simp [read, hslash, hmark, hc, h.inQuotes_eq]

end Splitter

open Splitter

variable {s : Splitter} {args : List (List Wchar)} {inQuotes : Bool}

theorem holds_escapeChars (start : List Wchar) (hstart : (start.foldl read s).Holds args
    [] 0 inQuotes) (ac : List Wchar)
    (hspace : ∀ c ∈ ac, c = blank ∨ c = tabulator → inQuotes = true) :
    ((ac.foldl escapeChar (start, 0)).1.foldl read s).Holds args ac (ac.foldl escapeChar (start, 0)).2 inQuotes := by
  induction ac using reverseRecOn with
  | nil => exact hstart
  | append_singleton ac c ih =>
    have ih := ih fun c hc => hspace c (mem_append_left _ hc)
    rw [foldl_append, foldl_cons, foldl_nil]
    generalize ac.foldl escapeChar (start, 0) = buf at ih ⊢
    unfold escapeChar
    split_ifs with hslash hmark
    · subst hslash
      rw [foldl_append]
      exact ih.read_backslash
    · subst hmark
      rw [foldl_append, foldl_append]
      have hmore := (ih.read_backslashes buf.2).read_backslash
      rw [append_assoc, ← backslashes_succ] at hmore
      exact hmore.read_literal
    · rw [foldl_append]
      exact ih.read_other hslash hmark (hspace c (by simp))

theorem foldl_countChar_snd (ac : List Wchar) (n : Nat) (hasSpace : Bool) :
    (ac.foldl countChar (n, hasSpace)).2 = true ↔ hasSpace = true ∨ ∃ c ∈ ac, c = blank ∨ c = tabulator := by
  induction ac generalizing n hasSpace with
  | nil => simp
  | cons c ac ih =>
    have hblank : ¬ (blank = quotationMark ∨ blank = backslash) := by decide
    have htab : ¬ (tabulator = quotationMark ∨ tabulator = backslash) := by decide
    rw [foldl_cons, countChar]
    simp only [mem_cons, or_and_right, exists_or, exists_eq_left]
    split_ifs with hspecial hspace
    · have hspace : ¬ (c = blank ∨ c = tabulator) := by
        rintro (rfl | rfl)
        · exact hblank hspecial
        · exact htab hspecial
      rw [ih, or_iff_right hspace]
    · rw [ih]
      exact iff_of_true (.inl rfl) (.inr (.inl hspace))
    · rw [ih, or_iff_right hspace]

theorem foldl_countChar_fst (ac : List Wchar) (n : Nat) (hasSpace : Bool) : n ≤ (ac.foldl countChar (n, hasSpace)).1 ∧
      ((ac.foldl countChar (n, hasSpace)).1 = n → ∀ c ∈ ac, c ≠ backslash ∧ c ≠ quotationMark) := by
  induction ac generalizing n hasSpace with
  | nil => simp
  | cons c ac ih =>
    rw [foldl_cons, countChar]
    split_ifs with hspecial hspace
    · have hmore := (ih (n + 1) hasSpace).1
      dsimp only
      exact ⟨by omega, fun h => by omega⟩
    · exact ⟨(ih n true).1, fun h => forall_mem_cons.2 ⟨by tauto, (ih n true).2 h⟩⟩
    · exact ⟨(ih n hasSpace).1, fun h => forall_mem_cons.2 ⟨by tauto, (ih n hasSpace).2 h⟩⟩

theorem foldl_escapeChar_plain {ac : List Wchar} (hplain : ∀ c ∈ ac, c ≠ backslash ∧
    c ≠ quotationMark) (buf : List Wchar) :
    ac.foldl escapeChar (buf, 0) = (buf ++ ac, 0) := by
  induction ac generalizing buf with
  | nil => simp
  | cons c ac ih =>
    obtain ⟨hc, hplain⟩ := forall_mem_cons.1 hplain
    rw [foldl_cons, escapeChar, if_neg hc.1, if_neg hc.2, ih hplain, append_assoc]
    rfl

theorem escapeArgument_eq {ac : List Wchar} (hne : ac ≠ []) :
    escapeArgument ac = if (∃ c ∈ ac, c = blank ∨ c = tabulator) then
        (ac.foldl escapeChar ([quotationMark], 0)).1 ++
          (backslashes (ac.foldl escapeChar ([quotationMark], 0)).2 ++ [quotationMark])
      else (ac.foldl escapeChar ([], 0)).1 := by
  have hcount := foldl_countChar_fst ac ac.length false
  have hspace := foldl_countChar_snd ac ac.length false
  rw [escapeArgument, if_neg hne]
  rcases hresult : ac.foldl countChar (ac.length, false) with ⟨n, hasSpace⟩
  rw [hresult] at hcount hspace
  simp only [Bool.false_eq_true, false_or] at hspace
  by_cases hblank : ∃ c ∈ ac, c = blank ∨ c = tabulator
  · obtain rfl : hasSpace = true := hspace.2 hblank
    dsimp only
    rw [if_pos rfl, if_neg (by dsimp only at hcount; omega), if_pos hblank]
    rfl
  · obtain rfl : hasSpace = false := by simpa [hblank] using hspace
    simp only [Bool.false_eq_true, if_false]
    split_ifs with hplain
    · rw [foldl_escapeChar_plain (hcount.2 hplain), nil_append]
    · rfl

theorem holds_escapeArgument (args : List (List Wchar)) (ac : List Wchar) :
    ∃ n, ((escapeArgument ac).foldl read { args }).Holds args ac n false ∧
      ((escapeArgument ac).foldl read { args }).current ≠ none := by
  have hstart : Holds { args } args [] 0 false := ⟨rfl, rfl, rfl, rfl, fun _ => rfl⟩
  have hopen : Holds (read { args } quotationMark) args [] 0 true := (@Holds.read_delimiter _ _ [] 0 _ hstart).1
  by_cases hne : ac = []
  · subst hne
    exact ⟨0, @Holds.read_delimiter _ _ [] 0 _ hopen⟩
  rw [escapeArgument_eq hne]
  split_ifs with hblank
  · have hloop := holds_escapeChars (s := { args }) [quotationMark] hopen ac fun _ _ _ => rfl
    rw [foldl_append, foldl_append]
    exact ⟨0, (hloop.read_backslashes _).read_delimiter⟩
  · have hloop := holds_escapeChars (s := { args }) [] hstart ac fun c hc hspace => absurd ⟨c, hc, hspace⟩ hblank
    exact ⟨_, hloop, fun hnone => hne (hloop.empty hnone)⟩

theorem finished_appendArguments (before args : List (List Wchar)) :
    ((appendArguments args).foldl read { args := before }).finished = before ++ args := by
  induction args generalizing before with
  | nil => simp [appendArguments, finished]
  | cons arg rest ih =>
    obtain ⟨n, hholds, hsome⟩ := holds_escapeArgument before arg
    rw [appendArguments, foldl_append, foldl_append]
    split_ifs with hrest
    · subst hrest
      exact hholds.finished_eq hsome
    · rw [foldl_cons, foldl_nil, hholds.read_blank hsome (Or.inl rfl), ih, append_assoc]
      rfl

/-- The client gets its arguments, with or without the explicit `--`. -/
theorem getClientCommandline_roundTrip (before args : List (List Wchar)) :
    (∃ text, getClientCommandline (before ++ args) before.length false = some (text, before) ∧
      commandLineToArgs text = args) ∧
    ∃ text, getClientCommandline (before ++ clientCommandlineArg :: args) before.length true = some (text, before) ∧
      commandLineToArgs text = args := by
  have hargs : commandLineToArgs (appendArguments args) = args := finished_appendArguments [] args
  constructor
  · exact ⟨_, by simp [getClientCommandline], hargs⟩
  · exact ⟨_, by simp [getClientCommandline], hargs⟩

example : escapeArgument [0x61, blank, quotationMark, backslash] =
    [quotationMark, 0x61, blank, backslash, quotationMark, backslash, backslash, quotationMark] := by decide

end Terminal.Host.ConsoleArguments
