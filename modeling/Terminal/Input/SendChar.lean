import Terminal.Parser.CsiText
import Terminal.Parser.InputEngine
import Terminal.Til.Unicode

/-!
# Sent characters (`terminalInput.cpp`)

A leading surrogate waits for the next code unit. If that is another one, the decimal number of
the first is sent in its place.
-/

namespace Terminal.Input

open Terminal.Parser (Wchar KeyEvent formatNat)
open Terminal.Til (isLeadingSurrogate)
open List

structure CharSender where
  leadingSurrogate : Option Wchar := none
  written : List KeyEvent := []

namespace CharSender

def sendInputSequence (s : CharSender) (sequence : List Wchar) : CharSender :=
  { s with written := s.written ++ sequence.map fun wch => { keyDown := true, repeatCount := 1, charData := wch } }

def sendChar (s : CharSender) (ch : Wchar) : CharSender :=
  if isLeadingSurrogate ch then
    let s := match s.leadingSurrogate with
      | some saved => s.sendInputSequence (formatNat saved.toNat)
      | none => s
    { s with leadingSurrogate := some ch }
  else
    match s.leadingSurrogate with
    | some saved => { s with leadingSurrogate := none }.sendInputSequence [saved, ch]
    | none => s.sendInputSequence [ch]

/-- What has been written, and the leading surrogate that has not. -/
def units (s : CharSender) : List Wchar := s.written.map (·.charData) ++ s.leadingSurrogate.toList

def Pairs (sequence : List Wchar) : Prop :=
  sequence.IsChain fun a b => ¬ (isLeadingSurrogate a = true ∧ isLeadingSurrogate b = true)

/-! ## One character -/

variable {s : CharSender} {ch saved : Wchar}

theorem units_sendChar (h : s.leadingSurrogate = none ∨ isLeadingSurrogate ch = false) :
    (s.sendChar ch).units = s.units ++ [ch] ∧
      (s.sendChar ch).leadingSurrogate = if isLeadingSurrogate ch then some ch else none := by
  obtain ⟨leading, written⟩ := s
  unfold sendChar units sendInputSequence
  cases hch : isLeadingSurrogate ch with
  | true =>
    obtain rfl : leading = none := h.resolve_right (by simp [hch])
    simp
  | false => cases leading <;> simp

theorem length_formatNat_surrogate (h : isLeadingSurrogate saved = true) : 1 < (formatNat saved.toNat).length := by
  have hle : (saved &&& 0xFC00).toNat ≤ saved.toNat := by
    exact Nat.and_le_left
  have hsaved : 0xD800 ≤ saved.toNat := by
    rw [eq_of_beq h] at hle
    exact hle
  have hrest := length_pos_iff.mpr (Terminal.Parser.formatNat_ne_nil (saved.toNat / 10))
  unfold formatNat at *
  rw [Nat.toDigits_eq_if (by decide), if_neg (by omega), map_append, length_append]
  simp only [length_map, length_singleton] at *
  omega

theorem units_sendChar_lt (h : s.leadingSurrogate = some saved) (hsaved : isLeadingSurrogate saved = true)
    (hch : isLeadingSurrogate ch = true) : s.units.length + 1 < (s.sendChar ch).units.length := by
  have hlength := length_formatNat_surrogate hsaved
  obtain ⟨leading, written⟩ := s
  cases h
  simp only [units, sendChar, sendInputSequence, hch, if_true, map_append, length_append, length_map,
    Option.toList_some, length_singleton]
  omega

/-! ## Sequences -/

theorem pairs_cons (h : s.leadingSurrogate = none ∨ isLeadingSurrogate ch = false) (rest : List Wchar) :
    Pairs (s.leadingSurrogate.toList ++ ch :: rest) ↔
      Pairs ((if isLeadingSurrogate ch then some ch else none).toList ++ rest) := by
  unfold Pairs
  cases hch : isLeadingSurrogate ch with
  | true =>
    rw [h.resolve_right (by simp [hch])]
    rfl
  | false => cases s.leadingSurrogate <;> cases rest <;> simp [hch]

theorem units_foldl (sequence : List Wchar) (s : CharSender)
    (hs : ∀ saved, s.leadingSurrogate = some saved → isLeadingSurrogate saved = true) :
    (Pairs (s.leadingSurrogate.toList ++ sequence) ∧ (sequence.foldl sendChar s).units = s.units ++ sequence) ∨
    (¬ Pairs (s.leadingSurrogate.toList ++ sequence) ∧
      s.units.length + sequence.length < (sequence.foldl sendChar s).units.length) := by
  induction sequence generalizing s with
  | nil =>
    refine Or.inl ⟨?_, (append_nil _).symm⟩
    cases s.leadingSurrogate <;> simp [Pairs]
  | cons ch rest ih =>
    by_cases h : s.leadingSurrogate = none ∨ isLeadingSurrogate ch = false
    · obtain ⟨hunits, hleading⟩ := units_sendChar h
      have hrest := ih (s.sendChar ch) (by
        rw [hleading]
        intro saved hsaved
        split_ifs at hsaved with hch
        rw [← Option.some.inj hsaved, hch])
      rw [hleading, ← pairs_cons h, hunits] at hrest
      simpa [Nat.add_assoc, Nat.add_comm 1] using hrest
    · rw [not_or, Bool.not_eq_false] at h
      obtain ⟨saved, hsaved⟩ := Option.ne_none_iff_exists'.mp h.1
      have hlt := units_sendChar_lt hsaved (hs saved hsaved) h.2
      have hleading : (s.sendChar ch).leadingSurrogate = some ch := by
        unfold sendChar
        rw [if_pos h.2]
      refine Or.inr ⟨?_, ?_⟩
      · rw [hsaved]
        simp [Pairs, hs saved hsaved, h.2]
      · rw [foldl_cons, length_cons]
        rcases ih (s.sendChar ch) (by rw [hleading]; rintro _ ⟨⟩; exact h.2) with ⟨-, hrest⟩ | ⟨-, hrest⟩
        · rw [hrest, length_append]
          omega
        · omega

/-- Unchanged exactly if no leading surrogate follows another one. -/
theorem units_eq_iff (sequence : List Wchar) : (sequence.foldl sendChar {}).units = sequence ↔ Pairs sequence := by
  rcases units_foldl sequence {} (by simp) with ⟨hpairs, hunits⟩ | ⟨hpairs, hlength⟩
  · exact iff_of_true hunits hpairs
  · refine iff_of_false (fun hunits => ?_) hpairs
    rw [hunits] at hlength
    simp [units] at hlength

/-- The first of two leading surrogates is sent as its number, 55296. -/
theorem units_twice_leading : ([0xD800, 0xD800].foldl sendChar {}).units = [0x35, 0x35, 0x32, 0x39, 0x36, 0xD800] := by
  decide

end CharSender

end Terminal.Input
