import Mathlib.Data.List.Basic

/-!
# Spans of memory

Reading and overwriting a part of an array. An access outside of it is `none`.
-/

namespace Span

variable {α : Type}

def read (first last : Nat) (xs : List α) : Option (List α) :=
  if first ≤ last ∧ last ≤ xs.length then some ((xs.drop first).take (last - first)) else none

def write (pos : Nat) (ys xs : List α) : Option (List α) :=
  if pos + ys.length ≤ xs.length then some (xs.take pos ++ (ys ++ xs.drop (pos + ys.length))) else none

def move (first last pos : Nat) (xs : List α) : Option (List α) := (read first last xs).bind fun ys => write pos ys xs

theorem exists_write {pos : Nat} {ys xs : List α} (h : pos + ys.length ≤ xs.length) :
    ∃ xs', write pos ys xs = some xs' ∧ xs'.length = xs.length :=
  ⟨_, if_pos h, by simp; omega⟩

theorem exists_move {first last pos : Nat} {xs : List α} (hfirst : first ≤ last) (hlast : last ≤ xs.length)
    (hpos : pos + (last - first) ≤ xs.length) : ∃ xs', move first last pos xs = some xs' ∧ xs'.length = xs.length := by
  rw [move, read, if_pos ⟨hfirst, hlast⟩]
  exact exists_write (by simp; omega)

theorem read_append {first last : Nat} (xs ys zs : List α) (hfirst : first = xs.length)
    (hlast : last = xs.length + ys.length) : read first last (xs ++ (ys ++ zs)) = some ys := by
  subst hfirst hlast
  simp [read]

theorem write_append {pos : Nat} (xs ys old zs : List α) (hpos : pos = xs.length)
    (hlength : ys.length = old.length) : write pos ys (xs ++ (old ++ zs)) = some (xs ++ (ys ++ zs)) := by
  subst hpos
  simp [write, hlength]

theorem write_front (ys xs : List α) (h : ys.length ≤ xs.length) :
    ∃ rest, write 0 ys xs = some (ys ++ rest) ∧ ys.length + rest.length = xs.length :=
  ⟨xs.drop ys.length, by simp [write, h], by simp; omega⟩

theorem write_behind {pos : Nat} (xs ys zs : List α) (hpos : xs.length ≤ pos)
    (hlength : pos + ys.length ≤ xs.length + zs.length) :
    ∃ between rest, write pos ys (xs ++ zs) = some (xs ++ (between ++ (ys ++ rest))) ∧
      between.length = pos - xs.length ∧
      xs.length + (between.length + (ys.length + rest.length)) = xs.length + zs.length := by
  refine ⟨zs.take (pos - xs.length), (xs ++ zs).drop (pos + ys.length), ?_, by simp; omega, by simp; omega⟩
  rw [write, if_pos (by simpa using hlength), List.take_append, List.take_of_length_le hpos]
  simp

end Span
