import Terminal.Host.LineBounds

/-!
# Moving by words in a cooked read

Ctrl+Left does nothing behind the first character of the line. From anywhere else, both moves
come to a boundary of delimiters until they are at the end.
-/

namespace Terminal.Host.CookedReadData

open Terminal.Parser (Wchar)

def delimiterClass (g : Globals) (wch : Wchar) : Bool × Bool := (wch == SPACE, g.isWordDelim wch)

/-- The characters on both sides of `p` are of different classes. -/
def Boundary (s : CookedReadData) (g : Globals) (p : Nat) : Prop :=
  delimiterClass g (s.charAt (p - 1)) ≠ delimiterClass g (s.charAt p)

instance (s : CookedReadData) (g : Globals) (p : Nat) : Decidable (s.Boundary g p) := inferInstanceAs (Decidable (¬ _))

variable {s : CookedReadData} {g : Globals}

theorem boundary_of_space {p : Nat} (hleft : (s.charAt (p - 1) != SPACE) = false)
    (hright : (s.charAt p != SPACE) = true) :
    s.Boundary g p := by
  intro heq
  have hspace : (s.charAt (p - 1) == SPACE) = (s.charAt p == SPACE) := congrArg Prod.fst heq
  rw [bne, hspace] at hleft
  rw [bne, hleft] at hright
  exact Bool.false_ne_true hright

theorem boundary_of_delim {p : Nat} (h : g.isWordDelim (s.charAt (p - 1)) ≠
    g.isWordDelim (s.charAt p)) : s.Boundary g p :=
  fun heq => h (congrArg Prod.snd heq)

/-! ## To the left -/

theorem skipBack_stops {stop : Wchar → Bool} {p : Nat} (hp : stop (s.charAt p) = false) (hne : s.skipBack stop p ≠ 0) :
    stop (s.charAt (s.skipBack stop p)) = true ∧ stop (s.charAt (s.skipBack stop p + 1)) = false := by
  induction p with
  | zero => exact absurd rfl hne
  | succ p ih =>
    unfold skipBack at hne ⊢
    split_ifs at hne ⊢ with hstop
    · exact ⟨hstop.resolve_left hne, hp⟩
    · exact ih (by simpa using (not_or.1 hstop).2) hne

theorem lastWord_cases (g : Globals) (p : Nat) :
    s.lastWord g p = 0 ∨ ∃ q, q ≠ 0 ∧ s.lastWord g p = q + 1 ∧ s.Boundary g (q + 1) := by
  unfold lastWord
  generalize hspaces : (if s.charAt p = SPACE then s.skipBack (· != SPACE) p else p) = q
  dsimp only
  by_cases hq : q = 0
  · simp [hq]
  have hword : s.charAt q ≠ SPACE := by
    split_ifs at hspaces with hspace
    · subst hspaces
      exact bne_iff_ne.1 (skipBack_stops (by simp [hspace]) hq).1
    · exact hspaces ▸ hspace
  split_ifs with hdelim hstart hstart
  · exact .inl rfl
  · obtain ⟨hleft, hright⟩ := skipBack_stops (by simp [hword, hdelim]) hstart
    refine .inr ⟨_, hstart, rfl, fun heq => ?_⟩
    simp only [delimiterClass, Nat.add_sub_cancel, Prod.mk.injEq] at heq
    rw [heq.1, heq.2, hright] at hleft
    exact Bool.false_ne_true hleft
  · exact .inl rfl
  · obtain ⟨hleft, hright⟩ := skipBack_stops (by simpa using hdelim) hstart
    refine .inr ⟨_, hstart, rfl, boundary_of_delim ?_⟩
    simp [hleft, hright]

/-! ## To the right -/

theorem skipAhead_stops (stop : Wchar → Bool) (n p : Nat) :
    p ≤ s.skipAhead stop n p ∧ (p < s.skipAhead stop n p → stop (s.charAt (s.skipAhead stop n p - 1)) = false) ∧
      (s.skipAhead stop n p < p + n → stop (s.charAt (s.skipAhead stop n p)) = true) := by
  induction n generalizing p with
  | zero => simp [skipAhead]
  | succ n ih =>
    unfold skipAhead
    split_ifs with hstop
    · simp [hstop]
    · obtain ⟨hle, hleft, hright⟩ := ih (p + 1)
      refine ⟨by omega, fun _ => ?_, fun h => hright (by omega)⟩
      rcases Nat.eq_or_lt_of_le hle with heq | hlt
      · simpa [← heq] using hstop
      · exact hleft hlt

theorem skipUpTo_stops (stop : Wchar → Bool) {last p : Nat} (hp : p ≤ last) :
    p ≤ s.skipUpTo stop last p ∧ (p < s.skipUpTo stop last p → stop (s.charAt (s.skipUpTo stop last p - 1)) = false) ∧
      (s.skipUpTo stop last p < last → stop (s.charAt (s.skipUpTo stop last p)) = true) := by
  obtain ⟨hle, hleft, hright⟩ := s.skipAhead_stops stop (last - p) p
  exact ⟨hle, hleft, fun h => hright (by rwa [Nat.add_sub_cancel' hp])⟩

theorem skipUpTo_spaces {last p : Nat} (hp : p ≤ last) (hstop : p < last → s.charAt p ≠ SPACE → s.Boundary g p) :
    p ≤ s.skipUpTo (· != SPACE) last p ∧
      (s.skipUpTo (· != SPACE) last p < last → s.Boundary g (s.skipUpTo (· != SPACE) last p)) := by
  obtain ⟨hle, hleft, hright⟩ := s.skipUpTo_stops (· != SPACE) hp
  refine ⟨hle, fun h => ?_⟩
  rcases Nat.eq_or_lt_of_le hle with heq | hlt
  · rw [← heq] at h hright ⊢
    exact hstop h (bne_iff_ne.1 (hright h))
  · exact boundary_of_space (hleft hlt) (hright h)

theorem nextWord_stops (g : Globals) {last p : Nat} (hlast : p < last) :
    p < s.nextWord g last p ∧ (s.nextWord g last p < last → s.Boundary g (s.nextWord g last p)) := by
  unfold nextWord
  split_ifs with hspace
  · exact skipUpTo_spaces hlast fun _ hne => boundary_of_space (by simp [hspace]) (bne_iff_ne.2 hne)
  · dsimp only
    obtain ⟨hle, hleft, hright⟩ := s.skipUpTo_stops (fun wch => g.isWordDelim (s.charAt p) != g.isWordDelim wch) hlast
    have hm := skipUpTo_le (s := s) (fun wch => g.isWordDelim (s.charAt p) != g.isWordDelim wch) hlast
    generalize s.skipUpTo (fun wch => g.isWordDelim (s.charAt p) != g.isWordDelim wch) last (p + 1) = m at *
    have hsame : g.isWordDelim (s.charAt p) = g.isWordDelim (s.charAt (m - 1)) := by
      rcases Nat.eq_or_lt_of_le hle with rfl | hlt
      · rfl
      · exact bne_eq_false_iff_eq.1 (hleft hlt)
    obtain ⟨hle', hboundary⟩ := skipUpTo_spaces hm fun h _ => boundary_of_delim (hsame ▸ bne_iff_ne.1 (hright h))
    exact ⟨Nat.le_trans hle hle', hboundary⟩

/-! ## Both keys -/

def Stop (s : CookedReadData) (g : Globals) : Prop :=
  s.currentPosition = 0 ∨ s.currentPosition = s.bytesRead / 2 ∨ s.Boundary g s.currentPosition

/-- Both keys move to a stop, and repeated to the end of the line. -/
structure MovesByWord (s : CookedReadData) (g : Globals) : Prop where
  left : s.currentPosition ≠ 0 → (s.moveCursorLeftByWord g).currentPosition < s.currentPosition
  right : s.currentPosition ≠ s.bytesRead / 2 → s.currentPosition < (s.moveCursorRightByWord g).currentPosition
  left_stop : (s.moveCursorLeftByWord g).Stop g
  right_stop : (s.moveCursorRightByWord g).Stop g
  left_end : ∃ n, ((moveCursorLeftByWord · g)^[n] s).currentPosition = 0
  right_end : ∃ n, ((moveCursorRightByWord · g)^[n] s).currentPosition = s.bytesRead / 2

theorem Line.leftByWord (h : s.Line) (g : Globals) (hne : s.currentPosition ≠ 1) :
    (s.moveCursorLeftByWord g).currentPosition ≠ 1 ∧ (s.moveCursorLeftByWord g).Stop g ∧
      (s.currentPosition ≠ 0 → (s.moveCursorLeftByWord g).currentPosition < s.currentPosition) := by
  have hpointer := h.pointer
  have hle := @lastWord_le s g (s.bufPtr - 1)
  unfold CookedReadData.moveCursorLeftByWord
  split_ifs with hzero hone
  · exact ⟨hne, .inl (by omega), fun hpos => absurd (hpointer ▸ hzero) hpos⟩
  · omega
  · refine ⟨?_, ?_, fun hpos => show s.lastWord g (s.bufPtr - 1) < _ by omega⟩
    · rcases lastWord_cases g (s.bufPtr - 1) with hstart | ⟨q, hq, hword, -⟩
      · exact hstart.trans_ne Nat.zero_ne_one
      · exact hword.trans_ne (by omega)
    · rcases lastWord_cases g (s.bufPtr - 1) with hstart | ⟨q, -, hword, hboundary⟩
      · exact .inl hstart
      · exact .inr (.inr (hword ▸ hboundary))

theorem Line.rightByWord (h : s.Line) (g : Globals) :
    (s.moveCursorRightByWord g).bytesRead = s.bytesRead ∧ (s.moveCursorRightByWord g).Stop g ∧
      (s.currentPosition ≠ s.bytesRead / 2 → s.currentPosition < (s.moveCursorRightByWord g).currentPosition) := by
  have hinserted := h.inserted
  unfold CookedReadData.moveCursorRightByWord
  split_ifs with hright
  · have hlt : s.bufPtr < s.bytesRead / 2 := by rwa [h.pointer]
    have hle := @nextWord_le s g _ _ hlt
    obtain ⟨hless, hboundary⟩ := nextWord_stops (s := s) g hlt
    refine ⟨rfl, ?_, fun _ => h.pointer ▸ hless⟩
    rcases Nat.eq_or_lt_of_le hle with hend | hmiddle
    · exact .inr (.inl hend)
    · exact .inr (.inr (hboundary hmiddle))
  · exact ⟨rfl, .inr (.inl (by omega)), fun hne => absurd hne (by omega)⟩

theorem exists_iterate_left (h : s.Line) (g : Globals) (hne : s.currentPosition ≠ 1) :
    ∃ n, ((moveCursorLeftByWord · g)^[n] s).currentPosition = 0 := by
  refine (Steps.reaches_zero (I := fun s => Line s ∧ s.currentPosition ≠ 1) ?_ ⟨h, hne⟩).imp fun _ => And.right
  rintro s ⟨hs, hne⟩ hpos
  obtain ⟨hne', -, hless⟩ := hs.leftByWord g hne
  exact ⟨1, ⟨hs.moveCursorLeftByWord g, hne'⟩, hless hpos⟩

theorem exists_iterate_right (h : s.Line) (g : Globals) :
    ∃ n, ((moveCursorRightByWord · g)^[n] s).currentPosition = s.bytesRead / 2 := by
  refine (Steps.reaches_zero (f := (moveCursorRightByWord · g)) (μ := fun s => bytesRead s / 2 - s.currentPosition)
    (I := fun s' => Line s' ∧ s'.bytesRead = s.bytesRead) ?_ ⟨h, rfl⟩).imp ?_
  · rintro s' ⟨hs', hsame⟩ hpos
    obtain ⟨hbytes, -, hless⟩ := hs'.rightByWord g
    refine ⟨1, ⟨hs'.moveCursorRightByWord g, hbytes.trans hsame⟩, ?_⟩
    rw [Function.iterate_one, hbytes]
    omega
  · rintro n ⟨⟨hline, hbytes⟩, hn⟩
    have := hline.inserted
    omega

theorem movesByWord_iff (h : s.Line) (g : Globals) : s.MovesByWord g ↔ s.currentPosition ≠ 1 := by
  constructor
  · intro hmoves hone
    have hleft := hmoves.left (by omega)
    have hpointer := h.pointer
    rw [CookedReadData.moveCursorLeftByWord, if_neg (by omega), if_pos (by omega)] at hleft
    exact Nat.lt_irrefl _ (hpointer ▸ hleft)
  · intro hne
    obtain ⟨-, hleft_stop, hleft⟩ := h.leftByWord g hne
    obtain ⟨-, hright_stop, hright⟩ := h.rightByWord g
    exact ⟨hleft, hright, hleft_stop, hright_stop, exists_iterate_left h g hne, exists_iterate_right h g⟩

def wordLine (position : Nat) : CookedReadData :=
  ⟨512, [], 0, true, true, true, none, 512, [0x61, 0x62] ++ List.replicate 254 SPACE, position, 4, position, .reading⟩

theorem movesByWord_from_end : (wordLine 2).MovesByWord {} :=
  (movesByWord_iff ⟨by decide +kernel, by decide, by decide, rfl, by decide, by decide⟩ {}).2 (by decide)

/-- Behind the first character, Ctrl+Left stays where it is. -/
theorem leftByWord_stays : (wordLine 1).Line ∧ (wordLine 1).moveCursorLeftByWord {} = wordLine 1 :=
  ⟨⟨by decide +kernel, by decide, by decide, rfl, by decide, by decide⟩, by decide +kernel⟩

end Terminal.Host.CookedReadData
