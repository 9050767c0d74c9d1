import Terminal.Til.Rle

/-!
# The rest of `til::basic_rle` (`rle.h`)

What a row does with its attributes: fill, read one, replace a range with one value, resize.
-/

namespace Terminal.Til

open RunList Option

/-! ## The model -/

section

variable {T : Type} (w : Nat)

def Rle.ofLength (length : Nat) (value : T) : Rle T :=
  { runs := if length ≠ 0 then [⟨value, length⟩] else [], totalLength := length }

def Rle.isEmpty (rle : Rle T) : Bool := rle.totalLength == 0

def valueAt (position : Nat) (rle : Rle T) : Option T :=
  rle.runs[(scan w position rle.runs 0 0).1]?.map Run.value

def resizeTrailingExtent (newSize : Nat) (rle : Rle T) : Option (Rle T) :=
  if newSize = 0 then some { runs := [], totalLength := newSize }
  else if newSize < rle.totalLength then do
    let (run, pos, _) := scan w (newSize - 1) rle.runs 0 0
    let runs ← modifyLength run (fun _ => addSize w pos 1) rle.runs
    let runs ← eraseRange (run + 1) runs.length runs
    return { runs := runs, totalLength := newSize }
  else if newSize > rle.totalLength then
    if rle.runs = [] then none
    else do
      let runs ← modifyLength (rle.runs.length - 1)
        (fun length => addSize w length (subSize w newSize rle.totalLength)) rle.runs
      return { runs := runs, totalLength := newSize }
  else some { rle with totalLength := newSize }

def replaceValue [DecidableEq T] [Inhabited T] (start stop : Nat) (value : T) (rle : Rle T) : Option (Rle T) := do
  let stop ← checkIndices start stop rle
  replaceUnchecked w start stop [⟨value, subSize w stop start⟩] rle

end

/-! ## Reading and filling -/

section

variable {T : Type} {w n : Nat} {rle : Rle T}

theorem Rle.wellFormed_ofLength (h : n < 2 ^ w) (value : T) : (Rle.ofLength n value).WellFormed w := by
  unfold Rle.ofLength
  rcases Nat.eq_zero_or_pos n with rfl | hpos
  · exact ⟨canonical_nil, rfl, h⟩
  · simp only [Nat.ne_of_gt hpos, ne_eq]
    exact ⟨⟨by simpa using hpos, by simp⟩, by simp, h⟩

theorem Rle.WellFormed.scan_eq (h : rle.WellFormed w) (hn : n < rle.totalLength) :
    ∃ it pos before r, scan w n rle.runs 0 0 = (it, pos, before) ∧ Cursor rle.runs n it pos ∧
      rle.runs[it]? = some r := by
  have htotal := h.total
  obtain ⟨it, pos, hscan, hcursor⟩ :=
    scan_spec 0 rle.runs (show 0 + RunList.total rle.runs < 2 ^ w by have := h.fits; omega) (Nat.zero_le n) (by omega)
  simp only [Nat.zero_add] at hscan hcursor
  cases hr : rle.runs[it]? with
  | none =>
    have := hcursor.getElem?_eq_none.mp hr
    omega
  | some r => exact ⟨it, pos, _, r, hscan, hcursor, hr⟩

theorem scan_past {before : Nat} (it : Nat) (rest : List (Run T)) (hfits : before + RunList.total rest < 2 ^ w)
    (hn : before + RunList.total rest ≤ n) : (scan w n rest it before).1 = it + rest.length := by
  induction rest generalizing it before with
  | nil => rfl
  | cons r rest ih =>
    rw [RunList.total_cons] at hfits hn
    rw [scan, addSize_of_lt (by omega), if_neg (by omega), ih _ (by omega) (by omega), List.length_cons]
    omega

/-- `at` reads the decoded sequence, and throws just past its end. -/
theorem Rle.WellFormed.valueAt_eq (h : rle.WellFormed w) (n : Nat) : valueAt w n rle = (decode rle.runs)[n]? := by
  have hfits := h.fits
  have htotal := h.total
  by_cases hn : n < rle.totalLength
  case neg =>
    rw [valueAt, scan_past 0 rle.runs (by omega) (by omega), List.getElem?_eq_none (by omega),
      List.getElem?_eq_none (by rw [length_decode]; omega), Option.map_none]
  obtain ⟨it, pos, before, r, hscan, hcursor, hr⟩ := h.scan_eq hn
  obtain ⟨htrail, hpos⟩ := hcursor.trail_eq hr
  have hdrop : (decode rle.runs).drop n = decode (trail rle.runs it pos) := by
    rw [← decode_drop, hcursor.drop_eq]
  have hhead : (decode rle.runs)[n]? = ((decode rle.runs).drop n)[0]? := by simp
  rw [hhead, hdrop, htrail, decode_cons, List.getElem?_append_left (by simp; omega)]
  rw [List.getElem?_replicate, if_pos (Nat.sub_pos_of_lt hpos)]
  simp [valueAt, hscan, hr]

/-- The first element of the second run. -/
theorem Rle.WellFormed.valueAt_eq_ofLength :
    let rle : Rle Char := ⟨[⟨'a', 2⟩, ⟨'b', 3⟩], 5⟩
    valueAt 16 2 rle = some 'b' ∧ valueAt 16 2 rle = (decode rle.runs)[2]? := by
  intro rle
  have h : rle.WellFormed 16 := ⟨⟨by simp [rle], by simp [rle]⟩, rfl, by decide⟩
  exact ⟨by decide, h.valueAt_eq 2⟩

/-! ## Changing the length -/

theorem take_eq_of_cursor {rs : List (Run T)} {it pos : Nat} {r : Run T} (hrs : ∀ r ∈ rs, 0 < r.length)
    (hcursor : Cursor rs n it pos) (hr : rs[it]? = some r) :
    RunList.take (n + 1) rs = rs.take it ++ [{ r with length := pos + 1 }] := by
  have hpos := (hcursor.trail_eq hr).2
  have hsum := hcursor.sum
  obtain ⟨hlt, rfl⟩ := List.getElem?_eq_some_iff.mp hr
  rcases Nat.lt_or_ge (pos + 1) rs[it].length with hin | hend
  · have hnext : Cursor rs (n + 1) it (pos + 1) := ⟨by omega, by simpa [hr] using hin, hcursor.le⟩
    rw [hnext.take_eq, lead]
    simp [hr]
  · have hinside : 0 < rs[it + 1]?.elim 1 Run.length := by
      cases h : rs[it + 1]? with
      | none => simp
      | some r' => exact hrs r' (List.mem_of_getElem? h)
    have htake : rs.take (it + 1) = rs.take it ++ [rs[it]] := by simp
    have hnext : Cursor rs (n + 1) (it + 1) 0 := by
      refine ⟨?_, hinside, hlt⟩
      rw [htake, total_append]
      simp
      omega
    rw [hnext.take_eq, lead_zero, htake, show pos + 1 = rs[it].length by omega]

theorem resizeTrailingExtent_wellFormed (h : rle.WellFormed w) (hne : rle.isEmpty = false) (hn : n < 2 ^ w) :
    ∃ r, resizeTrailingExtent w n rle = some r ∧ r.WellFormed w ∧ r.totalLength = n := by
  have htotal := h.total
  have hfits := h.fits
  unfold resizeTrailingExtent
  split_ifs with hzero hlt hgt hnil
  · exact ⟨_, rfl, ⟨canonical_nil, hzero, hn⟩, rfl⟩
  · obtain ⟨it, pos, before, r, hscan, hcursor, hr⟩ := h.scan_eq (show n - 1 < rle.totalLength by omega)
    have hpos := (hcursor.trail_eq hr).2
    have hrlt := length_le_total (List.mem_of_getElem? hr)
    have htake := take_eq_of_cursor h.canonical.pos hcursor hr
    rw [Nat.sub_add_cancel (by omega)] at htake
    obtain ⟨hit, rfl⟩ := List.getElem?_eq_some_iff.mp hr
    have herase : (rle.runs.set it { rle.runs[it] with length := pos + 1 }).take (it + 1) =
      RunList.take n rle.runs := by
      rw [take_succ_set hit, htake]
    refine ⟨{ runs := RunList.take n rle.runs, totalLength := n }, ?_, ⟨canonical_take n h.canonical, ?_, hn⟩, rfl⟩
    · rw [hscan]
      dsimp only
      rw [addSize_of_lt (by omega)]
      simp only [modifyLength, hr, bind_eq_bind, bind_some, pure_def]
      rw [eraseRange_eq (by simp; omega) (by simp)]
      simp [herase]
    · rw [total_take]
      dsimp only
      omega
  · simp [hnil] at htotal
    simp [Rle.isEmpty, htotal] at hne
  · obtain ⟨xs, x, hruns⟩ := (List.eq_nil_or_concat' rle.runs).resolve_left hnil
    have hcanonical := h.canonical
    rw [hruns, canonical_append] at hcanonical
    obtain ⟨hxs, ⟨hpos, -, -⟩, hapart⟩ := hcanonical
    simp only [hruns, total_append, total_cons, total_nil] at htotal
    refine ⟨{ runs := xs ++ [{ x with length := x.length + (n - rle.totalLength) }], totalLength := n }, ?_, ?_, rfl⟩
    · rw [subSize_of_le (by omega) hn, hruns, modifyLength_append (by simp)]
      simp only [bind_eq_bind, bind_some, pure_def]
      rw [addSize_of_lt (by omega)]
    · refine ⟨?_, ?_, hn⟩
      · rw [canonical_append, canonical_cons]
        exact ⟨hxs, ⟨by dsimp only; omega, canonical_nil, by simp [Apart]⟩, hapart.congr_head rfl⟩
      · simp
        omega
  · exact ⟨_, rfl, ⟨h.canonical, by dsimp only; omega, hn⟩, rfl⟩

/-! ## One value over a range -/

variable [DecidableEq T] [Inhabited T] {start stop : Nat}

theorem replaceValue_eq (h : rle.WellFormed w) (hlt : start < stop) (hstop : stop ≤ rle.totalLength) (value : T) :
    ∃ r, replaceValue w start stop value rle = some r ∧ r.WellFormed w ∧ r.totalLength = rle.totalLength ∧
      decode r.runs = (decode rle.runs).take start ++
        (List.replicate (stop - start) value ++ (decode rle.runs).drop stop) := by
  have hfits := h.fits
  have htotal := h.total
  have hcheck : checkIndices start stop rle = some stop := by
    simp only [checkIndices, if_neg (show ¬ stop > rle.totalLength by omega), if_neg (show ¬ start > stop by omega)]
  have hsplice := replaceUnchecked_splice h (Nat.le_of_lt hlt) hstop [⟨value, stop - start⟩] (by simp; omega)
  have hlength := total_splice [⟨value, stop - start⟩] rle.runs (Nat.le_of_lt hlt) (h.total ▸ hstop)
  simp only [total_cons, total_nil] at hsplice hlength
  refine ⟨{ runs := splice start stop [⟨value, stop - start⟩] rle.runs
            totalLength := rle.totalLength - (stop - start) + (stop - start + 0) }, ?_, ⟨?_, ?_, ?_⟩, ?_, ?_⟩
  · rw [replaceValue, hcheck]
    simp only [bind_eq_bind, bind_some]
    rw [subSize_of_le (Nat.le_of_lt hlt) (by omega)]
    exact hsplice
  · exact canonical_splice start stop ⟨by simp; omega, by simp⟩ h.canonical
  · rw [hlength, ← htotal]
  · dsimp only
    omega
  · dsimp only
    omega
  · rw [decode_splice]
    simp

end

end Terminal.Til
