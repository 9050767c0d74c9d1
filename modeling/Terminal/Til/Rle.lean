import Terminal.Lib.RunList

/-!
# `til::basic_rle` (`rle.h`)

The in-place splice of `_replace_unchecked`, step by step, refines `RunList.splice`. An iterator is
an index. What the source leaves undefined is `none`.
-/

namespace Terminal.Til

open RunList List Option

/-! ## The size type -/

def addSize (w a b : Nat) : Nat := (a + b) % 2 ^ w

def subSize (w a b : Nat) : Nat := (a + (2 ^ w - b % 2 ^ w)) % 2 ^ w

/-! ## The model -/

structure Rle (T : Type) where
  runs : List (Run T) := []
  totalLength : Nat := 0
deriving DecidableEq, Repr

section

variable {T : Type} (w : Nat)

def scan (index : Nat) : List (Run T) → Nat → Nat → Nat × Nat × Nat
  | [], it, total => (it, 0, total)
  | r :: rest, it, total =>
    let newTotal := addSize w total r.length
    if newTotal > index then (it, subSize w index total, total)
    else scan index rest (it + 1) newTotal

/-! ### Operations of the container -/

def modifyLength (i : Nat) (f : Nat → Nat) (runs : List (Run T)) : Option (List (Run T)) := do
  let r ← runs[i]?
  return runs.set i { r with length := f r.length }

def modifyLengthIf (count i : Nat) (f : Nat → Nat) (runs : List (Run T)) : Option (List (Run T)) :=
  if count ≠ 0 then modifyLength i f runs else some runs

def eraseRange (first last : Nat) (runs : List (Run T)) : Option (List (Run T)) :=
  if first ≤ last ∧ last ≤ runs.length then some (runs.take first ++ runs.drop last) else none

def insertAt (i : Nat) (xs runs : List (Run T)) : List (Run T) := runs.take i ++ (xs ++ runs.drop i)

def copyTo (i : Nat) (xs runs : List (Run T)) : Option (List (Run T)) :=
  if i + xs.length ≤ runs.length then some (runs.take i ++ (xs ++ runs.drop (i + xs.length))) else none

/-! ### Steps -/

/-- Step 3: the runs at both ends keep what is outside of the range. -/
def adjustLengths (first firstPos last lastPos : Nat) (runs : List (Run T)) : Option (Nat × List (Run T)) := do
  let runs ← modifyLengthIf firstPos first (fun _ => firstPos) runs
  let runs ← modifyLengthIf lastPos last (fun length => subSize w length lastPos) runs
  return (if firstPos ≠ 0 then first + 1 else first, runs)

def previousOf (it pos : Nat) : Nat := if pos ≠ 0 then it else it - 1

def lengthBefore (pos : Nat) (previous : Run T) : Nat := if pos ≠ 0 then pos else previous.length

variable [DecidableEq T]

def joinRemoved (start stop first firstPos last lastPos : Nat) (rle : Rle T) :
    Option (Nat × Nat × Nat × List (Run T)) :=
  if start ≠ 0 ∧ stop ≠ rle.totalLength then do
    let p ← rle.runs[previousOf first firstPos]?
    let e ← rle.runs[last]?
    if p.value = e.value then do
      let runs ← modifyLength last
        (fun length => subSize w length (subSize w lastPos (lengthBefore firstPos p))) rle.runs
      return (previousOf first firstPos, 0, 0, runs)
    else return (first, firstPos, lastPos, rle.runs)
  else some (first, firstPos, lastPos, rle.runs)

def removeRange (start stop first firstPos last lastPos : Nat) (rle : Rle T) : Option (Rle T) := do
  let removed := subSize w stop start
  let (first, firstPos, lastPos, runs) ← joinRemoved w start stop first firstPos last lastPos rle
  let (first, runs) ← adjustLengths w first firstPos last lastPos runs
  let runs ← eraseRange first last runs
  return { runs := runs, totalLength := subSize w rle.totalLength removed }

/-- Step 1 at the front: the iterator, its position and the length to add. -/
def joinFront (start first firstPos : Nat) (front : Run T) (runs : List (Run T)) : Option (Nat × Nat × Nat) :=
  if start ≠ 0 then do
    let p ← runs[previousOf first firstPos]?
    if p.value = front.value then some (previousOf first firstPos, 0, lengthBefore firstPos p)
    else some (first, firstPos, 0)
  else some (first, firstPos, 0)

def joinBack (stop totalLength last lastPos : Nat) (back : Run T) (runs : List (Run T)) :
    Option (Nat × Nat × Nat) :=
  if stop ≠ totalLength then do
    let e ← runs[last]?
    if e.value = back.value then some (last + 1, 0, subSize w e.length lastPos)
    else some (last, lastPos, 0)
  else some (last, lastPos, 0)

def midInsertionTrailer (first firstPos last lastPos : Nat) (runs : List (Run T)) : Option (Option (Run T)) :=
  if first = last ∧ firstPos ≠ 0 then do
    let r ← runs[first]?
    return some { r with length := subSize w r.length lastPos }
  else some none

def placeRuns [Inhabited T] (first last : Nat) (replacements : List (Run T)) (trailer : Option (Run T))
    (runs : List (Run T)) : Option (List (Run T)) := do
  let availableSpace := if first < last then last - first else 0
  let requiredSpace := replacements.length + if trailer.isSome then 1 else 0
  let direct := min availableSpace replacements.length
  let runs ← copyTo first (replacements.take direct) runs
  let current := first + direct
  if availableSpace ≥ requiredSpace then eraseRange current last runs
  else match trailer with
    | some t => do
      let runs := insertAt current (List.replicate (requiredSpace - availableSpace) ⟨default, 0⟩) runs
      -- The rest is copied to where the first part began; nothing was copied if there is a trailer.
      let runs ← copyTo first (replacements.drop direct) runs
      copyTo (first + (replacements.drop direct).length) [t] runs
    | none => some (insertAt current (replacements.drop direct) runs)

def extendEnds (first requiredSpace frontAdditional backAdditional : Nat) (runs : List (Run T)) :
    Option (List (Run T)) := do
  let runs ← modifyLengthIf frontAdditional first (fun length => addSize w length frontAdditional) runs
  modifyLengthIf backAdditional (first + requiredSpace - 1) (fun length => addSize w length backAdditional) runs

def replaceUnchecked [Inhabited T] (start stop : Nat) (replacements : List (Run T)) (rle : Rle T) :
    Option (Rle T) := do
  let (first, firstPos, total) := scan w start rle.runs 0 0
  let (last, lastPos, _) := scan w stop (rle.runs.drop first) first total
  match replacements.head?, replacements.getLast? with
  | some front, some back => do
    let (first, firstPos, frontAdditional) ← joinFront start first firstPos front rle.runs
    let (last, lastPos, backAdditional) ← joinBack w stop rle.totalLength last lastPos back rle.runs
    let trailer ← midInsertionTrailer w first firstPos last lastPos rle.runs
    let lastPos := if trailer.isSome then 0 else lastPos
    let (first, runs) ← adjustLengths w first firstPos last lastPos rle.runs
    let requiredSpace := replacements.length + if trailer.isSome then 1 else 0
    let runs ← placeRuns first last replacements trailer runs
    let runs ← extendEnds w first requiredSpace frontAdditional backAdditional runs
    -- Step 8
    let totalLength := replacements.foldl (fun total r => addSize w total r.length)
      (subSize w rle.totalLength (subSize w stop start))
    return { runs := runs, totalLength := totalLength }
  | _, _ => removeRange w start stop first firstPos last lastPos rle

def checkIndices (start stop : Nat) (rle : Rle T) : Option Nat :=
  let stop := if stop > rle.totalLength then rle.totalLength else stop
  if start > stop then none else some stop

def replace [Inhabited T] (start stop : Nat) (replacements : List (Run T)) (rle : Rle T) : Option (Rle T) := do
  let stop ← checkIndices start stop rle
  replaceUnchecked w start stop replacements rle

end

/-! ## Numbers that fit -/

section

variable {w a b c : Nat}

theorem addSize_of_lt (h : a + b < 2 ^ w) : addSize w a b = a + b := Nat.mod_eq_of_lt h

theorem subSize_of_le (hba : b ≤ a) (ha : a < 2 ^ w) : subSize w a b = a - b := by
  unfold subSize
  rw [Nat.mod_eq_of_lt (Nat.lt_of_le_of_lt hba ha)]
  have : a + (2 ^ w - b) = a - b + 2 ^ w := by omega
  rw [this, Nat.add_mod_right, Nat.mod_eq_of_lt (by omega)]

theorem subSize_subSize (hba : b ≤ a) (ha : a < 2 ^ w) (hc : c < 2 ^ w) (h : a - b + c < 2 ^ w) :
    subSize w a (subSize w b c) = a - b + c := by
  by_cases hcb : c ≤ b
  · rw [subSize_of_le hcb (by omega), subSize_of_le (by omega) ha]
    omega
  · have hinner : subSize w b c = b + 2 ^ w - c := by
      unfold subSize
      rw [Nat.mod_eq_of_lt hc, Nat.mod_eq_of_lt (by omega)]
      omega
    rw [hinner]
    unfold subSize
    rw [Nat.mod_eq_of_lt (show b + 2 ^ w - c < 2 ^ w by omega)]
    have : a + (2 ^ w - (b + 2 ^ w - c)) = a - b + c := by omega
    rw [this, Nat.mod_eq_of_lt h]

end

/-! ## Iterators -/

section

variable {T : Type} {w : Nat} {rs : List (Run T)} {index it pos : Nat}

/-- Position `pos` in the run at `it` stands for the value at `index`. -/
structure Cursor (rs : List (Run T)) (index it pos : Nat) : Prop where
  sum : total (rs.take it) + pos = index
  inside : pos < rs[it]?.elim 1 Run.length
  le : it ≤ rs.length

def lead (rs : List (Run T)) (it pos : Nat) : List (Run T) :=
  rs.take it ++ if pos = 0 then [] else (rs[it]?.map fun r => { r with length := pos }).toList

def trail (rs : List (Run T)) (it pos : Nat) : List (Run T) :=
  match rs[it]? with
  | some r => { r with length := r.length - pos } :: rs.drop (it + 1)
  | none => []

@[simp] theorem lead_zero : lead rs it 0 = rs.take it := by simp [lead]

@[simp] theorem trail_zero : trail rs it 0 = rs.drop it := by
  unfold trail
  split
  · rename_i r hr
    obtain ⟨h, rfl⟩ := List.getElem?_eq_some_iff.mp hr
    exact (List.drop_eq_getElem_cons h).symm
  · rename_i hr
    rw [List.drop_of_length_le (List.getElem?_eq_none_iff.mp hr)]

theorem Cursor.take_eq (h : Cursor rs index it pos) : RunList.take index rs = lead rs it pos := by
  induction rs generalizing index it with
  | nil => simp [RunList.take, lead]
  | cons r rs ih =>
    obtain ⟨hsum, hinside, hle⟩ := h
    cases it with
    | zero =>
      simp at hsum hinside
      subst hsum
      simp only [RunList.take, lead]
      split_ifs <;> simp
    | succ it =>
      simp at hsum hinside hle
      have hcursor : Cursor rs (index - r.length) it pos := ⟨by omega, hinside, hle⟩
      rw [RunList.take, if_neg (by omega), ih hcursor]
      simp [lead]

theorem Cursor.drop_eq (h : Cursor rs index it pos) : RunList.drop index rs = trail rs it pos := by
  induction rs generalizing index it with
  | nil => simp [RunList.drop, trail]
  | cons r rs ih =>
    obtain ⟨hsum, hinside, hle⟩ := h
    cases it with
    | zero =>
      simp at hsum hinside
      subst hsum
      simp [RunList.drop, if_pos hinside, trail]
    | succ it =>
      simp at hsum hinside hle
      have hcursor : Cursor rs (index - r.length) it pos := ⟨by omega, hinside, hle⟩
      rw [RunList.drop, if_neg (by omega), ih hcursor]
      simp [trail]

theorem scan_spec (it : Nat) (rest : List (Run T)) {before : Nat} (hfits : before + total rest < 2 ^ w)
    (hbefore : before ≤ index) (hindex : index ≤ before + total rest) :
    ∃ k pos, scan w index rest it before = (it + k, pos, before + total (rest.take k)) ∧
      Cursor rest (index - before) k pos := by
  induction rest generalizing it before with
  | nil =>
    simp at hindex
    exact ⟨0, 0, by simp [scan], by constructor <;> simp; omega⟩
  | cons r rest ih =>
    simp only [total_cons] at hfits hindex
    unfold scan
    rw [addSize_of_lt (by omega)]
    dsimp only
    split_ifs with h
    · refine ⟨0, index - before, ?_, ?_⟩
      · rw [subSize_of_le hbefore (by omega)]
        simp
      · constructor <;> simp
        omega
    · have hfits' : before + r.length + total rest < 2 ^ w := by omega
      obtain ⟨k, pos, hscan, hcursor⟩ := ih (it + 1) hfits' (by omega) (by omega)
      refine ⟨k + 1, pos, ?_, ?_⟩
      · rw [hscan]
        simp only [take_succ_cons, total_cons, Prod.mk.injEq, true_and]
        omega
      · obtain ⟨hsum, hinside, hle⟩ := hcursor
        constructor
        · simp only [take_succ_cons, total_cons]
          omega
        · simpa using hinside
        · simpa using hle

theorem scan_twice {start stop : Nat} (hle : start ≤ stop) (hstop : stop ≤ total rs) (hfits : total rs < 2 ^ w) :
    ∃ first firstPos last lastPos before after, scan w start rs 0 0 = (first, firstPos, before) ∧
        scan w stop (rs.drop first) first before = (last, lastPos, after) ∧
        Cursor rs start first firstPos ∧ Cursor rs stop last lastPos ∧
        first ≤ last ∧ (first = last → firstPos ≤ lastPos) := by
  obtain ⟨first, firstPos, hscan, hfirst⟩ :=
    scan_spec 0 rs (show 0 + total rs < 2 ^ w by omega) (Nat.zero_le start) (by omega)
  simp only [Nat.zero_add] at hscan hfirst
  have hsplit : total rs = total (rs.take first) + total (rs.drop first) := by
    rw [← total_append, take_append_drop]
  have hsum := hfirst.sum
  obtain ⟨k, lastPos, hscan', hlast⟩ :=
    scan_spec first (rs.drop first) (show total (rs.take first) + total (rs.drop first) < 2 ^ w by omega)
      (show total (rs.take first) ≤ stop by omega) (by omega)
  have htake : rs.take (first + k) = rs.take first ++ (rs.drop first).take k := by
    rw [take_add]
  refine ⟨first, firstPos, first + k, lastPos, _, _, hscan, hscan', hfirst, ?_, by omega, ?_⟩
  · obtain ⟨hsum', hinside, hle'⟩ := hlast
    constructor
    · rw [htake, total_append]
      omega
    · simpa using hinside
    · have := hfirst.le
      simp at hle'
      omega
  · intro hk
    have hk : k = 0 := by omega
    have hsum' := hlast.sum
    simp [hk] at hsum'
    omega

theorem Cursor.getElem?_isSome (h : Cursor rs index it pos) (hpos : pos ≠ 0) : ∃ r, rs[it]? = some r := by
  have := h.inside
  cases hr : rs[it]? with
  | none => simp [hr] at this; omega
  | some r => exact ⟨r, rfl⟩

theorem Cursor.previous (h : Cursor rs index it pos) (hrs : ∀ r ∈ rs, 0 < r.length) (hindex : index ≠ 0) :
    ∃ p, rs[previousOf it pos]? = some p ∧ previousOf it pos ≤ it ∧ 0 < lengthBefore pos p ∧
      lead rs it pos = rs.take (previousOf it pos) ++ [{ p with length := lengthBefore pos p }] := by
  unfold previousOf lengthBefore
  by_cases hpos : pos = 0
  · have hit : it ≠ 0 := by
      rintro rfl
      have := h.sum
      simp at this
      omega
    have hlt : it - 1 < rs.length := by
      have := h.le
      omega
    simp only [hpos, ne_eq, not_true_eq_false, if_false]
    refine ⟨rs[it - 1], getElem?_eq_getElem hlt, by omega, hrs _ (getElem_mem hlt), ?_⟩
    rw [lead_zero]
    nth_rewrite 1 [show it = it - 1 + 1 by omega]
    rw [take_add_one, getElem?_eq_getElem hlt]
    rfl
  · obtain ⟨r, hr⟩ := h.getElem?_isSome hpos
    simp only [ne_eq, hpos, not_false_eq_true, if_true]
    exact ⟨r, hr, Nat.le_refl it, by omega, by simp [lead, hpos, hr]⟩

theorem Cursor.lead_zero_index (h : Cursor rs 0 it pos) (hrs : ∀ r ∈ rs, 0 < r.length) :
    lead rs it pos = [] ∧ pos = 0 := by
  have hsum := h.sum
  have hpos : pos = 0 := by omega
  subst hpos
  refine ⟨?_, rfl⟩
  cases rs with
  | nil => simp
  | cons r rs =>
    cases it with
    | zero => rfl
    | succ it =>
      have := hrs r mem_cons_self
      simp at hsum
      omega

theorem Cursor.getElem?_eq_none (h : Cursor rs index it pos) : rs[it]? = none ↔ index = total rs := by
  have hsum := h.sum
  have hinside := h.inside
  have hsplit : total rs = total (rs.take it) + total (rs.drop it) := by
    rw [← total_append, List.take_append_drop]
  constructor
  · intro hr
    rw [List.drop_of_length_le (List.getElem?_eq_none_iff.mp hr)] at hsplit
    simp [hr] at hinside hsplit
    omega
  · intro hindex
    cases hr : rs[it]? with
    | none => rfl
    | some r =>
      obtain ⟨hlt, rfl⟩ := List.getElem?_eq_some_iff.mp hr
      rw [List.drop_eq_getElem_cons hlt, total_cons] at hsplit
      simp only [hr, Option.elim_some] at hinside
      omega

theorem Cursor.total_lead (h : Cursor rs index it pos) (hindex : index ≤ total rs) :
    total (lead rs it pos) = index := by
  rw [← h.take_eq, total_take, Nat.min_eq_left hindex]

theorem Cursor.total_trail (h : Cursor rs index it pos) : total (trail rs it pos) = total rs - index := by
  rw [← h.drop_eq, total_drop]

theorem Cursor.trail_eq (h : Cursor rs index it pos) {r : Run T} (hr : rs[it]? = some r) :
    trail rs it pos = { r with length := r.length - pos } :: rs.drop (it + 1) ∧ pos < r.length := by
  have := h.inside
  simp only [hr] at this
  exact ⟨by simp [trail, hr], this⟩

end

/-! ## The container -/

section

variable {T : Type} {w : Nat} {rs xs ys : List (Run T)} {r : Run T} {f : Nat → Nat}

theorem modifyLength_append {i : Nat} (hi : i = xs.length) :
    modifyLength i f (xs ++ r :: ys) = some (xs ++ { r with length := f r.length } :: ys) := by
  subst hi
  simp [modifyLength]

theorem take_succ_set {i : Nat} (hi : i < rs.length) : (rs.set i r).take (i + 1) = rs.take i ++ [r] := by
  rw [take_add_one, take_set_of_le (Nat.le_refl i), getElem?_set_self hi]
  rfl

theorem drop_set_self {i : Nat} (hi : i < rs.length) : (rs.set i r).drop i = r :: rs.drop (i + 1) := by
  rw [drop_eq_getElem_cons (by simpa using hi), getElem_set_self, drop_set_of_lt (Nat.lt_succ_self i)]

theorem adjustLengths_spec {first pos last lastPos : Nat} (hle : first ≤ last) (hlast : last ≤ rs.length)
    (hapart : first < last ∨ pos = 0) (hfits : ∀ r ∈ rs, r.length < 2 ^ w)
    (hlastPos : lastPos ≠ 0 → ∃ r, rs[last]? = some r ∧ lastPos ≤ r.length) :
    ∃ f xs, adjustLengths w first pos last lastPos rs = some (f, xs) ∧ f ≤ last ∧ last ≤ xs.length ∧
      xs.take f = lead rs first pos ∧ xs.drop last = trail rs last lastPos := by
  -- First the run at the front, at an index that the other one is not.
  obtain ⟨f, ys, hfront, hf, htake, hlen, hsame⟩ : ∃ f ys, modifyLengthIf pos first (fun _ => pos) rs = some ys ∧
        f = (if pos ≠ 0 then first + 1 else first) ∧ ys.take f = lead rs first pos ∧ ys.length = rs.length ∧
        ys.drop last = rs.drop last := by
    by_cases hpos : pos = 0
    · exact ⟨first, rs, by simp [modifyLengthIf, hpos], by simp [hpos], by simp [hpos], rfl, rfl⟩
    · have hlt : first < rs.length := by omega
      refine ⟨first + 1, rs.set first { rs[first] with length := pos }, ?_, by simp [hpos], ?_, by simp, ?_⟩
      · simp [modifyLengthIf, hpos, modifyLength, List.getElem?_eq_getElem hlt]
      · rw [take_succ_set hlt]
        simp [lead, hpos, List.getElem?_eq_getElem hlt]
      · exact List.drop_set_of_lt (by omega)
  have hf' : f ≤ last := by
    rw [hf]
    split_ifs <;> omega
  have hget : ys[last]? = rs[last]? := by
    have := congrArg List.head? hsame
    simpa [List.head?_drop] using this
  unfold adjustLengths
  rw [hfront]
  simp only [← hf]
  by_cases hlp : lastPos = 0
  · exact ⟨f, ys, by simp [modifyLengthIf, hlp], hf', by omega, htake, by simp [hlp, hsame]⟩
  · obtain ⟨r, hr, hle'⟩ := hlastPos hlp
    obtain ⟨hlt, hmem⟩ := List.getElem?_eq_some_iff.mp hr
    have hlt' : last < ys.length := by omega
    have hlength : subSize w r.length lastPos = r.length - lastPos := by
      apply subSize_of_le hle'
      exact hfits r (hmem ▸ List.getElem_mem hlt)
    refine ⟨f, ys.set last { r with length := r.length - lastPos }, ?_, hf', by simp; omega, ?_, ?_⟩
    · simp [modifyLengthIf, hlp, modifyLength, hget, hr, hlength]
    · rw [List.take_set_of_le hf', htake]
    · have htail : ys.drop (last + 1) = rs.drop (last + 1) := by
        have := congrArg (List.drop 1) hsame
        simpa [List.drop_drop] using this
      rw [drop_set_self hlt', htail]
      simp [trail, hr]

theorem adjustLengths_split {first pos : Nat} (hpos : pos ≠ 0) (hr : rs[first]? = some r) :
    ∃ xs, adjustLengths w first pos first 0 rs = some (first + 1, xs) ∧ first + 1 ≤ xs.length ∧
      xs.take (first + 1) = lead rs first pos ∧ xs.drop (first + 1) = rs.drop (first + 1) := by
  obtain ⟨hlt, rfl⟩ := List.getElem?_eq_some_iff.mp hr
  refine ⟨rs.set first { rs[first] with length := pos }, ?_, by simp; omega, ?_, ?_⟩
  · simp [adjustLengths, modifyLengthIf, modifyLength, hpos, hr]
  · rw [take_succ_set hlt]
    simp [lead, hpos, hr]
  · exact List.drop_set_of_lt (Nat.lt_succ_self first)

theorem eraseRange_eq {first last : Nat} (hle : first ≤ last) (hlast : last ≤ rs.length) :
    eraseRange first last rs = some (rs.take first ++ rs.drop last) :=
  if_pos ⟨hle, hlast⟩

theorem copyTo_eq {i : Nat} (h : i + xs.length ≤ rs.length) :
    copyTo i xs rs = some (rs.take i ++ (xs ++ rs.drop (i + xs.length))) :=
  if_pos h

variable [Inhabited T]

theorem placeRuns_none {first last : Nat} (hle : first ≤ last) (hlast : last ≤ rs.length) (ms : List (Run T)) :
    placeRuns first last ms none rs = some (rs.take first ++ (ms ++ rs.drop last)) := by
  have havail : (if first < last then last - first else 0) = last - first := by
    split_ifs <;> omega
  have hlen : (ms.take (min (last - first) ms.length)).length = min (last - first) ms.length := by
    simp
  have hfirst : (rs.take first).length = first := by
    simp
    omega
  unfold placeRuns
  simp only [havail, isSome_none, Bool.false_eq_true, if_false, Nat.add_zero]
  rw [copyTo_eq (by omega), hlen]
  simp only [bind_eq_bind, bind_some]
  split_ifs with hspace
  · have hdone : (rs.take first ++ ms).length = first + ms.length := by simp [hfirst]
    rw [Nat.min_eq_right hspace, take_length, ← append_assoc,
      eraseRange_eq (by omega) (by simp; omega), take_left' hdone, drop_append, hdone,
      drop_of_length_le (by omega), drop_drop, append_assoc, nil_append]
    rw [show first + ms.length + (last - (first + ms.length)) = last by omega]
  · rw [Nat.min_eq_left (by omega), show first + (last - first) = last by omega]
    have hdone : (rs.take first ++ ms.take (last - first)).length = last := by
      simp [hfirst]
      omega
    have hassoc : rs.take first ++ (ms.take (last - first) ++ rs.drop last) =
        rs.take first ++ ms.take (last - first) ++ rs.drop last := (append_assoc _ _ _).symm
    unfold insertAt
    rw [hassoc, take_left' hdone, drop_left' hdone, append_assoc, ← append_assoc (ms.take _), take_append_drop]

theorem placeRuns_some {first last : Nat} (hgt : last < first) (hfirst : first ≤ rs.length) (ms : List (Run T))
    (t : Run T) : placeRuns first last ms (some t) rs = some (rs.take first ++ (ms ++ t :: rs.drop first)) := by
  have hlen : (rs.take first).length = first := by
    simp
    omega
  unfold placeRuns
  simp only [if_neg (show ¬ first < last by omega), isSome_some, if_true, Nat.zero_min, take_zero,
    drop_zero, Nat.add_zero]
  rw [copyTo_eq (by simpa using hfirst)]
  simp only [nil_append, length_nil, Nat.add_zero, take_append_drop, bind_eq_bind,
    bind_some, ge_iff_le, Nat.le_zero_eq, Nat.add_eq_zero_iff, Nat.one_ne_zero, and_false, if_false,
    Nat.sub_zero, insertAt]
  -- Of the new places one is left for the trailer.
  have hroom (x : Run T) : (rs.take first ++ (replicate (ms.length + 1) x ++ rs.drop first)).drop
      (first + ms.length) = x :: rs.drop first := by
    rw [replicate_succ', append_assoc, ← append_assoc, drop_left' (by simp [hlen])]
    rfl
  have hdone : (rs.take first ++ ms).length = first + ms.length := by simp [hlen]
  rw [copyTo_eq (by simp; omega), take_left' hlen, hroom]
  simp only [bind_some]
  rw [copyTo_eq (by simp; omega)]
  simp only [← append_assoc, take_left' hdone]
  rw [drop_append, drop_of_length_le (by omega), hdone]
  simp

end

/-! ## The two ends of the range -/

section

variable {T : Type} {w start stop first firstPos last lastPos : Nat} {rs : List (Run T)}

theorem joinFront_spec [DecidableEq T] (hcursor : Cursor rs start first firstPos)
    (hrs : ∀ r ∈ rs, 0 < r.length) (front : Run T) :
    ∃ f pos more, joinFront start first firstPos front rs = some (f, pos, more) ∧ f ≤ first ∧
      (pos ≠ 0 → f = first ∧ pos = firstPos) ∧
      ((more = 0 ∧ lead rs first firstPos = lead rs f pos ∧ Apart (lead rs first firstPos) [front]) ∨
        (more ≠ 0 ∧ lead rs first firstPos = lead rs f pos ++ [{ front with length := more }])) := by
  unfold joinFront
  by_cases hstart : start = 0
  · subst hstart
    obtain ⟨hlead, -⟩ := hcursor.lead_zero_index hrs
    exact ⟨first, firstPos, 0, by simp, Nat.le_refl _, fun _ => ⟨rfl, rfl⟩, Or.inl ⟨rfl, rfl, by simp [hlead, Apart]⟩⟩
  · obtain ⟨p, hp, hle, hpos, hlead⟩ := hcursor.previous hrs hstart
    simp only [ne_eq]
    rw [hp]
    simp only [bind_eq_bind, bind_some]
    split_ifs with hvalue
    · refine ⟨_, 0, _, rfl, hle, by simp, Or.inr ⟨by omega, ?_⟩⟩
      rw [hlead, lead_zero, ← hvalue]
    · refine ⟨first, firstPos, 0, rfl, Nat.le_refl _, fun _ => ⟨rfl, rfl⟩, Or.inl ⟨rfl, rfl, ?_⟩⟩
      rw [hlead]
      simpa [Apart] using hvalue

theorem joinBack_spec [DecidableEq T] (hcursor : Cursor rs stop last lastPos)
    (hfits : ∀ r ∈ rs, r.length < 2 ^ w) (back : Run T) :
    ∃ l pos more, joinBack w stop (total rs) last lastPos back rs = some (l, pos, more) ∧
      l ≤ rs.length ∧ (pos ≠ 0 → ∃ r, rs[l]? = some r ∧ pos ≤ r.length) ∧
      ((more = 0 ∧ l = last ∧ pos = lastPos ∧ Apart [back] (trail rs last lastPos)) ∨
        (more ≠ 0 ∧ l = last + 1 ∧ trail rs last lastPos = { back with length := more } :: trail rs l pos)) := by
  unfold joinBack
  by_cases hstop : stop = total rs
  · have hnone := hcursor.getElem?_eq_none.mpr hstop
    have hzero : lastPos = 0 := by
      have := hcursor.inside
      simp [hnone] at this
      exact this
    refine ⟨last, lastPos, 0, by simp [hstop], hcursor.le, by simp [hzero], Or.inl ⟨rfl, rfl, rfl, ?_⟩⟩
    simp [trail, hnone, Apart]
  · obtain ⟨r, hr⟩ := Option.ne_none_iff_exists'.mp (mt hcursor.getElem?_eq_none.mp hstop)
    obtain ⟨htrail, hinside⟩ := hcursor.trail_eq hr
    obtain ⟨hlt, hmem⟩ := List.getElem?_eq_some_iff.mp hr
    have hlength : subSize w r.length lastPos = r.length - lastPos := by
      apply subSize_of_le (Nat.le_of_lt hinside)
      exact hfits r (hmem ▸ List.getElem_mem hlt)
    simp only [ne_eq, hr, Option.bind_eq_bind, Option.bind_some, hlength]
    split_ifs with hvalue
    · refine ⟨last + 1, 0, _, rfl, hlt, by simp, Or.inr ⟨by omega, rfl, ?_⟩⟩
      rw [htrail, trail_zero, ← hvalue]
    · refine ⟨last, lastPos, 0, rfl, hcursor.le, fun _ => ⟨r, hr, Nat.le_of_lt hinside⟩, Or.inl ⟨rfl, rfl, rfl, ?_⟩⟩
      rw [htrail]
      simpa [Apart, eq_comm] using hvalue

theorem place_spec [Inhabited T] {pos : Nat} (hle : first ≤ last) (hlast : last ≤ rs.length)
    (hfits : ∀ r ∈ rs, r.length < 2 ^ w) (hpos : pos ≠ 0 → first = last → lastPos ≠ 0)
    (hlastPos : lastPos ≠ 0 → ∃ r, rs[last]? = some r ∧ lastPos ≤ r.length) (ms : List (Run T)) :
    ∃ trailer f runs, midInsertionTrailer w first pos last lastPos rs = some trailer ∧
      adjustLengths w first pos last (if trailer.isSome then 0 else lastPos) rs = some (f, runs) ∧
      placeRuns f last ms trailer runs = some (lead rs first pos ++ (ms ++ trail rs last lastPos)) ∧
      f = (lead rs first pos).length ∧ (trailer.isSome → first = last ∧ lastPos ≠ 0) := by
  by_cases hsplit : first = last ∧ pos ≠ 0
  · obtain ⟨rfl, hne⟩ := hsplit
    have hlp := hpos hne rfl
    obtain ⟨r, hr, hle'⟩ := hlastPos hlp
    obtain ⟨hlt, hmem⟩ := List.getElem?_eq_some_iff.mp hr
    have hlength : subSize w r.length lastPos = r.length - lastPos := by
      apply subSize_of_le hle'
      exact hfits r (hmem ▸ List.getElem_mem hlt)
    obtain ⟨runs, hadjust, hlen, htake, hdrop⟩ := adjustLengths_split (w := w) hne hr
    refine ⟨some { r with length := r.length - lastPos }, first + 1, runs, ?_, hadjust, ?_, ?_, fun _ => ⟨rfl, hlp⟩⟩
    · simp [midInsertionTrailer, hne, hr, hlength]
    · rw [placeRuns_some (Nat.lt_succ_self first) hlen, htake, hdrop]
      simp [trail, hr]
    · rw [← htake, List.length_take_of_le hlen]
  · have hapart : first < last ∨ pos = 0 := by
      by_cases h : pos = 0
      · exact Or.inr h
      · exact Or.inl (Nat.lt_of_le_of_ne hle (fun heq => hsplit ⟨heq, h⟩))
    obtain ⟨f, runs, hadjust, hf, hlen, htake, hdrop⟩ := adjustLengths_spec hle hlast hapart hfits hlastPos
    refine ⟨none, f, runs, if_neg hsplit, hadjust, ?_, ?_, by simp⟩
    · rw [placeRuns_none hf hlen, htake, hdrop]
    · rw [← htake, List.length_take_of_le (by omega)]

/-! ## Joining in place -/

variable [DecidableEq T] {ls ls' rs' ms : List (Run T)} {front back : Run T} {more : Nat}

theorem extendFront_spec (rs : List (Run T))
    (hls : (more = 0 ∧ ls = ls' ∧ Apart ls [front]) ∨ (more ≠ 0 ∧ ls = ls' ++ [{ front with length := more }]))
    (hfits : total ls + total (front :: ms) < 2 ^ w) :
    ∃ m, modifyLengthIf more ls'.length (fun length => addSize w length more) (ls' ++ (front :: ms ++ rs)) =
        some (ls' ++ (m :: ms ++ rs)) ∧
      m.value = front.value ∧ join ls (front :: ms) = ls' ++ m :: ms := by
  rcases hls with ⟨rfl, rfl, hapart⟩ | ⟨hmore, rfl⟩
  · refine ⟨front, by simp [modifyLengthIf], rfl, join_of_apart ?_⟩
    exact hapart.congr_head rfl
  · refine ⟨{ front with length := more + front.length }, ?_, rfl, ?_⟩
    · simp only [total_append, total_cons] at hfits
      simp only [modifyLengthIf, ne_eq, hmore, not_false_eq_true, if_true, cons_append]
      rw [modifyLength_append rfl, addSize_of_lt (by omega), Nat.add_comm]
    · exact join_of_eq (x := { front with length := more }) (y := front) rfl ls' ms

theorem extendBack_spec {required : Nat}
    (hrs : (more = 0 ∧ rs = rs' ∧ Apart [back] rs) ∨ (more ≠ 0 ∧ rs = { back with length := more } :: rs'))
    (hvalue : front.value = back.value) (hrequired : more ≠ 0 → ls.length + required - 1 = ls'.length)
    (hfits : front.length + total rs < 2 ^ w) :
    modifyLengthIf more (ls.length + required - 1) (fun length => addSize w length more) (ls' ++ front :: rs') =
      some (join (ls' ++ [front]) rs) := by
  rcases hrs with ⟨rfl, rfl, hapart⟩ | ⟨hmore, rfl⟩
  · have hborder : Apart (ls' ++ [front]) rs := hapart.congr_last (by simp [hvalue])
    rw [join_of_apart hborder]
    simp [modifyLengthIf]
  · simp only [total_cons] at hfits
    rw [join_of_eq (x := front) (y := { back with length := more }) hvalue]
    simp only [modifyLengthIf, ne_eq, hmore, not_false_eq_true, if_true]
    rw [modifyLength_append (hrequired hmore), addSize_of_lt (by omega), hvalue]

theorem extendEnds_spec {more' required : Nat}
    (hls : (more = 0 ∧ ls = ls' ∧ Apart ls [front]) ∨ (more ≠ 0 ∧ ls = ls' ++ [{ front with length := more }]))
    (hrs : (more' = 0 ∧ rs = rs' ∧ Apart [back] rs) ∨ (more' ≠ 0 ∧ rs = { back with length := more' } :: rs'))
    (hback : (front :: ms).getLast? = some back) (hrequired : more' ≠ 0 → required = (front :: ms).length)
    (hfits : total ls + total (front :: ms) + total rs < 2 ^ w) :
    extendEnds w ls'.length required more more' (ls' ++ (front :: ms ++ rs')) =
      some (join (join ls (front :: ms)) rs) := by
  have hfits' : total ls + total (front :: ms) < 2 ^ w := by omega
  obtain ⟨m, hmodify, hvalue, hjoin⟩ := extendFront_spec rs' hls hfits'
  have htotal := total_join ls (front :: ms)
  rw [hjoin] at htotal
  -- The last replacement, which may be the first one too.
  obtain ⟨ns, b, hns, hb⟩ : ∃ ns b, m :: ms = ns ++ [b] ∧ b.value = back.value := by
    rcases eq_nil_or_concat' ms with rfl | ⟨ns, b, rfl⟩
    · simp at hback
      exact ⟨[], m, rfl, by rw [hvalue, hback]⟩
    · rw [← cons_append, getLast?_concat] at hback
      exact ⟨m :: ns, b, rfl, congrArg Run.value (some.inj hback)⟩
  have hlen : ms.length = ns.length := by simpa using congrArg length hns
  rw [hns, ← append_assoc] at hjoin htotal
  rw [hns] at hmodify
  unfold extendEnds
  rw [hmodify, hjoin]
  rw [append_assoc, ← append_assoc]
  apply extendBack_spec hrs hb
  · intro hmore
    simp [hrequired hmore, hlen]
  · simp only [total_append, total_cons] at htotal hfits
    omega

omit [DecidableEq T] in
theorem foldl_addSize (ms : List (Run T)) {n : Nat} (h : n + total ms < 2 ^ w) :
    ms.foldl (fun total r => addSize w total r.length) n = n + total ms := by
  induction ms generalizing n with
  | nil => rfl
  | cons r ms ih =>
    simp only [total_cons] at h
    rw [foldl_cons, addSize_of_lt (by omega), ih (by omega), total_cons]
    omega

end

/-! ## Refinement -/

section

variable {T : Type} {w start stop : Nat} {rle : Rle T}

structure Rle.WellFormed (w : Nat) (rle : Rle T) : Prop where
  canonical : Canonical rle.runs
  total : rle.totalLength = RunList.total rle.runs
  fits : rle.totalLength < 2 ^ w

structure Range (w : Nat) (rle : Rle T) (start stop first firstPos last lastPos : Nat) : Prop where
  wellFormed : rle.WellFormed w
  le : start ≤ stop
  stop_le : stop ≤ rle.totalLength
  atStart : Cursor rle.runs start first firstPos
  atStop : Cursor rle.runs stop last lastPos
  first_le : first ≤ last
  firstPos_le : first = last → firstPos ≤ lastPos

namespace Range

variable {first firstPos last lastPos : Nat}

theorem runs_fit (h : Range w rle start stop first firstPos last lastPos) : ∀ r ∈ rle.runs, r.length < 2 ^ w := by
  intro r hr
  have := length_le_total hr
  have := h.wellFormed.total
  have := h.wellFormed.fits
  omega

theorem lastPos_le (h : Range w rle start stop first firstPos last lastPos) (hne : lastPos ≠ 0) :
    ∃ r, rle.runs[last]? = some r ∧ lastPos ≤ r.length := by
  obtain ⟨r, hr⟩ := h.atStop.getElem?_isSome hne
  exact ⟨r, hr, Nat.le_of_lt (h.atStop.trail_eq hr).2⟩

theorem removed (h : Range w rle start stop first firstPos last lastPos) :
    subSize w rle.totalLength (subSize w stop start) = rle.totalLength - (stop - start) := by
  have hle := h.le
  have hstop := h.stop_le
  have hfits := h.wellFormed.fits
  rw [subSize_of_le hle (by omega), subSize_of_le (by omega) hfits]

theorem total_lead (h : Range w rle start stop first firstPos last lastPos) :
    total (lead rle.runs first firstPos) = start := by
  have := h.le
  have := h.stop_le
  have := h.wellFormed.total
  exact h.atStart.total_lead (by omega)

theorem total_trail (h : Range w rle start stop first firstPos last lastPos) :
    total (trail rle.runs last lastPos) = rle.totalLength - stop := by
  rw [h.atStop.total_trail, h.wellFormed.total]

theorem total_outside (h : Range w rle start stop first firstPos last lastPos) (n : Nat) :
    total (lead rle.runs first firstPos) + n + total (trail rle.runs last lastPos) =
      rle.totalLength - (stop - start) + n := by
  rw [h.total_lead, h.total_trail]
  have hle := h.le
  have hstop := h.stop_le
  omega

variable [DecidableEq T]

theorem removeRange_apart (h : Range w rle start stop first firstPos last lastPos)
    (hinside : first < last ∨ firstPos = 0)
    (hapart : Apart (lead rle.runs first firstPos) (trail rle.runs last lastPos))
    (hjoin : joinRemoved w start stop first firstPos last lastPos rle = some (first, firstPos, lastPos, rle.runs)) :
    removeRange w start stop first firstPos last lastPos rle =
      some { runs := join (lead rle.runs first firstPos) (trail rle.runs last lastPos)
             totalLength := rle.totalLength - (stop - start) } := by
  obtain ⟨f, runs, hadjust, hf, hlen, htake, hdrop⟩ :=
    adjustLengths_spec h.first_le h.atStop.le hinside h.runs_fit h.lastPos_le
  simp only [removeRange, hjoin, bind_eq_bind, bind_some, hadjust, eraseRange_eq hf hlen, htake, hdrop,
    h.removed, join_of_apart hapart]
  rfl

theorem removeRange_joined (h : Range w rle start stop first firstPos last lastPos) (hstart : start ≠ 0)
    (hstop : stop ≠ rle.totalLength) {p e : Run T} (hp : rle.runs[previousOf first firstPos]? = some p)
    (hprev : previousOf first firstPos ≤ first)
    (hlead : lead rle.runs first firstPos =
      rle.runs.take (previousOf first firstPos) ++ [{ p with length := lengthBefore firstPos p }])
    (he : rle.runs[last]? = some e) (hvalue : p.value = e.value) :
    removeRange w start stop first firstPos last lastPos rle =
      some { runs := join (lead rle.runs first firstPos) (trail rle.runs last lastPos)
             totalLength := rle.totalLength - (stop - start) } := by
  obtain ⟨htrail, hinside⟩ := h.atStop.trail_eq he
  obtain ⟨hlt, hmem⟩ := List.getElem?_eq_some_iff.mp he
  have hfirst := h.first_le
  have hlength : subSize w e.length (subSize w lastPos (lengthBefore firstPos p)) =
      e.length - lastPos + lengthBefore firstPos p := by
    -- The joined run is not longer than what is left of all of them.
    have hbefore := h.total_lead
    have hbehind := h.total_trail
    rw [hlead, total_append, total_cons] at hbefore
    rw [htrail, total_cons] at hbehind
    have hfits := h.wellFormed.fits
    have hle := h.le
    have hstop_le := h.stop_le
    dsimp only at hbefore hbehind
    apply subSize_subSize (Nat.le_of_lt hinside) (h.runs_fit e (hmem ▸ List.getElem_mem hlt)) <;> omega
  have hjoin : joinRemoved w start stop first firstPos last lastPos rle = some (previousOf first firstPos, 0, 0,
      rle.runs.set last { e with length := e.length - lastPos + lengthBefore firstPos p }) := by
    simp [joinRemoved, hstart, hstop, hp, he, hvalue, modifyLength, hlength]
  simp only [removeRange, hjoin, adjustLengths, modifyLengthIf, ne_eq, not_true_eq_false, if_false,
    Option.bind_eq_bind, Option.bind_some, Option.pure_def]
  rw [eraseRange_eq (by omega) (by simp; omega), h.removed, List.take_set_of_le (by omega), drop_set_self hlt,
    hlead, htrail, join_of_eq (by exact hvalue)]
  simp [Nat.add_comm]

theorem removeRange_spec (h : Range w rle start stop first firstPos last lastPos) :
    removeRange w start stop first firstPos last lastPos rle =
      some { runs := join (lead rle.runs first firstPos) (trail rle.runs last lastPos)
             totalLength := rle.totalLength - (stop - start) } := by
  have hfirst := h.first_le
  by_cases hends : start ≠ 0 ∧ stop ≠ rle.totalLength
  · obtain ⟨hstart, hstop⟩ := hends
    have hsize := h.wellFormed.total
    obtain ⟨p, hp, hprev, -, hlead⟩ := h.atStart.previous h.wellFormed.canonical.pos hstart
    obtain ⟨e, he⟩ := ne_none_iff_exists'.mp (mt h.atStop.getElem?_eq_none.mp (by omega))
    by_cases hvalue : p.value = e.value
    · exact h.removeRange_joined hstart hstop hp hprev hlead he hvalue
    · apply h.removeRange_apart
      · by_contra hcon
        push Not at hcon
        have hsame : previousOf first firstPos = last := by
          rw [previousOf, if_pos hcon.2]
          omega
        rw [hsame, he] at hp
        exact hvalue (congrArg Run.value (some.inj hp)).symm
      · rw [hlead, (h.atStop.trail_eq he).1]
        simpa [Apart] using hvalue
      · simp [joinRemoved, hp, he, hvalue]
  · have hnone : lead rle.runs first firstPos = [] ∧ firstPos = 0 ∨ rle.runs[last]? = none := by
      by_cases hstart : start = 0
      · subst hstart
        exact Or.inl (h.atStart.lead_zero_index h.wellFormed.canonical.pos)
      · refine Or.inr (h.atStop.getElem?_eq_none.mpr ?_)
        rw [← h.wellFormed.total]
        by_contra hcon
        exact hends ⟨hstart, hcon⟩
    apply h.removeRange_apart
    · by_contra hcon
      push Not at hcon
      obtain ⟨r, hr⟩ := h.atStart.getElem?_isSome hcon.2
      rcases hnone with ⟨-, hzero⟩ | htrail
      · exact hcon.2 hzero
      · rw [show last = first by omega, hr] at htrail
        simp at htrail
    · rcases hnone with ⟨hlead, -⟩ | htrail
      · simp [hlead, Apart]
      · simp [trail, htrail, Apart]
    · rw [joinRemoved, if_neg hends]

/-- Steps 1 to 7 for the replacements `front :: ms` that end in `back`. -/
theorem replaceRuns_spec [Inhabited T] (h : Range w rle start stop first firstPos last lastPos)
    {front back : Run T} {ms : List (Run T)} (hback : (front :: ms).getLast? = some back)
    (hfits : rle.totalLength - (stop - start) + total (front :: ms) < 2 ^ w) :
    ∃ f pos more l lpos more' trailer f' runs, joinFront start first firstPos front rle.runs = some (f, pos, more) ∧
        joinBack w stop rle.totalLength last lastPos back rle.runs = some (l, lpos, more') ∧
        midInsertionTrailer w f pos l lpos rle.runs = some trailer ∧
        adjustLengths w f pos l (if trailer.isSome then 0 else lpos) rle.runs = some (f', runs) ∧
        (do
          let runs ← placeRuns f' l (front :: ms) trailer runs
          extendEnds w f' ((front :: ms).length + if trailer.isSome then 1 else 0) more more' runs) =
          some (join (join (lead rle.runs first firstPos) (front :: ms)) (trail rle.runs last lastPos)) := by
  obtain ⟨f, pos, more, hfront, hf, hpos, hleft⟩ := joinFront_spec h.atStart h.wellFormed.canonical.pos front
  obtain ⟨l, lpos, more', hjoinBack, hl, hlpos, hright⟩ := joinBack_spec h.atStop h.runs_fit back
  rw [← h.wellFormed.total] at hjoinBack
  have hfirst := h.first_le
  have hsplit (hne : pos ≠ 0) (heq : f = l) : lpos ≠ 0 := by
    obtain ⟨rfl, rfl⟩ := hpos hne
    rcases hright with ⟨-, rfl, rfl, -⟩ | ⟨-, hl, -⟩
    · have := h.firstPos_le heq
      omega
    · omega
  obtain ⟨trailer, f', runs, htrailer, hadjust, hplace, hf', hmid⟩ :=
    place_spec (by omega) hl h.runs_fit hsplit hlpos (front :: ms)
  refine ⟨f, pos, more, l, lpos, more', trailer, f', runs, hfront, hjoinBack, htrailer, hadjust, ?_⟩
  have hright' : (more' = 0 ∧ trail rle.runs last lastPos = trail rle.runs l lpos ∧
      Apart [back] (trail rle.runs last lastPos)) ∨
      (more' ≠ 0 ∧ trail rle.runs last lastPos = { back with length := more' } :: trail rle.runs l lpos) := by
    rcases hright with ⟨hzero, rfl, rfl, hapart⟩ | ⟨hmore, -, htrail⟩
    · exact Or.inl ⟨hzero, rfl, hapart⟩
    · exact Or.inr ⟨hmore, htrail⟩
  rw [hplace, hf']
  apply extendEnds_spec hleft hright' hback
  · cases trailer with
    | none => simp
    | some t =>
      have := (hmid rfl).1
      rcases hright with ⟨hzero, -⟩ | ⟨-, hl, -⟩ <;> omega
  · rw [h.total_outside]
    exact hfits

end Range

variable [DecidableEq T] [Inhabited T]

theorem replaceUnchecked_splice (h : rle.WellFormed w) (hle : start ≤ stop) (hstop : stop ≤ rle.totalLength)
    (ms : List (Run T)) (hfits : rle.totalLength - (stop - start) + total ms < 2 ^ w) :
    replaceUnchecked w start stop ms rle =
      some { runs := splice start stop ms rle.runs
             totalLength := rle.totalLength - (stop - start) + total ms } := by
  obtain ⟨first, firstPos, last, lastPos, before, after, hscan, hscan', hfirst, hlast, hit, hpos⟩ :=
    scan_twice (w := w) hle (h.total ▸ hstop) (h.total ▸ h.fits)
  have hrange : Range w rle start stop first firstPos last lastPos := ⟨h, hle, hstop, hfirst, hlast, hit, hpos⟩
  unfold replaceUnchecked splice
  rw [hscan, hfirst.take_eq, hlast.drop_eq]
  dsimp only
  rw [hscan']
  cases ms with
  | nil =>
    have hnil : join (lead rle.runs first firstPos) [] = lead rle.runs first firstPos := by
      rw [join_of_apart (by simp [Apart]), append_nil]
    simpa [hnil] using hrange.removeRange_spec
  | cons front ms =>
    obtain ⟨back, hback⟩ : ∃ back, (front :: ms).getLast? = some back := ⟨_, getLast?_cons⟩
    obtain ⟨f, pos, more, l, lpos, more', trailer, f', runs, hfront, hjoinBack, htrailer, hadjust, hrun⟩ :=
      hrange.replaceRuns_spec hback hfits
    obtain ⟨runs', hplace, hextend⟩ := bind_eq_some_iff.mp hrun
    simp only [head?_cons, hback, hfront, hjoinBack, htrailer, bind_eq_bind, bind_some, hadjust,
      hplace, hextend, hrange.removed]
    rw [foldl_addSize _ hfits]
    rfl

/-- `replace` replaces in the decoded sequence, and keeps the runs canonical. -/
theorem replace_refines (h : rle.WellFormed w) (hle : start ≤ stop) (hstop : stop ≤ rle.totalLength)
    {replacements : List (Run T)} (hms : Canonical replacements)
    (hfits : rle.totalLength - (stop - start) + total replacements < 2 ^ w) :
    ∃ r, replace w start stop replacements rle = some r ∧
      decode r.runs = (decode rle.runs).take start ++ (decode replacements ++ (decode rle.runs).drop stop) ∧
      r.totalLength = (decode r.runs).length ∧ r.WellFormed w := by
  have hcheck : checkIndices start stop rle = some stop := by
    simp only [checkIndices, if_neg (show ¬ stop > rle.totalLength by omega), if_neg (show ¬ start > stop by omega)]
  have htotal := total_splice replacements rle.runs hle (h.total ▸ hstop)
  rw [← h.total] at htotal
  refine ⟨{ runs := splice start stop replacements rle.runs
            totalLength := rle.totalLength - (stop - start) + total replacements },
    ?_, decode_splice start stop replacements rle.runs, ?_, ?_⟩
  · unfold replace
    rw [hcheck]
    exact replaceUnchecked_splice h hle hstop replacements hfits
  · rw [length_decode, htotal]
  · exact ⟨canonical_splice start stop hms h.canonical, htotal.symm, hfits⟩

theorem replace_refines_split :
    let rle : Rle Nat := { runs := [⟨1, 3⟩, ⟨2, 3⟩, ⟨3, 3⟩], totalLength := 9 }
    let replacements : List (Run Nat) := [⟨1, 2⟩]
    ∃ r, replace 16 4 5 replacements rle = some r ∧ decode r.runs = [1, 1, 1, 2, 1, 1, 2, 3, 3, 3] ∧
      r.totalLength = 10 ∧ r.WellFormed 16 := by
  intro rle replacements
  have hrle : rle.WellFormed 16 := ⟨⟨by decide, by decide⟩, by decide, by decide⟩
  have hms : Canonical replacements := ⟨by decide, by decide⟩
  obtain ⟨r, hr, hdecode, htotal, hwf⟩ := replace_refines hrle (show 4 ≤ 5 by decide) (by decide) hms (by decide)
  refine ⟨r, hr, hdecode.trans (by decide), ?_, hwf⟩
  rw [htotal, hdecode]
  decide

end

end Terminal.Til
