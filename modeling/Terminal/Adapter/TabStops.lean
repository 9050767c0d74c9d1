import Mathlib.Data.List.GetD
import Mathlib.Logic.Function.Basic
import Mathlib.Tactic.Common

/-!
# Tab stops (`adaptDispatch.cpp`)

The table grows with the width of the buffer, and new columns get the default stops. To the tabs
it is a set of columns without an end.
-/

namespace Terminal.Adapter

open List

/-- The width of the buffer and of the cursor's line, and the cursor, which may be past both. -/
structure TabScreen where
  bufferWidth : Nat
  lineWidth : Nat
  column : Nat

structure TabStops where
  tabStopColumns : List Bool := []
  initDefaultTabStops : Bool := true

namespace TabStops

def initTabStop (initialWidth : Nat) (columns : List Bool) (column : Nat) : List Bool :=
  if column ≥ initialWidth then columns.set column true else columns

/-- The loop goes from 8 in steps of 8, below the new size. -/
def initTabStopsForWidth (width : Nat) (t : TabStops) : TabStops :=
  let initialWidth := t.tabStopColumns.length
  if width > initialWidth then
    let columns := t.tabStopColumns ++ List.replicate (width - initialWidth) false
    if t.initDefaultTabStops then
      let defaults := List.range' 8 ((columns.length - 1) / 8) 8
      ⟨defaults.foldl (initTabStop initialWidth) columns, t.initDefaultTabStops⟩
    else ⟨columns, t.initDefaultTabStops⟩
  else t

/-- `at` throws for a column that the table does not have. -/
def setColumn (s : TabScreen) (stop : Bool) (t : TabStops) : Option TabStops :=
  let t := t.initTabStopsForWidth s.bufferWidth
  if s.column < t.tabStopColumns.length then
    some { t with tabStopColumns := t.tabStopColumns.set s.column stop }
  else none

def horizontalTabSet (s : TabScreen) (t : TabStops) : Option TabStops := t.setColumn s true

def clearSingleTabStop (s : TabScreen) (t : TabStops) : Option TabStops := t.setColumn s false

def clearAllTabStops : TabStops := { initDefaultTabStops := false }

def resetTabStops : TabStops := {}

/-- The loop of `ForwardTab`, with `left` columns to go. A read past the table has no result. -/
def forward (columns : List Bool) (numTabs : Nat) : Nat → Nat → Nat → Option Nat
  | left + 1, column, tabsPerformed =>
    if tabsPerformed < numTabs then do
      let stop ← columns[column + 1]?
      forward columns numTabs left (column + 1) (tabsPerformed + if stop then 1 else 0)
    else some column
  | 0, column, _ => some column

def forwardTab (numTabs : Nat) (s : TabScreen) (t : TabStops) : Option (TabStops × Nat) := do
  let t := t.initTabStopsForWidth s.lineWidth
  let column ← forward t.tabStopColumns numTabs (s.lineWidth - 1 - s.column) s.column 0
  return (t, column)

def backward (columns : List Bool) (numTabs : Nat) : Nat → Nat → Option Nat
  | column + 1, tabsPerformed =>
    if tabsPerformed < numTabs then do
      let stop ← columns[column]?
      backward columns numTabs column (tabsPerformed + if stop then 1 else 0)
    else some (column + 1)
  | 0, _ => some 0

def backwardsTab (numTabs : Nat) (s : TabScreen) (t : TabStops) : Option (TabStops × Nat) := do
  let t := t.initTabStopsForWidth s.lineWidth
  let column ← backward t.tabStopColumns numTabs s.column 0
  return (t, column)

end TabStops

inductive TabCall
  | horizontalTabSet (s : TabScreen)
  | tabClearCurrent (s : TabScreen)
  | tabClearAll
  | forwardTab (numTabs : Nat) (s : TabScreen)
  | backwardsTab (numTabs : Nat) (s : TabScreen)
  | hardReset

namespace TabCall

open TabStops

def apply (t : TabStops) : TabCall → Option TabStops
  | horizontalTabSet s => t.horizontalTabSet s
  | tabClearCurrent s => t.clearSingleTabStop s
  | tabClearAll => some clearAllTabStops
  | forwardTab numTabs s => (t.forwardTab numTabs s).map Prod.fst
  | backwardsTab numTabs s => (t.backwardsTab numTabs s).map Prod.fst
  | hardReset => some resetTabStops

/-- The cursor is inside of the width that the table is made for. -/
def Inside : TabCall → Prop
  | horizontalTabSet s | tabClearCurrent s => s.column < s.bufferWidth
  | forwardTab _ s | backwardsTab _ s => s.column < s.lineWidth
  | tabClearAll | hardReset => True

/-! ## The set of stops -/

def defaultStops (column : Nat) : Bool := 8 ≤ column && column % 8 == 0

def change (stops : Nat → Bool) : TabCall → Nat → Bool
  | horizontalTabSet s => Function.update stops s.column true
  | tabClearCurrent s => Function.update stops s.column false
  | tabClearAll => fun _ => false
  | forwardTab _ _ | backwardsTab _ _ => stops
  | hardReset => defaultStops

/-- The stops to the right of the cursor, and to the left. -/
def stopsRight (stops : Nat → Bool) (s : TabScreen) : List Nat :=
  (List.range' (s.column + 1) (s.lineWidth - 1 - s.column)).filter stops

def stopsLeft (stops : Nat → Bool) (s : TabScreen) : List Nat := (List.range s.column).reverse.filter stops

end TabCall

namespace TabStops

open TabCall

/-! ## The table stands for a set -/

def stop (t : TabStops) (column : Nat) : Bool :=
  t.tabStopColumns.getD column (t.initDefaultTabStops && defaultStops column)

theorem length_foldl_initTabStop (n : Nat) (is : List Nat) (columns : List Bool) :
    (is.foldl (initTabStop n) columns).length = columns.length := by
  induction is generalizing columns with
  | nil => rfl
  | cons i is ih =>
    rw [foldl_cons, ih, initTabStop]
    split <;> simp

theorem getElem?_foldl_initTabStop (n : Nat) (is : List Nat) (columns : List Bool) {j : Nat} (hj : j < columns.length) :
    (is.foldl (initTabStop n) columns)[j]? = if j ∈ is ∧ n ≤ j then some true else columns[j]? := by
  induction is generalizing columns with
  | nil => simp
  | cons i is ih =>
    have hset : (initTabStop n columns i)[j]? = if i = j ∧ n ≤ j then some true else columns[j]? := by
      unfold initTabStop
      split_ifs with h₁ h₂ h₂
      · rw [h₂.1, getElem?_set_self hj]
      · rw [getElem?_set_ne (by omega)]
      · omega
      · rfl
    rw [foldl_cons, ih _ (by rw [initTabStop]; split <;> simpa), hset]
    grind

theorem stop_initTabStopsForWidth (width : Nat) (t : TabStops) :
    (t.initTabStopsForWidth width).stop = t.stop ∧ width ≤ (t.initTabStopsForWidth width).tabStopColumns.length := by
  unfold initTabStopsForWidth
  extract_lets initialWidth columns defaults
  have hlength : columns.length = initialWidth + (width - initialWidth) := by simp [columns, initialWidth]
  have hcolumns : ∀ j < columns.length, columns[j]? = some (t.tabStopColumns.getD j false) := by
    intro j hj
    rw [getElem?_append, getElem?_replicate]
    split_ifs with h₁ h₂
    · simp [h₁]
    · rw [getD_eq_default _ _ (by omega)]
    · omega
  split_ifs with hwidth hdefault
  · refine ⟨funext fun j => ?_, by rw [length_foldl_initTabStop]; omega⟩
    unfold stop
    rw [getD_eq_getElem?_getD]
    by_cases hj : j < columns.length
    · have hmem : j ∈ defaults ↔ defaultStops j = true := by
        simp only [defaults, mem_range', defaultStops, Bool.and_eq_true, decide_eq_true_eq, beq_iff_eq]
        constructor
        · omega
        · intro h
          exact ⟨(j - 8) / 8, by omega, by omega⟩
      rw [getElem?_foldl_initTabStop _ _ _ hj, hcolumns j hj, hdefault]
      by_cases hinitial : initialWidth ≤ j
      · rw [getD_eq_default _ _ hinitial, getD_eq_default _ _ hinitial]
        cases hstop : defaultStops j <;> simp [hmem, hinitial, hstop]
      · rw [if_neg fun h => hinitial h.2, getD_eq_getElem _ _ (by omega), getD_eq_getElem _ _ (by omega)]
        rfl
    · rw [getElem?_eq_none (by rw [length_foldl_initTabStop]; omega), getD_eq_default _ _ (by omega)]
      rfl
  · refine ⟨funext fun j => ?_, by dsimp only; omega⟩
    rw [Bool.not_eq_true] at hdefault
    unfold stop
    dsimp only
    rw [hdefault, getD_eq_getElem?_getD]
    by_cases hj : j < columns.length
    · rw [hcolumns j hj]
      rfl
    · rw [getElem?_eq_none (by omega), getD_eq_default _ _ (by omega)]
      rfl
  · exact ⟨rfl, by omega⟩

theorem stop_setColumn {s : TabScreen} (hs : s.column < s.bufferWidth) (value : Bool) (t : TabStops) :
    ∃ t', t.setColumn s value = some t' ∧ t'.stop = Function.update t.stop s.column value := by
  obtain ⟨hstop, hwidth⟩ := stop_initTabStopsForWidth s.bufferWidth t
  refine ⟨_, if_pos (Nat.lt_of_lt_of_le hs hwidth), funext fun j => ?_⟩
  rw [← hstop, Function.update_apply]
  unfold stop
  rw [getD_eq_getElem?_getD, getElem?_set]
  split_ifs with h₁ h₂ h₂ <;> first | rfl | omega

/-! ## Tabs -/

section Tabs

variable {columns : List Bool} {stops : Nat → Bool} {numTabs : Nat}

theorem forward_eq (left column performed n : Nat) (hn : performed + n + 1 = numTabs)
    (hstops : ∀ j ≤ column + left, columns[j]? = some (stops j)) :
    forward columns numTabs left column performed =
      some (((range' (column + 1) left).filter stops).getD n (column + left)) := by
  induction left generalizing column performed n with
  | zero => rfl
  | succ left ih =>
    rw [forward, if_pos (by omega), hstops _ (by omega), range'_succ, filter_cons]
    rw [show column + (left + 1) = column + 1 + left by omega] at hstops ⊢
    cases stops (column + 1) with
    | false => exact ih (column + 1) performed n hn hstops
    | true =>
      cases n with
      | zero =>
        cases left <;> simp [forward, hn]
      | succ n => exact ih (column + 1) (performed + 1) n (by omega) hstops

theorem backward_eq (column performed n : Nat) (hn : performed + n + 1 = numTabs)
    (hstops : ∀ j < column, columns[j]? = some (stops j)) :
    backward columns numTabs column performed = some (((range column).reverse.filter stops).getD n 0) := by
  induction column generalizing performed n with
  | zero => rfl
  | succ column ih =>
    have hrest : ∀ j < column, columns[j]? = some (stops j) := fun j hj => hstops j (by omega)
    rw [backward, if_pos (by omega), hstops _ (by omega), range_succ, reverse_append, reverse_singleton,
      singleton_append, filter_cons]
    cases stops column with
    | false => exact ih performed n hn hrest
    | true =>
      cases n with
      | zero =>
        cases column <;> simp [backward, hn]
      | succ n => exact ih (performed + 1) n (by omega) hrest

theorem getElem?_initTabStopsForWidth (t : TabStops) {width j : Nat} (hj : j < width) :
    (t.initTabStopsForWidth width).tabStopColumns[j]? = some (t.stop j) := by
  obtain ⟨hstop, hwidth⟩ := stop_initTabStopsForWidth width t
  rw [← hstop, stop, getD_eq_getElem _ _ (by omega), getElem?_eq_getElem (by omega)]

variable {s : TabScreen} (hs : s.column < s.lineWidth)
include hs

theorem forwardTab_eq (t : TabStops) (n : Nat) : t.forwardTab (n + 1) s =
    some (t.initTabStopsForWidth s.lineWidth, (stopsRight t.stop s).getD n (s.lineWidth - 1)) := by
  have hlast : s.column + (s.lineWidth - 1 - s.column) = s.lineWidth - 1 := by omega
  have hforward := forward_eq (s.lineWidth - 1 - s.column) s.column 0 n (congrArg (· + 1) (Nat.zero_add n))
    fun j hj => getElem?_initTabStopsForWidth t (by omega : j < s.lineWidth)
  rw [forwardTab, hforward, hlast]
  rfl

theorem backwardsTab_eq (t : TabStops) (n : Nat) : t.backwardsTab (n + 1) s =
    some (t.initTabStopsForWidth s.lineWidth, (stopsLeft t.stop s).getD n 0) := by
  have hbackward := backward_eq s.column 0 n (congrArg (· + 1) (Nat.zero_add n))
    fun j hj => getElem?_initTabStopsForWidth t (by omega : j < s.lineWidth)
  rw [backwardsTab, hbackward]
  rfl

end Tabs

/-- No tabs are no move. -/
theorem forward_zero (columns : List Bool) (left column : Nat) : forward columns 0 left column 0 = some column := by
  cases left <;> rfl

theorem backward_zero (columns : List Bool) (column : Nat) : backward columns 0 column 0 = some column := by
  cases column <;> rfl

theorem stop_apply {call : TabCall} (hcall : call.Inside) (t : TabStops) :
    ∃ t', call.apply t = some t' ∧ t'.stop = change t.stop call := by
  cases call with
  | horizontalTabSet s => exact stop_setColumn hcall true t
  | tabClearCurrent s => exact stop_setColumn hcall false t
  | tabClearAll => exact ⟨_, rfl, rfl⟩
  | forwardTab numTabs s =>
    refine ⟨_, ?_, (stop_initTabStopsForWidth s.lineWidth t).1⟩
    cases numTabs with
    | zero => simp [TabCall.apply, TabStops.forwardTab, forward_zero]
    | succ n => rw [TabCall.apply, forwardTab_eq hcall]; rfl
  | backwardsTab numTabs s =>
    refine ⟨_, ?_, (stop_initTabStopsForWidth s.lineWidth t).1⟩
    cases numTabs with
    | zero => simp [TabCall.apply, TabStops.backwardsTab, backward_zero]
    | succ n => rw [TabCall.apply, backwardsTab_eq hcall]; rfl
  | hardReset => exact ⟨_, rfl, rfl⟩

theorem stop_foldlM_apply {calls : List TabCall} (hcalls : ∀ call ∈ calls, call.Inside) (t : TabStops) :
    ∃ t', calls.foldlM TabCall.apply t = some t' ∧ t'.stop = calls.foldl change t.stop := by
  induction calls generalizing t with
  | nil => exact ⟨t, rfl, rfl⟩
  | cons call calls ih =>
    obtain ⟨t₁, hcall, hstop⟩ := stop_apply (hcalls call (by simp)) t
    obtain ⟨t₂, hrun, hstops⟩ := ih (fun call hmem => hcalls call (by simp [hmem])) t₁
    rw [foldlM_cons, hcall, foldl_cons, ← hstop]
    exact ⟨t₂, hrun, hstops⟩

/-- After any calls with the cursor inside, the tabs go to the stops of the set. -/
theorem tabs_follow_stops {calls : List TabCall} (hcalls : ∀ call ∈ calls, call.Inside) (n : Nat) {s : TabScreen}
    (hs : s.column < s.lineWidth) :
    let stops := calls.foldl change defaultStops
    ∃ t, calls.foldlM TabCall.apply {} = some t ∧
      (t.forwardTab (n + 1) s).map Prod.snd = some ((stopsRight stops s).getD n (s.lineWidth - 1)) ∧
      (t.backwardsTab (n + 1) s).map Prod.snd = some ((stopsLeft stops s).getD n 0) := by
  intro stops
  obtain ⟨t, hrun, hstops⟩ := stop_foldlM_apply hcalls {}
  have hstop : t.stop = stops := hstops
  refine ⟨t, hrun, ?_, ?_⟩
  · rw [forwardTab_eq hs, hstop]
    rfl
  · rw [backwardsTab_eq hs, hstop]
    rfl

/-- A stop is set in column 20 of a double-width line, and the default stop in column 16 taken away. -/
theorem tabs_follow_stops_changed :
    let calls := [TabCall.horizontalTabSet ⟨80, 40, 20⟩, .tabClearCurrent ⟨80, 40, 16⟩, .forwardTab 2 ⟨80, 40, 0⟩]
    let stops := calls.foldl change defaultStops
    ∃ t, calls.foldlM TabCall.apply {} = some t ∧
      (t.forwardTab 2 ⟨80, 40, 9⟩).map Prod.snd = some ((stopsRight stops ⟨80, 40, 9⟩).getD 1 39) ∧
      (t.backwardsTab 2 ⟨80, 40, 9⟩).map Prod.snd = some ((stopsLeft stops ⟨80, 40, 9⟩).getD 1 0) :=
  tabs_follow_stops (by simp [Inside]) 1 (by decide)

/-- The cursor has stayed in column 79 of an alternate buffer that is now 40 columns wide. -/
theorem tabs_outside : ({} : TabStops).horizontalTabSet ⟨40, 40, 79⟩ = none ∧
    ({} : TabStops).backwardsTab 1 ⟨40, 40, 79⟩ = none := by
  decide

end TabStops

end Terminal.Adapter
