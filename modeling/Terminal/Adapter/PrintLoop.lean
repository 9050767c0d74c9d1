import Terminal.Adapter.WriteToBuffer
import Terminal.Lib.Steps

/-!
# When printing ends, and what it writes

A line feed leads to column 0 of some row, with any renditions. Only the calls are kept of what
is done to the display.
-/

namespace Terminal.Adapter

open Terminal.Parser (Wchar)
open Terminal.Buffer (TextAttribute RowEdit OutputCellIterator)
open Terminal.Types (Point Size Rect)
open Terminal.Til List

/-- The rows that line feeds lead to, and the renditions after them. -/
structure Feeds where
  size : Size
  width_pos : 1 ≤ size.width
  doubleWidth : Nat → Int → Bool
  target : Nat → Int
  target_exists : ∀ n, 0 ≤ target n ∧ target n < size.height

inductive DisplayCall where
  | writeRow (row : Int) (edits : List RowEdit)
  | scrollRectHorizontally (scrollRect : Rect) (delta : Int)

structure Calls where
  feeds : Nat := 0
  calls : List DisplayCall := []

namespace Feeds

def display (f : Feeds) : TextDisplay Calls where
  size _ := f.size
  isDoubleWidthLine row s := f.doubleWidth s.feeds row
  writeRow row edits s := { s with calls := s.calls ++ [.writeRow row edits] }
  scrollRectHorizontally rect delta s := { s with calls := s.calls ++ [.scrollRectHorizontally rect delta] }
  lineFeed _ s := ({ s with feeds := s.feeds + 1 }, ⟨0, f.target (s.feeds + 1)⟩)

def lineWidth (f : Feeds) (n : Nat) : Int := if f.doubleWidth n (f.target n) then f.size.width / 2 else f.size.width

theorem lineWidth_bounds (f : Feeds) (n : Nat) : 0 ≤ f.lineWidth n ∧ f.lineWidth n ≤ f.size.width := by
  have := f.width_pos
  unfold lineWidth
  split_ifs <;> omega

variable {f : Feeds}

theorem getLineWidth_bounds (row : Int) (s : Calls) :
    0 ≤ f.display.getLineWidth row s ∧ f.display.getLineWidth row s ≤ f.size.width := by
  have := f.width_pos
  change 0 ≤ (if f.doubleWidth s.feeds row then f.size.width / 2 else f.size.width) ∧
    (if f.doubleWidth s.feeds row then f.size.width / 2 else f.size.width) ≤ f.size.width
  split_ifs <;> omega

end Feeds

section

variable {fullWidth : List Wchar → Bool} {f : Feeds} {settings : PrintSettings} {p : Printer Calls}

namespace Printer

structure OnLine (f : Feeds) (p : Printer Calls) : Prop where
  nonneg : 0 ≤ p.lineWidth
  le_width : p.lineWidth ≤ f.size.width
  eq_lineWidth : 0 < p.screen.feeds → p.lineWidth = f.lineWidth p.screen.feeds

theorem onLine_start (string : List Wchar) (cursor : Cursor) (s : Calls) (hs : s.feeds = 0) :
    (start f.display string cursor s).OnLine f where
  nonneg := (Feeds.getLineWidth_bounds ..).1
  le_width := (Feeds.getLineWidth_bounds ..).2
  eq_lineWidth h := absurd hs h.ne'

section

variable (fullWidth f settings)

def taken (p : Printer Calls) : List (List Wchar) :=
  if f.size.IsInBounds p.cursor.position then
    Buffer.fitting fullWidth (p.lineWidth.toNat - p.cursor.position.x.toNat) (codePoints p.text)
  else []

def lineEdits (p : Printer Calls) : List RowEdit :=
  Buffer.textEdits fullWidth settings.attributes (some settings.wrapAtEOL) p.lineWidth.toNat p.cursor.position.x.toNat
    (codePoints p.text)

def written (p : Printer Calls) : Calls :=
  let screen := p.makeSpace fullWidth f.display settings (.ofText fullWidth p.text settings.attributes)
  if f.size.IsInBounds p.cursor.position then
    f.display.writeRow p.cursor.position.y (p.lineEdits fullWidth settings) screen
  else screen

end

@[simp] theorem feeds_written : (p.written fullWidth f settings).feeds = p.screen.feeds := by
  unfold written makeSpace
  split_ifs <;> rfl

theorem printLine_eq (hp : p.OnLine f) : p.printLine fullWidth f.display settings =
      p.moveOn settings (p.written fullWidth f settings) (p.taken fullWidth f).flatten.length
        (Buffer.textWidth fullWidth (p.taken fullWidth f)) := by
  unfold taken written
  by_cases hin : f.size.IsInBounds p.cursor.position
  · rw [if_pos hin, if_pos hin]
    exact printLine_inBounds (Int.toNat_of_nonneg hin.1).symm (Int.toNat_of_nonneg hp.nonneg).symm hin
  · rw [if_neg hin, if_neg hin]
    exact printLine_outOfBounds hin

def Waiting (p : Printer Calls) : Prop := p.cursor.delayedAt = some p.cursor.position

theorem wrapDelayed_cases (settings : PrintSettings) (p : Printer Calls) :
    (∃ delayedAt, p.wrapDelayed f.display settings = { p with cursor.delayedAt := delayedAt } ∧
      (p.Waiting → settings.wrapAtEOL = false)) ∨
    settings.wrapAtEOL = true ∧ p.Waiting ∧ p.wrapDelayed f.display settings = { p with
          screen.feeds := p.screen.feeds + 1
          cursor := { position := ⟨0, f.target (p.screen.feeds + 1)⟩ }
          lineWidth := f.lineWidth (p.screen.feeds + 1) } := by
  obtain ⟨screen, ⟨position, delayedAt⟩, lineWidth, text⟩ := p
  cases delayedAt with
  | none => exact .inl ⟨none, rfl, by simp [Waiting]⟩
  | some pos =>
    by_cases hwrap : settings.wrapAtEOL
    · by_cases hpos : pos = position
      · refine .inr ⟨hwrap, congrArg some hpos, ?_⟩
        simp only [wrapDelayed, hwrap, hpos]
        rfl
      · exact .inl ⟨none, by simp [wrapDelayed, hwrap, hpos], by simp [Waiting, hpos]⟩
    · exact .inl ⟨some pos, by simp [wrapDelayed, hwrap], by simp [hwrap]⟩

variable (settings) in
theorem OnLine.wrapDelayed (hp : p.OnLine f) : (p.wrapDelayed f.display settings).OnLine f := by
  obtain ⟨_, h, _⟩ | ⟨_, _, h⟩ := wrapDelayed_cases (f := f) settings p
  · rw [h]
    exact { hp with }
  · rw [h]
    exact ⟨(f.lineWidth_bounds _).1, (f.lineWidth_bounds _).2, fun _ => rfl⟩

theorem OnLine.moveOn {screen : Calls} {inputDistance cellCount : Int} (hp : p.OnLine f)
    (hfeeds : screen.feeds = p.screen.feeds) :
    (p.moveOn settings screen inputDistance cellCount).OnLine f := by
  unfold Printer.moveOn
  split_ifs <;> exact ⟨hp.nonneg, hp.le_width, by simpa [hfeeds] using hp.eq_lineWidth⟩

theorem OnLine.step (hp : p.OnLine f) : (p.step fullWidth f.display settings).OnLine f := by
  by_cases htext : p.text = []
  · rwa [Printer.step, if_pos htext]
  · rw [Printer.step, if_neg htext, printLine_eq (hp.wrapDelayed settings)]
    exact (hp.wrapDelayed settings).moveOn feeds_written

@[simp] theorem text_wrapDelayed : (p.wrapDelayed f.display settings).text = p.text := by
  obtain ⟨_, h, _⟩ | ⟨_, _, h⟩ := wrapDelayed_cases (f := f) settings p <;> rw [h]

/-! ## When printing ends -/

theorem taken_eq_nil (h : (p.taken fullWidth f).flatten.length = 0) : p.taken fullWidth f = [] := by
  unfold taken at *
  split_ifs at * with hin
  · exact Buffer.flatten_fitting_eq_nil.1 h
  · rfl

variable (fullWidth settings) in
theorem step_progress (hp : p.OnLine f) (htext : p.text ≠ []) :
    (p.step fullWidth f.display settings).text.length < p.text.length ∨
      settings.wrapAtEOL = true ∧ (p.wrapDelayed f.display settings).taken fullWidth f = [] ∧
        (p.step fullWidth f.display settings).text = p.text ∧ (p.step fullWidth f.display settings).Waiting ∧
        (p.step fullWidth f.display settings).screen.feeds = (p.wrapDelayed f.display settings).screen.feeds := by
  have hq := hp.wrapDelayed settings
  rw [step, if_neg htext]
  set q := p.wrapDelayed f.display settings
  have hqtext : q.text = p.text := text_wrapDelayed
  have hlength := length_pos_iff.2 htext
  rw [printLine_eq hq]
  by_cases hunits : (q.taken fullWidth f).flatten.length = 0
  · cases hwrap : settings.wrapAtEOL with
    | true =>
      refine .inr ⟨rfl, taken_eq_nil hunits, ?_⟩
      simp only [hunits, moveOn, Waiting, clampCursor, hwrap, hqtext]
      simp
    | false =>
      left
      simp only [hunits, moveOn, hwrap, hqtext]
      simp
      omega
  · left
    rw [moveOn, if_neg (by omega), hqtext, length_drop]
    omega

theorem taken_ne_nil {row : Int} (hrow : 0 ≤ row ∧ row < f.size.height) (hwidth : 2 ≤ p.lineWidth)
    (hx : p.cursor.position = ⟨0, row⟩)
    (htext : p.text ≠ []) : p.taken fullWidth f ≠ [] := by
  have hin : f.size.IsInBounds p.cursor.position := by
    rw [hx]
    exact ⟨le_rfl, f.width_pos, hrow⟩
  have hfits : Buffer.glyphWidth fullWidth (utf16Next p.text) ≤ p.lineWidth.toNat := by
    unfold Buffer.glyphWidth
    split_ifs <;> omega
  rw [taken, if_pos hin, hx, codePoints_eq htext, Buffer.fitting]
  simp [hfits]

variable (fullWidth) in
theorem step_waiting (hp : p.OnLine f) (htext : p.text ≠ []) (hwait : p.Waiting) (hwrap : settings.wrapAtEOL = true) :
    (p.step fullWidth f.display settings).text.length < p.text.length ∨
      f.lineWidth (p.screen.feeds + 1) < 2 ∧ (p.step fullWidth f.display settings).text = p.text ∧
        (p.step fullWidth f.display settings).Waiting ∧
        (p.step fullWidth f.display settings).screen.feeds = p.screen.feeds + 1 := by
  obtain ⟨_, _, hno⟩ | ⟨_, _, h⟩ := wrapDelayed_cases (f := f) settings p
  · simp [hno hwait] at hwrap
  obtain hless | ⟨_, hnone, hsame, hwaits, hfeeds⟩ := step_progress fullWidth settings hp htext
  · exact .inl hless
  · refine .inr ⟨?_, hsame, hwaits, by rw [hfeeds, h]⟩
    by_contra hwide
    apply taken_ne_nil (f.target_exists (p.screen.feeds + 1)) _ _ _ hnone
    · rw [h]
      exact not_lt.1 hwide
    · rw [h]
    · rwa [h]

theorem waiting_progress (k : Nat) (hp : p.OnLine f) (htext : p.text ≠ []) (hwait : p.Waiting)
    (hwrap : settings.wrapAtEOL = true) (hwide : 2 ≤ f.lineWidth (p.screen.feeds + 1 + k)) :
    ∃ n, ((step fullWidth f.display settings)^[n] p).OnLine f ∧
      ((step fullWidth f.display settings)^[n] p).text.length < p.text.length := by
  induction k generalizing p with
  | zero =>
    obtain hless | ⟨hnarrow, _⟩ := step_waiting fullWidth hp htext hwait hwrap
    · exact ⟨1, hp.step, hless⟩
    · simp at hwide
      omega
  | succ k ih =>
    obtain hless | ⟨_, hsame, hwaits, hfeeds⟩ := step_waiting fullWidth hp htext hwait hwrap
    · exact ⟨1, hp.step, hless⟩
    · obtain ⟨n, hn, hless⟩ := ih hp.step (by rwa [hsame]) hwaits (by rwa [hfeeds, show p.screen.feeds + 1 + 1 + k =
        p.screen.feeds + 1 + (k + 1) by omega])
      exact ⟨n + 1, hn, by rwa [hsame] at hless⟩

variable (fullWidth) in
theorem returns_of_wide (hp : p.OnLine f) (hwide : settings.wrapAtEOL = false ∨ ∀ k, ∃ n ≥ k, 2 ≤ f.lineWidth n) :
    ∃ n, ((step fullWidth f.display settings)^[n] p).text.length = 0 := by
  refine (Steps.reaches_zero (I := OnLine f) (μ := fun p => p.text.length) ?_ hp).imp fun _ => And.right
  intro p hp hlength
  have htext : p.text ≠ [] := by simpa using hlength
  obtain hless | ⟨hwrap, _, hsame, hwaits, _⟩ := step_progress fullWidth settings hp htext
  · exact ⟨1, hp.step, hless⟩
  · obtain ⟨n, hn, hlarge⟩ := (hwide.resolve_left (by simp [hwrap]))
      ((p.step fullWidth f.display settings).screen.feeds + 1)
    obtain ⟨k, rfl⟩ := Nat.exists_eq_add_of_le hn
    obtain ⟨n, hn, hless⟩ := waiting_progress k hp.step (by rwa [hsame]) hwaits hwrap hlarge
    exact ⟨n + 1, hn, by rwa [hsame] at hless⟩

/-! ## When it does not end -/

/-- `string` of a wide glyph, of which so many are left. -/
def Stuck (wch : Wchar) (f : Feeds) (k N : Nat) (p : Printer Calls) : Prop :=
  ∃ m : Nat, p.text = List.replicate m wch ∧ (N : Int) ≤ m + f.size.width * k ∧
    (p.screen.feeds < k → (N : Int) ≤ m + f.size.width * p.screen.feeds + min (p.cursor.position.x + 1) p.lineWidth)

variable (settings) in
theorem Stuck.wrapDelayed {wch : Wchar} {k N : Nat} (h : p.Stuck wch f k N) (hp : p.OnLine f) :
    (p.wrapDelayed f.display settings).Stuck wch f k N := by
  obtain ⟨m, htext, hall, hfew⟩ := h
  refine ⟨m, by rw [text_wrapDelayed, htext], hall, ?_⟩
  obtain ⟨_, h, _⟩ | ⟨_, _, h⟩ := wrapDelayed_cases (f := f) settings p
  · rw [h]
    exact hfew
  · rw [h]
    intro hk
    simp only at hk
    have := (f.lineWidth_bounds (p.screen.feeds + 1)).1
    have := hp.le_width
    push_cast
    rw [mul_add, mul_one]
    omega

theorem taken_replicate {wch : Wchar} {m : Nat} (hsurrogate : isSurrogate wch = false) (hwide : fullWidth [wch] = true)
    (htext : p.text = replicate m wch) :
    ∃ c ≤ m, p.taken fullWidth f = replicate c [wch] ∧
      (c = 0 ∨ 0 ≤ p.cursor.position.x ∧ p.cursor.position.x + 2 * c ≤ p.lineWidth) := by
  unfold taken
  split_ifs with hin
  · obtain ⟨n, hn⟩ := Buffer.fitting_eq_take fullWidth
      (p.lineWidth.toNat - p.cursor.position.x.toNat) (codePoints p.text)
    have hle := Buffer.textWidth_fitting_le fullWidth
      (p.lineWidth.toNat - p.cursor.position.x.toNat) (codePoints p.text)
    rw [hn, htext, codePoints_replicate hsurrogate, take_replicate] at *
    refine ⟨min n m, Nat.min_le_right _ _, rfl, ?_⟩
    have hx := hin.1
    simp [Buffer.textWidth, Buffer.glyphWidth, hwide] at hle
    omega
  · exact ⟨0, Nat.zero_le _, rfl, .inl rfl⟩

theorem Stuck.step {wch : Wchar} {k N : Nat} (hsurrogate : isSurrogate wch = false) (hwide : fullWidth [wch] = true)
    (hwrap : settings.wrapAtEOL = true) (hk : 0 < k) (hnarrow : ∀ n ≥ k, f.lineWidth n ≤ 1)
    (h : p.Stuck wch f k N) (hp : p.OnLine f) :
    (p.step fullWidth f.display settings).Stuck wch f k N := by
  by_cases htext : p.text = []
  · rwa [Printer.step, if_pos htext]
  have hq := hp.wrapDelayed settings
  rw [Printer.step]
  obtain ⟨m, hm, hall, hfew⟩ := h.wrapDelayed settings hp
  set q := p.wrapDelayed f.display settings
  obtain ⟨c, hc, htaken, hfit⟩ := taken_replicate hsurrogate hwide hm
  have hcells : Buffer.textWidth fullWidth (replicate c [wch]) = 2 * c := by
    simp [Buffer.textWidth, Buffer.glyphWidth, hwide, Nat.mul_comm]
  have hunits : (replicate c [wch]).flatten.length = c := by simp
  rw [printLine_eq hq, htaken, hunits, Printer.moveOn]
  split_ifs with hzero
  · refine ⟨m, by simpa [hwrap] using hm, hall, fun hlt => ?_⟩
    have := hfew (by simpa using hlt)
    simp only [clampCursor_x, feeds_written]
    omega
  · have hlt : q.screen.feeds < k := by
      by_contra hge
      have := hq.eq_lineWidth (by omega)
      have := hnarrow q.screen.feeds (by omega)
      omega
    have hrow : f.size.width * q.screen.feeds + f.size.width ≤ f.size.width * k := by
      rw [← mul_add_one]
      exact Int.mul_le_mul_of_nonneg_left (by omega) (by have := f.width_pos; omega)
    have hwidth := hq.le_width
    refine ⟨m - c, by simp [hm], by omega, fun _ => ?_⟩
    simp only [clampCursor_x, feeds_written]
    omega

theorem text_ne_nil_of_narrow {wch : Wchar} {k : Nat} {cursor : Cursor} (hsurrogate : isSurrogate wch = false)
    (hwide : fullWidth [wch] = true) (hwrap : settings.wrapAtEOL = true) (hk : 0 < k)
    (hnarrow : ∀ n ≥ k, f.lineWidth n ≤ 1)
    (hcursor : f.size.IsInBounds cursor.position) (rounds : Nat) :
    ((step fullWidth f.display settings)^[rounds]
      (start f.display (replicate (f.size.width.toNat * k + 1) wch) cursor {})).text ≠ [] := by
  have hwidth := Int.toNat_of_nonneg (by have := f.width_pos; omega : 0 ≤ f.size.width)
  have hline := onLine_start (f := f) (replicate (f.size.width.toNat * k + 1) wch) cursor {} rfl
  have hstuck : (start f.display (replicate (f.size.width.toNat * k + 1) wch) cursor {}).Stuck wch f k
      (f.size.width.toNat * k + 1) := by
    have hx := hcursor.1
    refine ⟨f.size.width.toNat * k + 1, rfl, ?_, fun _ => ?_⟩
    · have : 0 ≤ f.size.width * k := Int.mul_nonneg (by omega) (by omega)
      omega
    · have := hline.nonneg
      change _ ≤ _ + f.size.width * 0 + min (cursor.position.x + 1) _
      omega
  have hkeep := Function.Iterate.rec (fun p => Stuck wch f k (f.size.width.toNat * k + 1) p ∧ OnLine f p)
    (f := step fullWidth f.display settings) ⟨hstuck, hline⟩
    (fun p hp => ⟨hp.1.step hsurrogate hwide hwrap hk hnarrow hp.2, hp.2.step⟩) rounds
  obtain ⟨⟨m, htext, hall, _⟩, _⟩ := hkeep
  rw [htext]
  push_cast at hall
  rw [hwidth] at hall
  have hm : m ≠ 0 := by omega
  simp [hm]

end Printer

/-- Printing ends just if a line with room for a wide glyph always comes again. -/
theorem writeToBuffer_returns_iff (wch : Wchar) (hsurrogate : isSurrogate wch = false) (hwide : fullWidth [wch] = true)
    (f : Feeds) (settings : PrintSettings) (cursor : Cursor) (hcursor : f.size.IsInBounds cursor.position) :
    (∀ string, ∃ rounds, (writeToBuffer fullWidth f.display settings rounds string cursor {}).isSome) ↔
      settings.wrapAtEOL = false ∨ ∀ k, ∃ n ≥ k, 2 ≤ f.lineWidth n := by
  have hreturns (string : List Wchar) (rounds : Nat) :
      (writeToBuffer fullWidth f.display settings rounds string cursor {}).isSome ↔
        ((Printer.step fullWidth f.display settings)^[rounds] (.start f.display string cursor {})).text = [] := by
    unfold writeToBuffer
    simp
  simp only [hreturns]
  constructor
  · intro h
    by_contra hno
    push Not at hno
    obtain ⟨hwrap, k, hk⟩ := hno
    obtain ⟨rounds, hend⟩ := h (replicate (f.size.width.toNat * (k + 1) + 1) wch)
    apply Printer.text_ne_nil_of_narrow hsurrogate hwide (by simpa using hwrap) k.succ_pos _ hcursor rounds hend
    intro n hn
    have := hk n (by omega)
    omega
  · intro h string
    obtain ⟨n, hn⟩ := Printer.returns_of_wide fullWidth (Printer.onLine_start string cursor {} rfl) h
    exact ⟨n, length_eq_zero_iff.1 hn⟩

end

def oneRow (width : Int) (h : 1 ≤ width) : Feeds where
  size := ⟨width, 1⟩
  width_pos := h
  doubleWidth _ _ := false
  target _ := 0
  target_exists _ := ⟨le_rfl, Int.one_pos⟩

theorem writeToBuffer_returns_two :
    ∃ rounds, (writeToBuffer (fun glyph => glyph = [0x4E00]) (oneRow 2 (by decide)).display ⟨true, false, {}⟩ rounds
      [0x4E00, 0x4E00] { position := ⟨1, 0⟩ } {}).isSome :=
  (writeToBuffer_returns_iff 0x4E00 (by decide) (by decide) (oneRow 2 (by decide)) ⟨true, false, {}⟩
    { position := ⟨1, 0⟩ }
    (by decide)).2 (.inr fun k => ⟨k, le_rfl, by simp [Feeds.lineWidth, oneRow]⟩) _

/-- Two wide glyphs on a display of one column. -/
theorem writeToBuffer_never_returns :
    ¬ ∃ rounds, (writeToBuffer (fun glyph => glyph = [0x4E00]) (oneRow 1 (by decide)).display ⟨true, false, {}⟩ rounds
      [0x4E00, 0x4E00] { position := ⟨0, 0⟩ } {}).isSome := by
  rintro ⟨rounds, hreturns⟩
  refine Bool.noConfusion (hreturns.symm.trans (congrArg Option.isSome (if_neg ?_)))
  exact Printer.text_ne_nil_of_narrow (f := oneRow 1 (by decide)) (k := 1) (by decide) (by decide) rfl Nat.one_pos
    (fun n _ => by simp [Feeds.lineWidth, oneRow]) (by decide) rounds

end Terminal.Adapter
