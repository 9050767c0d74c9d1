import Terminal.Buffer.RowInvariant
import Terminal.Types.Viewport

/-!
# Words and glyphs (`textBuffer.cpp`)

Of the text these depend only on the class of each cell and on which cells are the trailing half
of a wide glyph. The entry behind the last column of a row never is.
-/

namespace Terminal.Core

open Terminal.Parser (Wchar)
open Terminal.Types
open Terminal.Buffer (DbcsAttribute Fault Row orFault unicodeSpace charOffsetsMask)

/-- What a cell counts as where words are told apart. -/
inductive DelimiterClass where
  | controlChar
  | delimiterChar
  | regularChar
deriving DecidableEq, Repr

/-- What words and glyphs depend on in the rows. -/
structure Text where
  delimiterClassAt : Point → DelimiterClass
  isTrailer : Point → Bool

structure Screen where
  size : Size
  cursor : Point := ⟨0, 0⟩
  text : Text

def Text.blank : Text := ⟨fun _ => .controlChar, fun _ => false⟩

namespace Screen

variable (screen : Screen)

def getSize : Viewport := .fromDimensions ⟨0, 0⟩ screen.size

def dbcsAttrAt (pos : Point) : DbcsAttribute :=
  if screen.text.isTrailer pos then .trailing
  else if pos.x + 1 < screen.size.width ∧ screen.text.isTrailer ⟨pos.x + 1, pos.y⟩ then .leading
  else .single

/-- The rows move up by one, and the last one is blank. -/
def incrementCircularBuffer : Screen :=
  { screen with
    text := {
      delimiterClassAt := fun pos =>
        if pos.y + 1 < screen.size.height then screen.text.delimiterClassAt ⟨pos.x, pos.y + 1⟩ else .controlChar
      isTrailer := fun pos =>
        if pos.y + 1 < screen.size.height then screen.text.isTrailer ⟨pos.x, pos.y + 1⟩ else false } }

/-! ## Words -/

/-- Left while the cells are of the class, and not out of the row. -/
def expandLeft (screen : Screen) (initialDelimiter : DelimiterClass) : Nat → Point → Point
  | 0, result => result
  | fuel + 1, result =>
    if result.x > screen.getSize.left ∧ screen.text.delimiterClassAt result = initialDelimiter then
      expandLeft screen initialDelimiter fuel (screen.getSize.decrementInBounds result).1
    else result

variable (target : Point)

def getWordStartForSelection : Point :=
  let initialDelimiter := screen.text.delimiterClassAt target
  let result := screen.expandLeft initialDelimiter (target.x - screen.getSize.left).toNat target
  if screen.text.delimiterClassAt result ≠ initialDelimiter then (screen.getSize.incrementInBounds result).1 else result

/-- A target behind the end stands for the last cell. -/
def getWordStart : Point :=
  if target = screen.getSize.origin then target
  else if target = screen.getSize.endExclusive ∨
    screen.getSize.compareInBounds target screen.getSize.endExclusive ≥ 0 then
    screen.getWordStartForSelection ⟨screen.getSize.rightInclusive, screen.getSize.bottomInclusive⟩
  else screen.getWordStartForSelection target

def expandRight (screen : Screen) (initialDelimiter : DelimiterClass) : Nat → Point → Point
  | 0, result => result
  | fuel + 1, result =>
    if result.x < screen.getSize.rightInclusive ∧ screen.text.delimiterClassAt result = initialDelimiter then
      expandRight screen initialDelimiter fuel (screen.getSize.incrementInBounds result).1
    else result

def getWordEndForSelection : Point :=
  if target.x = screen.getSize.rightInclusive then target
  else
    let initialDelimiter := screen.text.delimiterClassAt target
    let result := screen.expandRight initialDelimiter (screen.getSize.rightInclusive - target.x).toNat target
    if screen.text.delimiterClassAt result ≠ initialDelimiter then
      (screen.getSize.decrementInBounds result).1 else result

def getWordEnd : Point :=
  if screen.getSize.compareInBounds target screen.getSize.endExclusive ≥ 0 then target
  else screen.getWordEndForSelection target

/-! ## Glyphs -/

/-- A position behind the end becomes the end. -/
def clampToEnd (pos : Point) : Point :=
  if screen.getSize.compareInBounds pos screen.getSize.endExclusive > 0 then screen.getSize.endExclusive else pos

/-- From the second half of a wide glyph to the first. -/
def getGlyphStart (pos : Point) : Point :=
  let resultPos := screen.clampToEnd pos
  if resultPos ≠ screen.getSize.endExclusive ∧ screen.dbcsAttrAt resultPos = .trailing then
    (screen.getSize.decrementInBounds resultPos true).1
  else resultPos

def getGlyphEnd (pos : Point) : Point :=
  let resultPos := screen.clampToEnd pos
  if resultPos ≠ screen.getSize.endExclusive ∧ screen.dbcsAttrAt resultPos = .leading then
    (screen.getSize.incrementInBounds resultPos true).1
  else resultPos

/-! ## Where they end up -/

section

variable {screen : Screen} {p : Point}

theorem contains_getSize_iff :
    screen.getSize.Contains p ↔ 0 ≤ p.x ∧ p.x < screen.size.width ∧ 0 ≤ p.y ∧ p.y < screen.size.height := by
  unfold getSize Viewport.fromDimensions Viewport.Contains Viewport.rightExclusive Viewport.bottomExclusive
  dsimp only
  omega

@[simp] theorem getSize_left : screen.getSize.left = 0 := rfl

@[simp] theorem getSize_top : screen.getSize.top = 0 := rfl

@[simp] theorem getSize_rightInclusive : screen.getSize.rightInclusive = screen.size.width - 1 := by
  simp [getSize, Viewport.fromDimensions]

@[simp] theorem getSize_bottomInclusive : screen.getSize.bottomInclusive = screen.size.height - 1 := by
  simp [getSize, Viewport.fromDimensions]

@[simp] theorem origin_getSize : screen.getSize.origin = ⟨0, 0⟩ := rfl

/-- `q` is in the row of `p` and not right of it. -/
structure LeftOf (screen : Screen) (p q : Point) : Prop where
  contains : screen.getSize.Contains q
  row : q.y = p.y
  column : q.x ≤ p.x

structure RightOf (screen : Screen) (p q : Point) : Prop where
  contains : screen.getSize.Contains q
  row : q.y = p.y
  column : p.x ≤ q.x

theorem decrementInBounds_row (hp : screen.getSize.Contains p) (hx : 0 < p.x) (past : Bool) :
    (screen.getSize.decrementInBounds p past).1 = ⟨p.x - 1, p.y⟩ := by
  rw [Viewport.decrementInBounds_fst hp, if_pos (by simpa using hx)]

theorem incrementInBounds_row (hp : screen.getSize.Contains p) (hx : p.x < screen.size.width - 1)
    (past : Bool) : (screen.getSize.incrementInBounds p past).1 = ⟨p.x + 1, p.y⟩ := by
  have hright : p.x < screen.getSize.rightInclusive := by simpa using hx
  rw [Viewport.incrementInBounds_fst hp _ fun _ => by omega, if_pos hright]

/-- The cells from `a` to `b` are of class `c`. -/
def SameClass (row a b : Int) (c : DelimiterClass) : Prop :=
  ∀ x, a ≤ x → x ≤ b → screen.text.delimiterClassAt ⟨x, row⟩ = c

theorem expandLeft_spec (initial : DelimiterClass) (fuel : Nat) (hp : screen.getSize.Contains p) (hfuel : p.x = fuel) :
    let q := screen.expandLeft initial fuel p
    screen.LeftOf p q ∧ screen.SameClass p.y (q.x + 1) p.x initial ∧
      (q.x = 0 ∨ screen.text.delimiterClassAt q ≠ initial) := by
  induction fuel generalizing p with
  | zero => exact ⟨⟨hp, rfl, le_rfl⟩, fun x _ _ => by simp only [expandLeft] at *; omega, Or.inl hfuel⟩
  | succ fuel ih =>
    rw [expandLeft]
    split_ifs with h
    · have hin := contains_getSize_iff.1 hp
      have hx : 0 < p.x := by simpa using h.1
      rw [decrementInBounds_row hp hx]
      obtain ⟨hleft, hsame, hstop⟩ :=
        ih (p := ⟨p.x - 1, p.y⟩) (contains_getSize_iff.2 (by dsimp only; omega)) (by simp [hfuel])
      refine ⟨⟨hleft.contains, hleft.row, hleft.column.trans (by simp)⟩, fun x hlo hhi => ?_, hstop⟩
      obtain rfl | hlt := eq_or_lt_of_le hhi
      · exact h.2
      · exact hsame x hlo (by dsimp only; omega)
    · refine ⟨⟨hp, rfl, le_rfl⟩, fun x _ _ => by omega, ?_⟩
      simp only [getSize_left, not_and] at h
      exact Or.inr (h (by omega))

theorem expandRight_spec (initial : DelimiterClass) (fuel : Nat) (hp : screen.getSize.Contains p)
    (hfuel : screen.size.width - 1 - p.x = fuel) : let q := screen.expandRight initial fuel p
    screen.RightOf p q ∧ screen.SameClass p.y p.x (q.x - 1) initial ∧
      (q.x = screen.size.width - 1 ∨ screen.text.delimiterClassAt q ≠ initial) := by
  induction fuel generalizing p with
  | zero => exact ⟨⟨hp, rfl, le_rfl⟩,
      fun x _ _ => by simp only [expandRight] at *; omega, Or.inl (by simp [expandRight]; omega)⟩
  | succ fuel ih =>
    rw [expandRight]
    split_ifs with h
    · have hin := contains_getSize_iff.1 hp
      have hx : p.x < screen.size.width - 1 := by simpa using h.1
      rw [incrementInBounds_row hp hx]
      obtain ⟨hright, hsame, hstop⟩ := ih (p := ⟨p.x + 1, p.y⟩)
        (contains_getSize_iff.2 (by dsimp only; omega)) (by dsimp only; omega)
      refine ⟨⟨hright.contains, hright.row, le_trans (by simp) hright.column⟩, fun x hlo hhi => ?_, hstop⟩
      obtain rfl | hlt := eq_or_lt_of_le hlo
      · exact h.2
      · exact hsame x (by dsimp only; omega) hhi
    · refine ⟨⟨hp, rfl, le_rfl⟩, fun x _ _ => by omega, ?_⟩
      simp only [getSize_rightInclusive, not_and] at h
      exact Or.inr (h (by omega))

theorem getWordStart_spec (hp : screen.getSize.Contains p) : let q := screen.getWordStart p
    screen.LeftOf p q ∧ screen.SameClass p.y q.x p.x (screen.text.delimiterClassAt p) ∧
      (q.x = 0 ∨ screen.text.delimiterClassAt ⟨q.x - 1, p.y⟩ ≠ screen.text.delimiterClassAt p) := by
  have hin := contains_getSize_iff.1 hp
  have hend : ¬(p = screen.getSize.endExclusive ∨
    screen.getSize.compareInBounds p screen.getSize.endExclusive ≥ 0) := by
    have hbefore := Viewport.compareInBounds_endExclusive hp
    rintro (heq | hge)
    · exact Viewport.ne_endExclusive hp heq
    · omega
  rw [getWordStart]
  split_ifs with horigin
  · refine ⟨⟨hp, rfl, le_rfl⟩, fun x hlo hhi => ?_, Or.inl (by simp [horigin])⟩
    rw [le_antisymm hhi hlo]
  · obtain ⟨⟨hcontains, hrow, hcolumn⟩, hsame, hstop⟩ := expandLeft_spec (screen.text.delimiterClassAt p)
      (p.x - screen.getSize.left).toNat hp (by simp; omega)
    rw [getWordStartForSelection]
    generalize screen.expandLeft _ _ p = q at *
    obtain ⟨x, y⟩ := q
    obtain rfl : y = p.y := hrow
    split_ifs with hclass
    -- The class of the target itself is the initial one, so the loop has moved.
    · have hne : x ≠ p.x := by
        rintro rfl
        exact hclass rfl
      have hinq := contains_getSize_iff.1 hcontains
      rw [incrementInBounds_row hcontains (by dsimp only at *; omega)]
      refine ⟨⟨contains_getSize_iff.2 (by dsimp only at *; omega), rfl, by dsimp only at *; omega⟩, hsame, Or.inr ?_⟩
      simpa using hclass
    · rw [not_not] at hclass
      refine ⟨⟨hcontains, rfl, hcolumn⟩, fun z hlo hhi => ?_, Or.inl (hstop.resolve_right (not_not.2 hclass))⟩
      obtain rfl | hlt := eq_or_lt_of_le hlo
      · exact hclass
      · exact hsame z hlt hhi

theorem leftOf_getWordStart (hp : screen.getSize.Contains p) : screen.LeftOf p (screen.getWordStart p) :=
  (getWordStart_spec hp).1

theorem getWordEnd_spec (hp : screen.getSize.Contains p) : let q := screen.getWordEnd p
    screen.RightOf p q ∧ screen.SameClass p.y p.x q.x (screen.text.delimiterClassAt p) ∧
      (q.x = screen.size.width - 1 ∨ screen.text.delimiterClassAt ⟨q.x + 1, p.y⟩ ≠ screen.text.delimiterClassAt p) := by
  have hin := contains_getSize_iff.1 hp
  rw [getWordEnd, if_neg (by have := Viewport.compareInBounds_endExclusive hp; omega), getWordEndForSelection]
  split_ifs with hright
  · refine ⟨⟨hp, rfl, le_rfl⟩, fun x hlo hhi => ?_, Or.inl (by simpa using hright)⟩
    rw [le_antisymm hhi hlo]
  · obtain ⟨⟨hcontains, hrow, hcolumn⟩, hsame, hstop⟩ := expandRight_spec (screen.text.delimiterClassAt p)
      (screen.getSize.rightInclusive - p.x).toNat hp (by simp; omega)
    dsimp only
    generalize screen.expandRight _ _ p = q at *
    obtain ⟨x, y⟩ := q
    obtain rfl : y = p.y := hrow
    split_ifs with hclass
    · have hne : x ≠ p.x := by
        rintro rfl
        exact hclass rfl
      have hinq := contains_getSize_iff.1 hcontains
      rw [decrementInBounds_row hcontains (by dsimp only at *; omega)]
      refine ⟨⟨contains_getSize_iff.2 (by dsimp only at *; omega), rfl, by dsimp only at *; omega⟩, hsame, Or.inr ?_⟩
      simpa using hclass
    · rw [not_not] at hclass
      refine ⟨⟨hcontains, rfl, hcolumn⟩, fun z hlo hhi => ?_, Or.inl (hstop.resolve_right (not_not.2 hclass))⟩
      obtain rfl | hlt := eq_or_lt_of_le hhi
      · exact hclass
      · exact hsame z hlo (Int.le_sub_one_of_lt hlt)

theorem rightOf_getWordEnd (hp : screen.getSize.Contains p) : screen.RightOf p (screen.getWordEnd p) :=
  (getWordEnd_spec hp).1

/-- A word is the longest run of one class around its target. -/
theorem word_maximal (hp : screen.getSize.Contains p) :
    screen.getWordStart p ≤ p ∧ p ≤ screen.getWordEnd p ∧ (screen.getWordStart p).y = p.y ∧
      (screen.getWordEnd p).y = p.y ∧
      0 ≤ (screen.getWordStart p).x ∧ (screen.getWordEnd p).x < screen.size.width ∧
      screen.SameClass p.y (screen.getWordStart p).x (screen.getWordEnd p).x (screen.text.delimiterClassAt p) ∧
      ∀ a b, 0 ≤ a → a ≤ p.x → p.x ≤ b → b < screen.size.width →
        screen.SameClass p.y a b (screen.text.delimiterClassAt p) →
          (screen.getWordStart p).x ≤ a ∧ b ≤ (screen.getWordEnd p).x := by
  obtain ⟨hleft, hsame, hstart⟩ := getWordStart_spec hp
  obtain ⟨hright, hsame', hend⟩ := getWordEnd_spec hp
  refine ⟨Or.inr ⟨hleft.row, hleft.column⟩, Or.inr ⟨hright.row.symm, hright.column⟩, hleft.row, hright.row,
    (contains_getSize_iff.1 hleft.contains).1, (contains_getSize_iff.1 hright.contains).2.1, fun x hlo hhi => ?_, ?_⟩
  · obtain hle | hle := le_total x p.x
    · exact hsame x hlo hle
    · exact hsame' x hle hhi
  · intro a b ha hap hpb hb hclass
    -- a cell beyond the word is of another class, so no run reaches it
    constructor
    · by_contra hlt
      have hcolumn := hleft.column
      exact hstart.elim (by omega) fun hne => hne (hclass _ (by omega) (by omega))
    · by_contra hlt
      have hcolumn := hright.column
      exact hend.elim (by omega) fun hne => hne (hclass _ (by omega) (by omega))

/-- A word of three cells between blanks. -/
theorem word_maximal_blank :
    let text : Text := ⟨fun p => if 2 ≤ p.x ∧ p.x ≤ 4 then .regularChar else .controlChar, fun _ => false⟩
    let screen : Screen := ⟨⟨8, 2⟩, ⟨0, 0⟩, text⟩
    screen.getWordStart ⟨3, 1⟩ = ⟨2, 1⟩ ∧ screen.getWordEnd ⟨3, 1⟩ = ⟨4, 1⟩ ∧ screen.SameClass 1 2 4 .regularChar ∧
      ∀ a b, 0 ≤ a → a ≤ 3 → 3 ≤ b → b < 8 → screen.SameClass 1 a b .regularChar → 2 ≤ a ∧ b ≤ 4 := by
  intro text screen
  have hstart : screen.getWordStart ⟨3, 1⟩ = ⟨2, 1⟩ := by decide
  have hend : screen.getWordEnd ⟨3, 1⟩ = ⟨4, 1⟩ := by decide
  obtain ⟨-, -, -, -, -, -, hclass, hmaximal⟩ := @word_maximal screen ⟨3, 1⟩
    (contains_getSize_iff.2 (by decide))
  rw [hstart, hend] at hclass hmaximal
  exact ⟨hstart, hend, hclass, hmaximal⟩

theorem clampToEnd_eq (hp : screen.getSize.Contains p) : screen.clampToEnd p = p := by
  rw [clampToEnd, if_neg (by have := Viewport.compareInBounds_endExclusive hp; omega)]

theorem contains_decrementInBounds (hp : screen.getSize.Contains p) (past : Bool) :
    screen.getSize.Contains (screen.getSize.decrementInBounds p past).1 ∧
      (screen.getSize.decrementInBounds p past).1.y ≤ p.y := by
  have hin := contains_getSize_iff.1 hp
  rw [Viewport.decrementInBounds_fst hp, contains_getSize_iff]
  simp only [getSize_left, getSize_top, getSize_rightInclusive]
  split_ifs <;> try dsimp only
  all_goals omega

theorem contains_incrementInBounds (hp : screen.getSize.Contains p) :
    screen.getSize.Contains (screen.getSize.incrementInBounds p).1 := by
  have hin := contains_getSize_iff.1 hp
  rw [Viewport.incrementInBounds_fst hp _ (by simp), contains_getSize_iff]
  simp only [getSize_left, getSize_bottomInclusive, getSize_rightInclusive]
  split_ifs <;> try dsimp only
  all_goals omega

theorem contains_getGlyphStart (hp : screen.getSize.Contains p) :
    screen.getSize.Contains (screen.getGlyphStart p) ∧ (screen.getGlyphStart p).y ≤ p.y := by
  rw [getGlyphStart, clampToEnd_eq hp]
  split_ifs
  · exact contains_decrementInBounds hp true
  · exact ⟨hp, le_rfl⟩

theorem rightOf_getGlyphEnd (hp : screen.getSize.Contains p) : screen.RightOf p (screen.getGlyphEnd p) := by
  have hin := contains_getSize_iff.1 hp
  rw [getGlyphEnd, clampToEnd_eq hp]
  split_ifs with h
  -- The leading half is not in the last column.
  · have hlt : p.x + 1 < screen.size.width := by
      have hleading := h.2
      unfold dbcsAttrAt at hleading
      split_ifs at hleading with _ hnext
      exact hnext.1
    rw [incrementInBounds_row hp (by omega)]
    exact ⟨contains_getSize_iff.2 (by dsimp only; omega), rfl, by dsimp only; omega⟩
  · exact ⟨hp, rfl, le_rfl⟩

theorem LeftOf.le {q : Point} (h : screen.LeftOf p q) : q ≤ p := Or.inr ⟨h.row, h.column⟩

theorem RightOf.le {q : Point} (h : screen.RightOf p q) : p ≤ q := Or.inr ⟨h.row.symm, h.column⟩

end

end Screen

/-! ## The cells of rows -/

variable (wordDelimiters : List Wchar)

/-- Up to the space everything is a control character. -/
def delimiterClass (glyph : Wchar) : DelimiterClass :=
  if glyph ≤ unicodeSpace then .controlChar
  else if wordDelimiters.contains glyph then .delimiterChar
  else .regularChar

def rowDelimiterClassAt (column : Int) (row : Row) : Except Fault DelimiterClass := do
  let offset ← row.uncheckedCharOffset (row.clampedColumn column)
  let glyph ← orFault .undefined row.chars[offset.toNat]?
  return delimiterClass wordDelimiters glyph

/-- The text as the arrays of the rows give it. -/
def Text.ofRows (rows : Int → Row) : Text where
  delimiterClassAt pos :=
    let row := rows pos.y
    delimiterClass wordDelimiters
      (row.chars.getD ((row.charOffsets.getD pos.x.toNat 0) &&& charOffsetsMask).toNat unicodeSpace)
  isTrailer pos := Buffer.isTrailer ((rows pos.y).charOffsets.getD pos.x.toNat 0)

section

open Terminal.Buffer (Line)

variable {rows : Int → Row} {line : Line} {pos : Point}

theorem getElem?_charOffsets_of_shows {row : Row} (h : row.Shows line) {col : Nat} (hcol : col ≤ row.columnCount) :
    row.charOffsets[col]? = some (row.charOffsets.getD col 0) := by
  have hlength : row.charOffsets.length = row.columnCount + 1 := by
    rw [h.offsets, h.columns]
    simp [Line.entries]
  rw [List.getD_eq_getElem?_getD, List.getElem?_eq_getElem (by omega), Option.getD_some]

theorem clampedColumn_eq {row : Row} (hpos : 0 ≤ pos.x ∧ pos.x < row.columnCount) :
    row.clampedColumn pos.x = pos.x.toNat := by
  unfold Row.clampedColumn
  omega

theorem isTrailer_end {row : Row} (h : row.Shows line) :
    Buffer.isTrailer (row.charOffsets.getD row.columnCount 0) = false := by
  have hsize := h.charSize_eq
  rw [Row.charSize, Row.offsetAt, getElem?_charOffsets_of_shows h le_rfl, Buffer.orFault_some, Except.ok.injEq] at hsize
  rw [hsize, Buffer.isTrailer_ofNat h.small]

theorem dbcsAttrAt_ofRows {screen : Screen}
    (htext : screen.text = Text.ofRows wordDelimiters rows) (hshows : (rows pos.y).Shows line)
    (hwidth : screen.size.width = (rows pos.y).columnCount) (hpos : 0 ≤ pos.x ∧ pos.x < (rows pos.y).columnCount) :
    (rows pos.y).dbcsAttrAt pos.x = .ok (screen.dbcsAttrAt pos) := by
  have hnext : (pos.x + 1).toNat = pos.x.toNat + 1 := by omega
  have hread (col : Nat) (hcol : col ≤ (rows pos.y).columnCount) :
      (rows pos.y).uncheckedIsTrailer col = .ok (Buffer.isTrailer ((rows pos.y).charOffsets.getD col 0)) := by
    rw [Row.uncheckedIsTrailer, Row.offsetAt, getElem?_charOffsets_of_shows hshows hcol]
    rfl
  rw [Row.dbcsAttrAt, clampedColumn_eq hpos, hread _ (by omega), hread _ (by omega), Screen.dbcsAttrAt, htext, hwidth]
  simp only [Text.ofRows, Buffer.ok_bind, hnext]
  by_cases hlast : pos.x.toNat + 1 = (rows pos.y).columnCount
  · rw [hlast, isTrailer_end hshows]
    simp only [Bool.false_eq_true, and_false]
    split_ifs <;> rfl
  · simp only [show pos.x + 1 < (rows pos.y).columnCount by omega, true_and]
    split_ifs <;> rfl

theorem rowDelimiterClassAt_ofRows (hshows : (rows pos.y).Shows line) (hpos : 0 ≤ pos.x ∧
    pos.x < (rows pos.y).columnCount) : rowDelimiterClassAt wordDelimiters pos.x (rows pos.y) =
      .ok ((Text.ofRows wordDelimiters rows).delimiterClassAt pos) := by
  have hget := getElem?_charOffsets_of_shows hshows (show pos.x.toNat ≤ (rows pos.y).columnCount by omega)
  obtain ⟨pre, rest, j, hline, hwidth, hj, -, hsmall, hmask, -⟩ := hshows.offset_eq hget
  -- The column is before the end of the row, so its glyph has text.
  have hrest : rest ≠ [] := by
    rintro rfl
    have hcolumns := hshows.columns
    rw [List.append_nil] at hline
    rw [hline] at hcolumns
    omega
  obtain ⟨spare, hchars⟩ := hshows.chars
  have hlt : (Line.text pre).length < (rows pos.y).chars.length := by
    have := Line.length_text_pos hrest
    rw [hchars, hline, Line.text_append]
    simp only [List.length_append]
    omega
  rw [rowDelimiterClassAt, clampedColumn_eq hpos, Row.uncheckedCharOffset, Row.offsetAt, hget]
  simp only [Text.ofRows, Buffer.orFault_some, Buffer.ok_bind, hmask]
  rw [show (pure (BitVec.ofNat 16 (Line.text pre).length) : Except Fault (BitVec 16)) = .ok _ from rfl, Buffer.ok_bind,
    Buffer.toNat_ofNat hsmall, List.getElem?_eq_getElem hlt, Buffer.orFault_some, Buffer.ok_bind,
    List.getD_eq_getElem?_getD, List.getElem?_eq_getElem hlt]
  rfl

/-- What a selection reads of the text is what the rows return. -/
theorem Screen.reads_rows {screen : Screen} (htext : screen.text = Text.ofRows wordDelimiters rows)
    (hshows : (rows pos.y).Shows line) (hwidth : screen.size.width = (rows pos.y).columnCount)
    (hpos : 0 ≤ pos.x ∧ pos.x < (rows pos.y).columnCount) :
    (rows pos.y).dbcsAttrAt pos.x = .ok (screen.dbcsAttrAt pos) ∧
      rowDelimiterClassAt wordDelimiters pos.x (rows pos.y) = .ok (screen.text.delimiterClassAt pos) := by
  refine ⟨dbcsAttrAt_ofRows _ htext hshows hwidth hpos, ?_⟩
  rw [htext]
  exact rowDelimiterClassAt_ofRows _ hshows hpos

/-- The second half of a wide glyph, in a row of three columns. -/
theorem Screen.reads_rows_blank :
    let row : Row := { Row.make 3 {} with chars := [0x4E2D, 0x20], charOffsets := [0, 0x8000, 1, 2] }
    let screen : Screen := { size := ⟨3, 1⟩, text := .ofRows [] fun _ => row }
    row.dbcsAttrAt 1 = .ok .trailing ∧ row.dbcsAttrAt 1 = .ok (screen.dbcsAttrAt ⟨1, 0⟩) ∧
      rowDelimiterClassAt [] 1 row = .ok (screen.text.delimiterClassAt ⟨1, 0⟩) := by
  intro row screen
  have hshows : row.Shows [⟨⟨[0x4E2D], by simp⟩, 2, by decide⟩, ⟨⟨[0x20], by simp⟩, 1, by decide⟩] :=
    ⟨rfl, rfl, by decide, ⟨[], rfl⟩, by decide, by decide⟩
  exact ⟨by decide, @reads_rows [] (fun _ => row) _ ⟨1, 0⟩ _ rfl hshows rfl (by decide)⟩

end

end Terminal.Core
