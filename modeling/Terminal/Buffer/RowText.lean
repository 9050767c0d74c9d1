import Mathlib.Data.Nat.Bitwise
import Terminal.Buffer.Row
import Terminal.Lib.Blocks

/-!
# The text of a row

A line of glyphs, each one or more columns wide, of which the arrays of the row are the encoding.
Operations are edits of the line, as long as its text fits into 15 bits.
-/

namespace Terminal.Buffer

open Terminal.Parser (Wchar)
open Blocks List BitVec

/-! ## Lines of glyphs -/

abbrev Text := { chars : List Wchar // chars ≠ [] }

abbrev Glyph := Blocks.Block Text

abbrev Line := List Glyph

def blankText : Text := ⟨[unicodeSpace], by simp⟩

abbrev blankLine : Nat → Line := blanks blankText

namespace Line

def text (line : Line) : List Wchar := line.flatMap fun glyph => glyph.value.1

def offsets : Nat → Line → List (BitVec 16)
  | _, [] => []
  | p, glyph :: line =>
    BitVec.ofNat 16 p :: (List.replicate (glyph.width - 1) (BitVec.ofNat 16 p ||| charOffsetsTrailer) ++
        offsets (p + glyph.value.1.length) line)

def entries (p : Nat) (line : Line) : List (BitVec 16) :=
  line.offsets p ++ [BitVec.ofNat 16 (p + line.text.length)]

@[simp] theorem text_nil : text [] = [] := rfl

@[simp] theorem text_cons (glyph : Glyph) (line : Line) : text (glyph :: line) = glyph.value.1 ++ line.text := rfl

@[simp] theorem text_append (xs ys : Line) : text (xs ++ ys) = xs.text ++ ys.text := flatMap_append

@[simp] theorem text_blankLine (n : Nat) : text (blankLine n) = spaces n := by
  induction n with
  | zero => rfl
  | succ n ih =>
    rw [blankLine, blanks_succ, text_cons, ih]
    rfl

@[simp] theorem length_offsets (p : Nat) (line : Line) : (line.offsets p).length = width line := by
  induction line generalizing p with
  | nil => rfl
  | cons glyph line ih =>
    have := glyph.width_pos
    simp [offsets, ih]
    omega

theorem offsets_append (p : Nat) (xs ys : Line) :
    offsets p (xs ++ ys) = xs.offsets p ++ ys.offsets (p + xs.text.length) := by
  induction xs generalizing p with
  | nil => rfl
  | cons glyph xs ih => simp [offsets, ih, Nat.add_assoc]

theorem entries_append (p : Nat) (xs ys : Line) :
    entries p (xs ++ ys) = xs.offsets p ++ ys.entries (p + xs.text.length) := by
  simp [entries, offsets_append, Nat.add_assoc]

theorem entries_cons (p : Nat) (glyph : Glyph) (line : Line) : entries p (glyph :: line) = BitVec.ofNat 16 p ::
        (List.replicate (glyph.width - 1) (BitVec.ofNat 16 p ||| charOffsetsTrailer) ++
          entries (p + glyph.value.1.length) line) := by
  simp [entries, offsets, Nat.add_assoc]

theorem head?_entries (p : Nat) (line : Line) : (line.entries p).head? = some (BitVec.ofNat 16 p) := by
  cases line <;> simp [entries, offsets]

end Line

@[simp] theorem length_spaces (n : Nat) : (spaces n).length = n := by simp [spaces]

@[simp] theorem length_iota (n : Nat) (v : BitVec 16) : (iota n v).length = n := by simp [iota]

theorem iota_succ (n : Nat) (v : BitVec 16) : iota (n + 1) v = v :: iota n (v + 1) := by
  unfold iota
  rw [List.range_succ_eq_map, List.map_cons, List.map_map, BitVec.add_zero]
  congr 1
  apply map_congr_left
  intro i _
  rw [Function.comp_apply, Nat.succ_eq_add_one, ofNat_add, add_assoc, add_comm 1]
  rfl

theorem iota_eq_offsets (n p : Nat) : iota n (BitVec.ofNat 16 p) = Line.offsets p (blankLine n) := by
  induction n generalizing p with
  | zero => rfl
  | succ n ih =>
    have hnext : BitVec.ofNat 16 p + 1 = BitVec.ofNat 16 (p + 1) := by
      rw [BitVec.ofNat_add]
      rfl
    rw [iota_succ, hnext, ih]
    rfl

theorem iota_eq_entries (n p : Nat) : iota (n + 1) (BitVec.ofNat 16 p) = Line.entries p (blankLine n) := by
  rw [iota_eq_offsets, blankLine, blanks_add, Line.offsets_append]
  rfl

/-! ## The flag in an offset -/

section

variable {p : Nat}

theorem toNat_ofNat (hp : p ≤ 0x7fff) : (BitVec.ofNat 16 p).toNat = p := by
  simp
  omega

theorem and_trailer (hp : p ≤ 0x7fff) : BitVec.ofNat 16 p &&& charOffsetsTrailer = 0 := by
  apply eq_of_toNat_eq
  rw [toNat_and, toNat_ofNat hp]
  have : p &&& 2 ^ 15 = 0 := by
    rw [Nat.and_comm, Nat.two_pow_and, Nat.testBit_lt_two_pow (by omega)]
    rfl
  exact this

theorem or_trailer (hp : p ≤ 0x7fff) :
    BitVec.ofNat 16 p ||| charOffsetsTrailer = BitVec.ofNat 16 p + charOffsetsTrailer :=
  (BitVec.add_eq_or_of_and_eq_zero _ _ (and_trailer hp)).symm

theorem isTrailer_ofNat (hp : p ≤ 0x7fff) : isTrailer (BitVec.ofNat 16 p) = false := by
  simp [isTrailer, and_trailer hp]

theorem isTrailer_or : isTrailer (BitVec.ofNat 16 p ||| charOffsetsTrailer) = true := by
  have : (BitVec.ofNat 16 p ||| charOffsetsTrailer) &&& charOffsetsTrailer = charOffsetsTrailer := by
    ext i
    simp +contextual
  simp only [isTrailer, this]
  decide

theorem ofNat_and_mask (hp : p ≤ 0x7fff) : BitVec.ofNat 16 p &&& charOffsetsMask = BitVec.ofNat 16 p := by
  apply BitVec.eq_of_toNat_eq
  rw [BitVec.toNat_and, toNat_ofNat hp]
  have : p &&& (2 ^ 15 - 1) = p := by
    rw [Nat.and_two_pow_sub_one_eq_mod, Nat.mod_eq_of_lt (by omega)]
  exact this

theorem or_and_mask (hp : p ≤ 0x7fff) :
    (BitVec.ofNat 16 p ||| charOffsetsTrailer) &&& charOffsetsMask = BitVec.ofNat 16 p := by
  rw [BitVec.and_or_distrib_right, ofNat_and_mask hp, show charOffsetsTrailer &&& charOffsetsMask = 0 by decide]
  simp

end

/-! ## Finding glyphs in the offsets -/

section

variable {row : Row} {line rest : Line} {before : List (BitVec 16)} {p j : Nat}

theorem Line.getElem?_entries (hp : p ≤ 0x7fff) (hj : Inside j rest) :
    ∃ offset, (rest.entries p)[j]? = some offset ∧ offset &&& charOffsetsMask = BitVec.ofNat 16 p ∧
      isTrailer offset = decide (j ≠ 0) := by
  rcases hj with rfl | ⟨glyph, rest, rfl, hlt⟩
  · refine ⟨BitVec.ofNat 16 p, ?_, ofNat_and_mask hp, by simp [isTrailer_ofNat hp]⟩
    rw [← List.head?_eq_getElem?, head?_entries]
  · rw [entries_cons]
    cases j with
    | zero => exact ⟨_, rfl, ofNat_and_mask hp, by simp [isTrailer_ofNat hp]⟩
    | succ j =>
      refine ⟨BitVec.ofNat 16 p ||| charOffsetsTrailer, ?_, or_and_mask hp, by simp [isTrailer_or]⟩
      rw [List.getElem?_cons_succ, List.getElem?_append_left (by simp; omega),
        List.getElem?_replicate, if_pos (by omega)]

theorem getElem?_charOffsets (h : row.charOffsets = before ++ rest.entries p) (hp : p ≤ 0x7fff) (hj : Inside j rest) :
    ∃ offset, row.charOffsets[before.length + j]? = some offset ∧
      offset &&& charOffsetsMask = BitVec.ofNat 16 p ∧ isTrailer offset = decide (j ≠ 0) := by
  obtain ⟨offset, hget, hmask, htrailer⟩ := Line.getElem?_entries hp hj
  refine ⟨offset, ?_, hmask, htrailer⟩
  rw [h, getElem?_append_right (Nat.le_add_right _ _), Nat.add_sub_cancel_left, hget]

theorem uncheckedCharOffset_eq (h : row.charOffsets = before ++ rest.entries p) (hp : p ≤ 0x7fff)
    (hj : Inside j rest) : row.uncheckedCharOffset (before.length + j) = .ok (BitVec.ofNat 16 p) := by
  obtain ⟨offset, hget, hmask, -⟩ := getElem?_charOffsets h hp hj
  simp only [Row.uncheckedCharOffset, Row.offsetAt, hget, orFault_some, ok_bind, hmask]
  rfl

theorem uncheckedIsTrailer_eq (h : row.charOffsets = before ++ rest.entries p) (hp : p ≤ 0x7fff)
    (hj : Inside j rest) : row.uncheckedIsTrailer (before.length + j) = .ok (decide (j ≠ 0)) := by
  obtain ⟨offset, hget, -, htrailer⟩ := getElem?_charOffsets h hp hj
  simp only [Row.uncheckedIsTrailer, Row.offsetAt, hget, orFault_some, ok_bind, htrailer]
  rfl

theorem backToLead_eq (h : row.charOffsets = before ++ rest.entries p) (hp : p ≤ 0x7fff) (hj : Inside j rest) :
    row.backToLead (before.length + j) = .ok before.length := by
  induction j with
  | zero =>
    cases hlength : before.length with
    | zero => rfl
    | succ n =>
      have htrailer := uncheckedIsTrailer_eq h hp hj
      rw [hlength] at htrailer
      rw [Row.backToLead, htrailer]
      rfl
  | succ j ih =>
    have htrailer := uncheckedIsTrailer_eq h hp hj
    rw [← Nat.add_assoc] at htrailer ⊢
    rw [Row.backToLead, htrailer]
    simpa using ih hj.of_succ

theorem skipTrailers_replicate (k q col : Nat) (offsets : List (BitVec 16)) :
    Row.skipTrailers (List.replicate k (BitVec.ofNat 16 q ||| charOffsetsTrailer) ++ offsets) col =
      Row.skipTrailers offsets (col + k) := by
  induction k generalizing col with
  | zero => rfl
  | succ k ih =>
    rw [List.replicate_succ, List.cons_append, Row.skipTrailers, if_pos isTrailer_or, ih]
    congr 1
    omega

theorem skipTrailers_entries (hp : p ≤ 0x7fff) (col : Nat) : Row.skipTrailers (rest.entries p) col = .ok col := by
  obtain ⟨tail, htail⟩ := List.head?_eq_some_iff.mp (Line.head?_entries p rest)
  rw [htail, Row.skipTrailers, isTrailer_ofNat hp]
  rfl

theorem Line.drop_offsets {mid : Line} {k : Nat} (hk : InsideLast k mid) (p : Nat) :
    ∃ q, (mid.offsets p).drop (width mid - k) = List.replicate k (BitVec.ofNat 16 q ||| charOffsetsTrailer) := by
  rcases hk with rfl | ⟨mid, glyph, rfl, hlt⟩
  · exact ⟨0, by simp⟩
  · refine ⟨p + (text mid).length, ?_⟩
    have hsplit : width (mid ++ [glyph]) - k = (offsets p mid).length + (glyph.width - k) := by
      simp
      omega
    rw [offsets_append, hsplit, List.drop_append, List.drop_of_length_le (by omega), Nat.add_sub_cancel_left,
      List.nil_append, offsets, offsets, List.append_nil, show glyph.width - k = glyph.width - k - 1 + 1 by omega,
      List.drop_succ_cons, List.drop_replicate]
    congr 1
    omega

end

/-! ## Rows that show a line -/

structure Row.Shows (row : Row) (line : Line) : Prop where
  hasBuffer : row.hasBuffer = true
  columns : row.columnCount = width line
  offsets : row.charOffsets = line.entries 0
  chars : ∃ spare, row.chars = line.text ++ spare
  small : line.text.length ≤ 0x7fff
  size : row.chars.length < 2 ^ 16

structure Row.AttrFull (row : Row) : Prop where
  wellFormed : row.attr.WellFormed 16
  total : row.attr.totalLength = row.columnCount

theorem Row.shows_blank {row : Row} (hbuffer : row.hasBuffer = true) (hsmall : row.columnCount ≤ 0x7fff)
    (hoffsets : row.charOffsets.length = row.columnCount + 1) :
    row.init.Shows (blankLine row.columnCount) := by
  refine ⟨hbuffer, by simp [init], ?_, ⟨[], by simp [init]⟩, by simpa using hsmall, ?_⟩
  · rw [init, hoffsets]
    exact iota_eq_entries row.columnCount 0
  · simp [init]
    omega

/-! ## Replacing a range of columns -/

section

variable {row : Row} {line : Line}

theorem Line.map_entries {p q : Nat} (line : Line) (hp : p + line.text.length ≤ 0x7fff)
    (hq : q + line.text.length ≤ 0x7fff) :
    (line.entries p).map (· + BitVec.ofInt 16 (q - p)) = line.entries q := by
  have hadd : ∀ {p q : Nat}, BitVec.ofNat 16 p + BitVec.ofInt 16 (q - p) = BitVec.ofNat 16 q := by
    intro p q
    rw [← BitVec.ofInt_natCast, ← BitVec.ofInt_natCast, ← BitVec.ofInt_add]
    congr 1
    omega
  induction line generalizing p q with
  | nil => simp [entries, offsets, hadd]
  | cons glyph line ih =>
    simp only [text_cons, List.length_append] at hp hq
    have hnext := ih (p := p + glyph.value.1.length) (q := q + glyph.value.1.length) (by omega) (by omega)
    have hdiff : ((q + glyph.value.1.length : Nat) : Int) - (p + glyph.value.1.length : Nat) = q - p := by omega
    rw [hdiff] at hnext
    rw [entries_cons, entries_cons, List.map_cons, List.map_append, List.map_replicate, hadd, hnext,
      or_trailer (by omega), or_trailer (by omega), add_right_comm, hadd]

theorem Row.Shows.charSize_eq (h : row.Shows line) : row.charSize = .ok (BitVec.ofNat 16 line.text.length) := by
  have hget : row.charOffsets[row.columnCount]? = some (BitVec.ofNat 16 line.text.length) := by
    rw [h.offsets, h.columns, Line.entries]
    simp
  simp [charSize, offsetAt, hget]

theorem Row.moveChars_eq {a b c spare : List Wchar} {stop : Nat} (hstop : a.length ≤ stop)
    (hlength : stop + c.length < 2 ^ 16) (hsize : (a ++ (b ++ (c ++ spare))).length < 2 ^ 16) :
    ∃ between spare', moveChars a.length (a.length + b.length) stop (a.length + (b.length + c.length))
        (stop + c.length) (a ++ (b ++ (c ++ spare))) = .ok (a ++ (between ++ (c ++ spare'))) ∧
      between.length = stop - a.length ∧ (a ++ (between ++ (c ++ spare'))).length < 2 ^ 16 := by
  have hrest : Span.read (a.length + b.length) (a.length + (b.length + c.length))
    (a ++ (b ++ (c ++ spare))) = some c := by
    rw [← append_assoc a b]
    exact Span.read_append (a ++ b) c spare (by simp) (by simp [Nat.add_assoc])
  have hstart : Span.read 0 a.length (a ++ (b ++ (c ++ spare))) = some a := Span.read_append [] a _ rfl (by simp)
  unfold moveChars
  split_ifs with hfits
  · obtain ⟨between, spare', hwrite, hbetween, htotal⟩ :=
      Span.write_behind a c (b ++ (c ++ spare)) hstop (by simpa using hfits)
    refine ⟨between, spare', by simp [hrest, hwrite], hbetween, ?_⟩
    simp only [length_append] at hsize htotal ⊢
    omega
  · generalize hminimum : min 65535 _ = minimum
    have hcapacity : narrow16 (max (stop + c.length) minimum) = .ok (max (stop + c.length) minimum) := if_pos (by omega)
    obtain ⟨fresh, hheap, hfresh⟩ := Span.write_front a (replicate (max (stop + c.length) minimum) 0) (by simp; omega)
    rw [length_replicate] at hfresh
    obtain ⟨between, spare', hwrite, hbetween, htotal⟩ := Span.write_behind a c fresh hstop (by omega)
    refine ⟨between, spare', by simp only [hcapacity, hstart, hheap, hrest, hwrite, orFault_some, ok_bind],
      hbetween, ?_⟩
    simp only [length_append] at htotal ⊢
    omega

theorem Row.withText_self {chars : List Wchar} {charOffsets : List (BitVec 16)} (hchars : row.chars = chars)
    (hoffsets : row.charOffsets = charOffsets) : { row with chars := chars, charOffsets := charOffsets } = row := by
  subst hchars hoffsets
  rfl

variable {pre mid post : Line}

theorem Row.resizeCharsIf_eq {stop : Nat} (h : row.Shows (pre ++ (mid ++ post))) (hstop : pre.text.length ≤ stop)
    (hlength : stop + post.text.length ≤ 0x7fff) :
    ∃ between spare, row.resizeCharsIf (width pre + width mid) pre.text.length
        (pre.text.length + mid.text.length) stop =
        .ok { row with
              chars := pre.text ++ (between ++ (post.text ++ spare))
              charOffsets := pre.offsets 0 ++ (mid.offsets pre.text.length ++ post.entries stop) } ∧
      between.length = stop - pre.text.length ∧
      (pre.text ++ (between ++ (post.text ++ spare))).length < 2 ^ 16 := by
  obtain ⟨spare, hchars⟩ := h.chars
  have hsize := h.size
  have hsmall := h.small
  have hoffsets := h.offsets
  rw [Line.entries_append, Line.entries_append, Nat.zero_add] at hoffsets
  simp only [Line.text_append, List.append_assoc, List.length_append] at hchars hsmall
  unfold resizeCharsIf
  split_ifs with hne
  · obtain ⟨between, spare', hmove, hbetween, hsize'⟩ :=
      moveChars_eq hstop (show stop + post.text.length < 2 ^ 16 by omega) (hchars ▸ hsize)
    refine ⟨between, spare', ?_, hbetween, hsize'⟩
    have hlengthNew : (((Line.text (pre ++ (mid ++ post))).length : Int) +
        (stop - (pre.text.length + mid.text.length : Nat))).toNat = stop + post.text.length := by
      simp only [Line.text_append, List.length_append]
      omega
    have htake : row.charOffsets.take (width pre + width mid) = pre.offsets 0 ++ mid.offsets pre.text.length := by
      rw [hoffsets, ← List.append_assoc, List.take_left' (by simp)]
    have hdrop : row.charOffsets.drop (width pre + width mid) = post.entries (pre.text.length + mid.text.length) := by
      rw [hoffsets, ← List.append_assoc, List.drop_left' (by simp)]
    have hmap := Line.map_entries (p := pre.text.length + mid.text.length) (q := stop) post (by omega) hlength
    have hcurrent : (Line.text (pre ++ (mid ++ post))).length =
        pre.text.length + (mid.text.length + post.text.length) := by simp
    simp only [resizeChars, h.charSize_eq, ok_bind, toNat_ofNat h.small, hlengthNew, htake, hdrop, hmap]
    rw [hcurrent, hchars, hmove]
    simp only [List.append_assoc]
    rfl
  · have hstop' : stop = pre.text.length + mid.text.length := by omega
    subst hstop'
    refine ⟨mid.text, spare, ?_, by omega, hchars ▸ hsize⟩
    rw [withText_self hchars hoffsets]
    rfl

theorem Line.entries_replaced {j k stop : Nat} (glyph : Glyph) (p : Nat) (post : Line)
    (hstop : stop = glyph.value.1.length + j + k + p) :
    Line.entries p (blankLine j ++ glyph :: (blankLine k ++ post)) = (iota j (BitVec.ofNat 16 p) ++
        ((BitVec.ofNat 16 p + BitVec.ofNat 16 j) ::
          List.replicate (glyph.width - 1) (BitVec.ofNat 16 p + BitVec.ofNat 16 j ||| charOffsetsTrailer) ++
          iota k (BitVec.ofNat 16 p + BitVec.ofNat 16 j + BitVec.ofNat 16 glyph.value.1.length))) ++
        post.entries stop := by
  have hend : p + j + glyph.value.1.length + k = stop := by omega
  simp only [← BitVec.ofNat_add, iota_eq_offsets]
  rw [entries_append, entries_cons, entries_append]
  simp [hend]

/-- The ends of a range, moved out to whole glyphs. -/
theorem Row.Shows.extents {start stop j k : Nat} (h : row.Shows (pre ++ (mid ++ post))) (hpre : width pre + j = start)
    (hmid : width pre + width mid = stop + k) (hlt : start < stop) (hj : Inside j (mid ++ post))
    (hk : InsideLast k mid) :
    row.uncheckedCharOffset start = .ok (BitVec.ofNat 16 pre.text.length) ∧ row.backToLead start = .ok (width pre) ∧
      skipTrailers (row.charOffsets.drop stop) stop = .ok (width pre + width mid) ∧
      row.uncheckedCharOffset (width pre + width mid) = .ok (BitVec.ofNat 16 (pre.text.length + mid.text.length)) := by
  have hold := h.small
  simp only [Line.text_append, List.length_append] at hold
  have hoffsets := h.offsets
  rw [Line.entries_append, Nat.zero_add] at hoffsets
  have hsplit : row.charOffsets = (pre.offsets 0 ++ mid.offsets pre.text.length) ++
      post.entries (pre.text.length + mid.text.length) := by
    rw [hoffsets, Line.entries_append, List.append_assoc]
  refine ⟨?_, ?_, ?_, ?_⟩
  · have := uncheckedCharOffset_eq hoffsets (by omega) hj
    rwa [Line.length_offsets, hpre] at this
  · have := backToLead_eq hoffsets (by omega) hj
    rwa [Line.length_offsets, hpre] at this
  · obtain ⟨q, hq⟩ := Line.drop_offsets hk pre.text.length
    have hdrop : row.charOffsets.drop stop = List.replicate k (BitVec.ofNat 16 q ||| charOffsetsTrailer) ++
          post.entries (pre.text.length + mid.text.length) := by
      rw [hoffsets, Line.entries_append, List.drop_append, List.drop_of_length_le (by simp; omega), List.nil_append,
        Line.length_offsets, List.drop_append_of_le_length (by simp; omega), ← hq]
      congr 2
      omega
    rw [hdrop, skipTrailers_replicate, skipTrailers_entries (by omega), hmid]
  · have := uncheckedCharOffset_eq hsplit (by omega) (j := 0) (.inl rfl)
    rwa [Nat.add_zero, List.length_append, Line.length_offsets, Line.length_offsets] at this

theorem Row.replaceRange_eq {start j k : Nat} (glyph : Glyph) (h : row.Shows (pre ++ (mid ++ post)))
    (hpre : width pre + j = start) (hmid : width pre + width mid = start + glyph.width + k)
    (hj : Inside j (mid ++ post)) (hk : InsideLast k mid)
    (hsmall : (Line.text (pre ++ (blankLine j ++ glyph :: (blankLine k ++ post)))).length ≤ 0x7fff) :
    ∃ chars charOffsets, row.replaceRange start (start + glyph.width) glyph.value.1 =
        .ok { row with chars := chars, charOffsets := charOffsets } ∧
      Row.Shows { row with chars := chars, charOffsets := charOffsets }
        (pre ++ (blankLine j ++ glyph :: (blankLine k ++ post))) := by
  have hpos := glyph.width_pos
  have hold := h.small
  have hnew := hsmall
  simp only [Line.text_append, Line.text_cons, Line.text_blankLine, List.length_append, length_spaces] at hnew hold
  obtain ⟨hchExtBeg, hcolExtBeg, hcolExtEnd, hchExtEnd⟩ := h.extents hpre hmid (by omega) hj hk
  have hleading : start - width pre = j := by omega
  have htrailing : width pre + width mid - (start + glyph.width) = k := by omega
  -- Room for the new text, and the text behind the range at its new place.
  obtain ⟨between, spare, hresize, hbetween, hsize⟩ :=
    resizeCharsIf_eq h (show pre.text.length ≤ glyph.value.1.length + j + k + pre.text.length by omega) (by omega)
  have hwrite : Span.write pre.text.length (spaces j ++ (glyph.value.1 ++ spaces k))
      (pre.text ++ (between ++ (post.text ++ spare))) =
      some (pre.text ++ ((spaces j ++ (glyph.value.1 ++ spaces k)) ++ (post.text ++ spare))) :=
    Span.write_append _ _ _ _ rfl (by simp; omega)
  have hentries := Line.entries_replaced glyph pre.text.length post rfl (j := j) (k := k)
  generalize hwritten : iota j _ ++ (_ :: List.replicate _ _ ++ iota k _) = written at hentries
  have hlength : written.length = (mid.offsets pre.text.length).length := by
    rw [← hwritten]
    simp
    omega
  have hwrite' : Span.write (width pre) written
      (pre.offsets 0 ++ (mid.offsets pre.text.length ++
        post.entries (glyph.value.1.length + j + k + pre.text.length))) =
      some (pre.offsets 0 ++ (written ++ post.entries (glyph.value.1.length + j + k + pre.text.length))) :=
    Span.write_append _ _ _ _ (by simp) hlength
  refine ⟨pre.text ++ ((spaces j ++ (glyph.value.1 ++ spaces k)) ++ (post.text ++ spare)),
    pre.offsets 0 ++ (written ++ post.entries (glyph.value.1.length + j + k + pre.text.length)), ?_, ?_⟩
  · simp only [replaceRange, hchExtBeg, hcolExtBeg, hcolExtEnd, hchExtEnd, ok_bind, hleading, htrailing,
      toNat_ofNat (show pre.text.length ≤ 0x7fff by omega),
      toNat_ofNat (show pre.text.length + mid.text.length ≤ 0x7fff by omega), hresize, hwrite, orFault_some,
      show start + glyph.width - (start + 1) = glyph.width - 1 by omega, hwritten, hwrite']
    rfl
  · refine ⟨h.hasBuffer, ?_, ?_, ⟨spare, by simp⟩, hsmall, ?_⟩
    · rw [h.columns]
      simp only [width_append, width_cons, width_blanks]
      omega
    · rw [Line.entries_append, Nat.zero_add, hentries]
    · simp only [List.length_append, length_spaces] at hsize ⊢
      omega

theorem Row.replaceRange_shows {start stop : Nat} (text : Text) (h : row.Shows line) (hlt : start < stop)
    (hstop : stop ≤ row.columnCount)
    (hsmall : (Line.text (replace blankText start stop text hlt line)).length ≤ 0x7fff) :
    ∃ chars charOffsets, row.replaceRange start stop text.1 =
      .ok { row with chars := chars, charOffsets := charOffsets } ∧
      Row.Shows { row with chars := chars, charOffsets := charOffsets }
        (replace blankText start stop text hlt line) := by
  obtain ⟨pre, mid, post, j, k, rfl, hpre, hmid, hreplace, hj, hk⟩ := replace_eq blankText hlt (h.columns ▸ hstop)
  rw [hreplace] at hsmall ⊢
  have hwidth : start + (stop - start) = stop := by omega
  have hrange := replaceRange_eq ⟨text, stop - start, Nat.sub_pos_of_lt hlt⟩ h hpre (by simp only; omega) hj hk hsmall
  simpa only [hwidth] using hrange

theorem Row.replaceRange_exception {start stop : Nat} (text : Text) (h : row.Shows line) (hlt : start < stop)
    (hstop : stop ≤ row.columnCount)
    (hlarge : 2 ^ 16 ≤ (Line.text (replace blankText start stop text hlt line)).length) :
    row.replaceRange start stop text.1 = .error .exception := by
  obtain ⟨pre, mid, post, j, k, rfl, hpre, hmid, hreplace, hj, hk⟩ := replace_eq blankText hlt (h.columns ▸ hstop)
  rw [hreplace] at hlarge
  have hold := h.small
  have hsize := h.size
  obtain ⟨hchExtBeg, hcolExtBeg, hcolExtEnd, hchExtEnd⟩ := h.extents hpre hmid hlt hj hk
  have hcharSize := h.charSize_eq
  simp only [Line.text_append, Line.text_cons, Line.text_blankLine, List.length_append, length_spaces] at hlarge hold
  have hleading : start - width pre = j := by omega
  have htrailing : width pre + width mid - stop = k := by omega
  have hresize : row.resizeCharsIf (width pre + width mid) (Line.text pre).length
      ((Line.text pre).length + (Line.text mid).length) (text.1.length + j + k + (Line.text pre).length) =
      .error .exception := by
    have hlength : (((Line.text (pre ++ (mid ++ post))).length : Int) +
        ((text.1.length + j + k + (Line.text pre).length : Nat) -
          ((Line.text pre).length + (Line.text mid).length : Nat))).toNat =
        text.1.length + j + k + (Line.text pre).length + (Line.text post).length := by
      simp only [Line.text_append, List.length_append]
      omega
    have hnarrow : ∀ n, narrow16 (max (text.1.length + j + k + (Line.text pre).length + (Line.text post).length) n) =
        .error .exception := by
      intro n
      exact if_neg (by omega)
    rw [resizeCharsIf, if_pos (by omega), resizeChars, hcharSize]
    simp only [ok_bind, toNat_ofNat h.small, hlength]
    rw [moveChars, if_neg (by omega)]
    simp only [hnarrow, error_bind]
  simp only [replaceRange, hchExtBeg, hcolExtBeg, hcolExtEnd, hchExtEnd, ok_bind, hleading, htrailing,
    toNat_ofNat (show (Line.text pre).length ≤ 0x7fff by omega),
    toNat_ofNat (show (Line.text pre).length + (Line.text mid).length ≤ 0x7fff by omega), hresize, error_bind]

/-! ## Another width -/

theorem Row.resize_eq {rowWidth : BitVec 16} {fill : TextAttribute} {more : List (BitVec 16)} {spare : List Wchar}
    (hextent : row.extentToCopy rowWidth.toNat = .ok (width pre, BitVec.ofNat 16 pre.text.length))
    (hwidth : width pre ≤ rowWidth.toNat) (hchars : row.chars = pre.text ++ spare)
    (hoffsets : row.charOffsets = pre.offsets 0 ++ more)
    (hsmall : (Line.text (pre ++ blankLine (rowWidth.toNat - width pre))).length ≤ 0x7fff)
    (hattr : row.attr.WellFormed 16) :
    ∃ row', row.resize rowWidth fill = .ok row' ∧
      row'.Shows (pre ++ blankLine (rowWidth.toNat - width pre)) ∧ row'.AttrFull := by
  have hnew := hsmall
  simp only [Line.text_append, Line.text_blankLine, length_append, length_spaces] at hnew
  have hread : Span.read 0 pre.text.length row.chars = some pre.text := by
    rw [hchars]
    exact Span.read_append [] _ _ rfl (by simp)
  have hreadOffsets : Span.read 0 (width pre) row.charOffsets = some (pre.offsets 0) := by
    rw [hoffsets]
    exact Span.read_append [] _ _ rfl (by simp)
  obtain ⟨size, hsize⟩ : ∃ size, (if (pre.text.length + (rowWidth.toNat - width pre)) % 2 ^ 16 > rowWidth.toNat
      then (pre.text.length + (rowWidth.toNat - width pre)) % 2 ^ 16 else rowWidth.toNat) = size := ⟨_, rfl⟩
  have hcapacity : pre.text.length + (rowWidth.toNat - width pre) ≤ size ∧ size < 2 ^ 16 := by
    rw [← hsize]
    split_ifs <;> omega
  obtain ⟨attr, hresizeAttr, hattr', htotal⟩ : ∃ attr, resizeAttr rowWidth.toNat fill row.attr = .ok attr ∧
      attr.WellFormed 16 ∧ attr.totalLength = rowWidth.toNat := by
    unfold resizeAttr
    split_ifs with hempty
    · exact ⟨_, rfl, Til.Rle.wellFormed_ofLength rowWidth.isLt fill, rfl⟩
    · obtain ⟨attr, hresize, hattr', htotal⟩ :=
        Til.resizeTrailingExtent_wellFormed hattr (by simpa using hempty) rowWidth.isLt
      exact ⟨attr, by rw [hresize]; rfl, hattr', htotal⟩
  obtain ⟨fresh, hwrite, hfresh⟩ := Span.write_front (pre.text ++ spaces (rowWidth.toNat - width pre))
    (replicate size 0) (by simp; omega)
  obtain ⟨none', hwriteOffsets, hnone⟩ := Span.write_front
    (pre.offsets 0 ++ Line.entries pre.text.length (blankLine (rowWidth.toNat - width pre)))
    (replicate (rowWidth.toNat + 1) 0) (by simp [Line.entries]; omega)
  obtain rfl : none' = [] := by
    apply eq_nil_of_length_eq_zero
    simp [Line.entries] at hnone
    omega
  rw [append_nil] at hwriteOffsets
  refine ⟨{ row with
            hasBuffer := true
            chars := (pre.text ++ spaces (rowWidth.toNat - width pre)) ++ fresh
            charOffsets := pre.offsets 0 ++ Line.entries pre.text.length (blankLine (rowWidth.toNat - width pre))
            attr := attr
            columnCount := rowWidth.toNat }, ?_, ⟨rfl, ?_, ?_, ⟨fresh, ?_⟩, hsmall, ?_⟩, ⟨hattr', htotal⟩⟩
  · simp only [resize, hextent, ok_bind, toNat_ofNat (show pre.text.length ≤ 0x7fff by omega), hsize, hread,
      orFault_some, hreadOffsets, hresizeAttr, hwrite, iota_eq_entries, hwriteOffsets]
    rfl
  · simp only [width_append, width_blanks]
    omega
  · rw [Line.entries_append, Nat.zero_add]
  · rw [Line.text_append, Line.text_blankLine]
  · rw [length_replicate] at hfresh
    rw [length_append, hfresh]
    exact hcapacity.2

theorem Row.Shows.column (h : row.Shows line) {col : Nat} (hcol : col ≤ row.columnCount) :
    ∃ pre rest j, line = pre ++ rest ∧ width pre + j = col ∧ Inside j rest ∧
      row.charOffsets = Line.offsets 0 pre ++ Line.entries (Line.text pre).length rest ∧
      (Line.text pre).length ≤ 0x7fff := by
  obtain ⟨pre, rest, j, rfl, hwidth, -, hj⟩ := before_eq blankText col line
  rw [← h.columns, Nat.min_eq_left hcol] at hwidth
  refine ⟨pre, rest, j, rfl, hwidth, hj, ?_, ?_⟩
  · rw [h.offsets, Line.entries_append, Nat.zero_add]
  · have := h.small
    rw [Line.text_append, length_append] at this
    omega

theorem Row.Shows.resize (h : row.Shows line) (hattr : row.AttrFull) (rowWidth : BitVec 16)
    (fill : TextAttribute) (hsmall : (Line.text (before blankText rowWidth.toNat line)).length ≤ 0x7fff) :
    ∃ row', row.resize rowWidth fill = .ok row' ∧ row'.Shows (before blankText rowWidth.toNat line)
      ∧ row'.AttrFull := by
  obtain ⟨pre, rest, j, rfl, hwidth, hbefore, hj⟩ := before_eq blankText rowWidth.toNat line
  obtain ⟨spare, hchars⟩ := h.chars
  have hoffsets := h.offsets
  have hold := h.small
  rw [Line.entries_append, Nat.zero_add] at hoffsets
  rw [Line.text_append, List.length_append] at hold
  rw [Line.text_append, List.append_assoc] at hchars
  rw [← h.columns] at hwidth
  have hextent : row.extentToCopy rowWidth.toNat = .ok (width pre, BitVec.ofNat 16 (Line.text pre).length) := by
    have hoffset := uncheckedCharOffset_eq hoffsets (by omega) hj
    have hback := backToLead_eq hoffsets (by omega) hj
    rw [Line.length_offsets, hwidth] at hoffset hback
    rw [extentToCopy, if_pos h.hasBuffer, hoffset, hback]
    rfl
  rw [hbefore] at hsmall ⊢
  exact resize_eq hextent (by omega) hchars hoffsets hsmall hattr.wellFormed

structure Row.Unallocated (row : Row) : Prop where
  hasBuffer : row.hasBuffer = false
  chars : row.chars = []
  charOffsets : row.charOffsets = []
  columnCount : row.columnCount = 0

theorem Row.Unallocated.resize (h : row.Unallocated) (hattr : row.AttrFull) (rowWidth : BitVec 16)
    (fill : TextAttribute) (hsmall : rowWidth.toNat ≤ 0x7fff) :
    ∃ row', row.resize rowWidth fill = .ok row' ∧ row'.Shows (blankLine rowWidth.toNat) ∧ row'.AttrFull := by
  have hextent : row.extentToCopy rowWidth.toNat = .ok (width ([] : Line), BitVec.ofNat 16 (Line.text []).length) := by
    simp [extentToCopy, h.hasBuffer]
    rfl
  exact resize_eq hextent (Nat.zero_le _) h.chars h.charOffsets (by simpa using hsmall) hattr.wellFormed

end

end Terminal.Buffer
