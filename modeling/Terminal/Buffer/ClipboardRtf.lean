import Mathlib.Data.List.Dedup
import Mathlib.Data.List.Perm.Subperm
import Terminal.Buffer.ClipboardHtml

/-!
# RTF for the clipboard (`TextBuffer::GenRTF`)

The text is read back as RTF: groups, control words with a number and a blank, escaped
characters, the font and color tables, and the characters skipped behind `\u`.
-/

namespace Terminal.Buffer

open Terminal.Parser (Wchar)
open Terminal.Til (intMax utf8)
open List

/-! ## The generator -/

structure RtfBuilder where
  colorTable : List UInt8
  colorMap : List (Colorref × BitVec 32)
  nextColorIndex : BitVec 32
  content : List UInt8

def colorEntry (color : Colorref) : List UInt8 :=
  ascii "\\red" ++ decimal (getRValue color) ++ (ascii "\\green" ++ decimal (getGValue color)) ++
    (ascii "\\blue" ++ decimal (getBValue color)) ++ ascii ";"

def RtfBuilder.colorIndex (b : RtfBuilder) (color : Colorref) : BitVec 32 × RtfBuilder :=
  match b.colorMap.lookup color with
  | some index => (index, b)
  | none => (b.nextColorIndex,
    { b with
      colorTable := b.colorTable ++ colorEntry color
      colorMap := (color, b.nextColorIndex) :: b.colorMap
      nextColorIndex := b.nextColorIndex + 1 })

def RtfBuilder.append (b : RtfBuilder) (bytes : List UInt8) : RtfBuilder := { b with content := b.content ++ bytes }

def appendRTFUnit (codeUnit : Wchar) : List UInt8 :=
  if codeUnit.toNat ≤ 127 then
    if codeUnit = 0x5C ∨ codeUnit = 0x7B ∨ codeUnit = 0x7D then [0x5C, UInt8.ofNat codeUnit.toNat]
    else [UInt8.ofNat codeUnit.toNat]
  else ascii "\\u" ++ decimalInt codeUnit.toInt ++ ascii "?"

def appendRTFText (b : RtfBuilder) (text : List Wchar) : RtfBuilder := b.append (text.flatMap appendRTFUnit)

def colorWords (bkColorIndex fgColorIndex : BitVec 32) : List UInt8 :=
  ascii "\\highlight" ++ decimalInt bkColorIndex.toInt ++ (ascii "\\cf" ++ decimalInt fgColorIndex.toInt ++ ascii " ")

def rtfWriter : Writer RtfBuilder where
  newLine b := b.append (ascii "\\line ")
  text piece b := some (appendRTFText b piece)
  color fg bk b :=
    let (bkColorIndex, b) := b.colorIndex bk
    let (fgColorIndex, b) := b.colorIndex fg
    b.append (colorWords bkColorIndex fgColorIndex)
  char := id

def rtfHeader : List UInt8 := ascii "\x7b\\rtf1\\ansi\\ansicpg1252\\deff0\\nouicompat"

def fontTable (font : List UInt8) : List UInt8 :=
  ascii "\x7b\\fonttbl\x7b\\f0\\fmodern\\fcharset0 " ++ font ++ ascii ";\x7d\x7d"

def rtfStart (fontHeightPoints : Int) (backgroundColor : Colorref) : RtfBuilder where
  colorTable := ascii "\x7b\\colortbl ;" ++ colorEntry backgroundColor
  colorMap := [(backgroundColor, 1)]
  nextColorIndex := 2
  content := ascii "\\viewkind4\\uc4\\pard\\slmult1\\f0\\fs" ++ decimalInt ((2 * fontHeightPoints).bmod (2 ^ 32)) ++
    ascii "\\highlight1 "

def genRTF (convert : List Wchar → List UInt8) (rows : TextAndColor) (fontHeightPoints : Int)
    (fontFaceName : List Wchar) (backgroundColor : Colorref) : List UInt8 :=
  let rtf := do
    let font ← convertToA convert fontFaceName
    let b ← copyRows rtfWriter rows (rtfStart fontHeightPoints backgroundColor)
    return rtfHeader ++ fontTable font ++ (b.colorTable ++ ascii "\x7d") ++ b.content ++ ascii "\x7d"
  rtf.getD []

/-! ## Reading RTF -/

structure Rgb where
  red : Nat := 0
  green : Nat := 0
  blue : Nat := 0
deriving DecidableEq, Repr

def rgb (color : Colorref) : Rgb := ⟨getRValue color, getGValue color, getBValue color⟩

inductive RtfDestination where
  | body
  | fontTable
  | colorTable
deriving DecidableEq, Repr

structure RtfGroup where
  destination : RtfDestination := .body
  /-- how many characters stand in for `\u` -/
  uc : Nat := 1
  cf : Nat := 0
  highlight : Nat := 0
deriving DecidableEq, Repr

inductive RtfMode where
  | text
  | backslash
  | word (name : List UInt8)
  | number (name : List UInt8) (negative : Bool) (digits : List UInt8)
deriving DecidableEq, Repr

/-- A character with its colors, where `none` is the default color. -/
inductive RtfItem where
  | char (unit : Wchar) (fg bk : Option Rgb)
  | line
deriving DecidableEq, Repr

structure RtfReader where
  mode : RtfMode := .text
  groups : List RtfGroup := []
  /-- how many characters or control words are still to be skipped -/
  skip : Nat := 0
  entry : Option Rgb := none
  colors : List (Option Rgb) := []
  seen : List RtfItem := []
deriving DecidableEq, Repr

variable (r : RtfReader)

def RtfReader.group : RtfGroup := r.groups.headD {}

def RtfReader.setGroup (g : RtfGroup) : RtfReader := { r with groups := g :: r.groups.tail }

def RtfReader.color (index : Nat) : Option Rgb := r.colors[index]?.join

def RtfReader.put (unit : Wchar) : RtfReader :=
  match r.group.destination with
  | .body => { r with seen := r.seen ++ [.char unit (r.color r.group.cf) (r.color r.group.highlight)] }
  | .fontTable => r
  | .colorTable => if unit = 0x3B then { r with colors := r.colors ++ [r.entry], entry := none } else r

def RtfReader.readChar (b : UInt8) : RtfReader :=
  if r.skip ≠ 0 then { r with skip := r.skip - 1 } else r.put (BitVec.ofNat 16 b.toNat)

inductive RtfWord where
  | u
  | uc
  | cf
  | highlight
  | fonttbl
  | colortbl
  | red
  | green
  | blue
  | line
  | other
deriving DecidableEq, Repr

def rtfWord (name : List UInt8) : RtfWord :=
  if name = ascii "u" then .u
  else if name = ascii "uc" then .uc
  else if name = ascii "cf" then .cf
  else if name = ascii "highlight" then .highlight
  else if name = ascii "fonttbl" then .fonttbl
  else if name = ascii "colortbl" then .colortbl
  else if name = ascii "red" then .red
  else if name = ascii "green" then .green
  else if name = ascii "blue" then .blue
  else if name = ascii "line" then .line
  else .other

def RtfReader.obey (n : Int) : RtfWord → RtfReader
  | .u => { r.put (BitVec.ofInt 16 n) with skip := r.group.uc }
  | .uc => r.setGroup { r.group with uc := n.toNat }
  | .cf => r.setGroup { r.group with cf := n.toNat }
  | .highlight => r.setGroup { r.group with highlight := n.toNat }
  | .fonttbl => r.setGroup { r.group with destination := .fontTable }
  | .colortbl => r.setGroup { r.group with destination := .colorTable }
  | .red => { r with entry := some { r.entry.getD {} with red := n.toNat } }
  | .green => { r with entry := some { r.entry.getD {} with green := n.toNat } }
  | .blue => { r with entry := some { r.entry.getD {} with blue := n.toNat } }
  | .line => { r with seen := r.seen ++ [.line] }
  | .other => r

def RtfReader.control (name : List UInt8) (n : Int) : RtfReader :=
  if r.skip ≠ 0 then { r with skip := r.skip - 1 } else r.obey n (rtfWord name)

def isLetter (b : UInt8) : Bool := (0x61 ≤ b.toNat && b.toNat ≤ 0x7A) || (0x41 ≤ b.toNat && b.toNat ≤ 0x5A)

def RtfReader.readText (b : UInt8) : Option RtfReader :=
  if b = 0x5C then some { r with mode := .backslash }
  else if b = 0x7B then some { r with groups := r.group :: r.groups, skip := 0 }
  else if b = 0x7D then
    match r.groups with
    | [] => none
    | _ :: groups => some { r with groups := groups, skip := 0 }
  else if b = 0x0D ∨ b = 0x0A then some r
  else some (r.readChar b)

def paramValue (negative : Bool) (digits : List UInt8) : Int :=
  if negative then -(decimalValue digits : Int) else decimalValue digits

/-- The byte behind a control word. A blank belongs to the word. -/
def RtfReader.endWord (name : List UInt8) (n : Int) (b : UInt8) : Option RtfReader :=
  let r := RtfReader.control { r with mode := .text } name n
  if b = 0x20 then some r else r.readText b

def RtfReader.readByte (b : UInt8) : Option RtfReader :=
  match r.mode with
  | .text => r.readText b
  | .backslash =>
    if isLetter b then some { r with mode := .word [b] }
    else if b = 0x5C ∨ b = 0x7B ∨ b = 0x7D then some (RtfReader.readChar { r with mode := .text } b)
    else none
  | .word name =>
    if isLetter b then some { r with mode := .word (name ++ [b]) }
    else if b = 0x2D then some { r with mode := .number name true [] }
    else if isDigit b then some { r with mode := .number name false [b] }
    else r.endWord name 0 b
  | .number name negative digits =>
    if isDigit b then some { r with mode := .number name negative (digits ++ [b]) }
    else r.endWord name (paramValue negative digits) b

def RtfReader.read (bytes : List UInt8) : Option RtfReader := bytes.foldlM readByte r

def readRtf (bytes : List UInt8) : Option (List RtfItem) := do
  let r ← RtfReader.read {} bytes
  if r.mode = .text ∧ r.groups = [] then some r.seen else none

theorem RtfReader.read_append (bytes more : List UInt8) :
    r.read (bytes ++ more) = (r.read bytes).bind fun r => r.read more :=
  foldlM_append

open RtfReader

variable {r : RtfReader}

theorem RtfReader.read_cons {r' : RtfReader} {b : UInt8} (h : r.readByte b = some r') (bytes : List UInt8) :
    r.read (b :: bytes) = r'.read bytes := by
  rw [RtfReader.read, foldlM_cons, h]
  rfl

theorem RtfReader.read_run (mode : List UInt8 → RtfMode) {p : UInt8 → Bool}
    (hbyte : ∀ (r : RtfReader) start b, r.mode = mode start → p b = true →
      r.readByte b = some { r with mode := mode (start ++ [b]) })
    {start bytes : List UInt8} (hmode : r.mode = mode start) (hbytes : ∀ b ∈ bytes, p b = true) :
    r.read bytes = some { r with mode := mode (start ++ bytes) } := by
  induction bytes generalizing r start with
  | nil =>
    rw [append_nil, ← hmode]
    rfl
  | cons b bytes ih =>
    rw [read_cons (hbyte r start b hmode (hbytes b mem_cons_self)),
      ih rfl fun b hb => hbytes b (mem_cons_of_mem _ hb), append_assoc, singleton_append]

/-! ## Control words -/

theorem paramValue_decimal (n : Int) : paramValue (decide (n < 0)) (decimal n.natAbs) = n := by
  unfold paramValue
  rw [decimalValue_decimal]
  split
  next h => rw [decide_eq_true_eq] at h; omega
  next h => rw [decide_eq_true_eq] at h; omega

theorem RtfReader.read_digits {name digits : List UInt8} {negative : Bool}
    (hmode : r.mode = .number name negative digits)
    {more : List UInt8} (hmore : ∀ b ∈ more, isDigit b = true) :
    r.read more = some { r with mode := .number name negative (digits ++ more) } := by
  refine read_run (.number name negative) (fun r start b hmode hdigit => ?_) hmode hmore
  rw [readByte, hmode]
  exact if_pos hdigit

theorem RtfReader.read_decimalInt {name : List UInt8} (hmode : r.mode = .word name) (n : Int) :
    r.read (decimalInt n) = some { r with mode := .number name (decide (n < 0)) (decimal n.natAbs) } := by
  have hdigits : ∀ b ∈ decimal n.natAbs, isDigit b = true := fun b hb => isDigit_of_mem_decimal hb
  unfold decimalInt
  split
  next hneg =>
    have hbyte : r.readByte 0x2D = some { r with mode := .number name true [] } := by
      rw [readByte, hmode]
      rfl
    rw [read_cons hbyte, decide_eq_true hneg, read_digits rfl hdigits, nil_append]
  next hneg =>
    obtain ⟨b, more, hdecimal⟩ := exists_cons_of_ne_nil (decimal_ne_nil n.natAbs)
    rw [hdecimal] at hdigits ⊢
    have hdigit := hdigits b mem_cons_self
    have hletter : isLetter b = false := by
      unfold isDigit at hdigit
      unfold isLetter
      simp only [Bool.and_eq_true, decide_eq_true_eq] at hdigit
      simp only [Bool.or_eq_false_iff, Bool.and_eq_false_iff, decide_eq_false_iff_not]
      omega
    have hminus : b ≠ 0x2D := by
      rintro rfl
      exact absurd hdigit (by decide)
    have hbyte : r.readByte b = some { r with mode := .number name false [b] } := by
      rw [readByte, hmode]
      simp [hletter, hminus, hdigit]
    rw [read_cons hbyte, decide_eq_false hneg, read_digits rfl fun b hb => hdigits b (mem_cons_of_mem _ hb),
      singleton_append]

theorem RtfReader.read_word (hmode : r.mode = .text) {name : List UInt8} (hname : name ≠ [] ∧ name.all isLetter) :
    r.read (0x5C :: name) = some { r with mode := .word name } := by
  obtain ⟨hne, hletters⟩ := hname
  rw [all_eq_true] at hletters
  obtain ⟨b, more, rfl⟩ := exists_cons_of_ne_nil hne
  have hslash : r.readByte 0x5C = some { r with mode := .backslash } := by
    rw [readByte, hmode]
    rfl
  have hbyte : readByte { r with mode := .backslash } b = some { r with mode := .word [b] } :=
    if_pos (hletters b mem_cons_self)
  rw [read_cons hslash, read_cons hbyte]
  change _ = some { r with mode := .word ([b] ++ more) }
  refine read_run .word (fun r start b hmode hletter => ?_) rfl fun b hb => hletters b (mem_cons_of_mem _ hb)
  rw [readByte, hmode]
  exact if_pos hletter

theorem RtfReader.read_control (hmode : r.mode = .text) {name : List UInt8} (hname : name ≠ [] ∧ name.all isLetter)
    (n : Int) {b : UInt8} (hb : isDigit b = false) (rest : List UInt8) :
    r.read (0x5C :: (name ++ (decimalInt n ++ b :: rest))) = (r.endWord name n b).bind fun r => r.read rest := by
  rw [← cons_append, read_append, read_word hmode hname, Option.bind_some, read_append, read_decimalInt rfl,
    Option.bind_some, RtfReader.read, foldlM_cons]
  have hbyte : readByte { r with mode := .number name (decide (n < 0)) (decimal n.natAbs) } b = r.endWord name n b := by
    show (if isDigit b = true then _ else _) = _
    rw [if_neg (by rw [hb]; exact Bool.false_ne_true), paramValue_decimal]
    rfl
  rw [hbyte]
  rfl

theorem RtfReader.control_mode (hmode : r.mode = .text) (name : List UInt8) (n : Int) :
    (r.control name n).mode = .text := by
  have hput : ∀ unit, (r.put unit).mode = .text := by
    intro unit
    unfold RtfReader.put
    split
    · exact hmode
    · exact hmode
    · split <;> exact hmode
  unfold control
  split
  · exact hmode
  · cases rtfWord name with
    | u => exact hput _
    | _ => exact hmode

theorem RtfReader.read_control_next (hmode : r.mode = .text) {name : List UInt8}
    (hname : name ≠ [] ∧ name.all isLetter) (n : Int) {b : UInt8} (hb : isDigit b = false) (hblank : b ≠ 0x20)
    (rest : List UInt8) : r.read (0x5C :: (name ++ (decimalInt n ++ b :: rest))) =
      (r.control name n).read (b :: rest) := by
  have hself : { r with mode := .text } = r := by rw [← hmode]
  have hbyte : (r.control name n).readByte b = (r.control name n).readText b := by
    unfold readByte
    rw [control_mode hmode]
  rw [read_control hmode hname n hb, endWord, hself, if_neg hblank, RtfReader.read, foldlM_cons, hbyte]
  rfl

theorem RtfReader.read_control_blank (hmode : r.mode = .text) {name : List UInt8}
    (hname : name ≠ [] ∧ name.all isLetter) (n : Int) (rest : List UInt8) :
    r.read (0x5C :: (name ++ (decimalInt n ++ 0x20 :: rest))) = (r.control name n).read rest := by
  have hself : { r with mode := .text } = r := by rw [← hmode]
  rw [read_control hmode hname n rfl, endWord, hself, if_pos rfl, Option.bind_some]

/-! ## The color table -/

theorem decimalInt_natCast (n : Nat) : decimalInt n = decimal n := by
  unfold decimalInt
  rw [if_neg (by omega), Int.natAbs_natCast]

def inColorTable (colors : List (Option Rgb)) (entry : Option Rgb) : RtfReader :=
  ⟨.text, [{ destination := .colorTable }, {}], 0, entry, colors, []⟩

theorem read_colorEntry (colors : List (Option Rgb)) (color : Colorref) :
    (inColorTable colors none).read (colorEntry color) = some (inColorTable (colors ++ [some (rgb color)]) none) := by
  have hred : ascii "\\red" = 0x5C :: ascii "red" := rfl
  have hgreen : ascii "\\green" = 0x5C :: ascii "green" := rfl
  have hblue : ascii "\\blue" = 0x5C :: ascii "blue" := rfl
  have hend : ascii ";" = [0x3B] := rfl
  unfold colorEntry
  rw [hred, hgreen, hblue, hend, ← decimalInt_natCast, ← decimalInt_natCast, ← decimalInt_natCast]
  simp only [append_assoc, cons_append]
  rw [read_control_next rfl (by decide) _ (by decide) (by decide),
    read_control_next rfl (by decide) _ (by decide) (by decide),
    read_control_next rfl (by decide) _ (by decide) (by decide)]
  rfl

/-- Entry 0 is the default color; the map has the indices of the others. -/
structure RtfTable (palette : List Colorref) (b : RtfBuilder) (table : List (Option Rgb)) : Prop where
  reads : RtfReader.read { groups := [{}] } b.colorTable = some (inColorTable table none)
  next : b.nextColorIndex = BitVec.ofNat 32 table.length
  length : table.length = b.colorMap.length + 1
  nodup : (b.colorMap.map Prod.fst).Nodup
  subset : b.colorMap.map Prod.fst ⊆ palette
  entries : ∀ color index, (color, index) ∈ b.colorMap →
    ∃ n, n < table.length ∧ index = BitVec.ofNat 32 n ∧ table[n]? = some (some (rgb color))

variable {palette : List Colorref} {b : RtfBuilder} {table : List (Option Rgb)}

theorem RtfTable.length_le (h : RtfTable palette b table) : table.length ≤ palette.length + 1 := by
  have hle := (subperm_of_subset h.nodup h.subset).length_le
  rw [length_map] at hle
  rw [h.length]
  omega

theorem toInt_ofNat {n : Nat} (h : n ≤ intMax) : (BitVec.ofNat 32 n).toInt = n := by
  unfold intMax at h
  have hnat : (BitVec.ofNat 32 n).toNat = n := by
    rw [BitVec.toNat_ofNat]
    omega
  rw [BitVec.toInt_eq_toNat_of_lt (by omega), hnat]

theorem RtfTable.append (h : RtfTable palette b table) (bytes : List UInt8) : RtfTable palette (b.append bytes) table :=
  { h with }

theorem RtfTable.colorIndex (h : RtfTable palette b table) (hpalette : palette.length < intMax) {color : Colorref}
    (hcolor : color ∈ palette) :
    ∃ table' n, table <+: table' ∧ RtfTable palette (b.colorIndex color).2 table' ∧
      (b.colorIndex color).2.content = b.content ∧ (b.colorIndex color).1.toInt = (n : Nat) ∧
      table'[n]? = some (some (rgb color)) := by
  have hlength := h.length_le
  unfold RtfBuilder.colorIndex
  split
  next index hindex =>
    obtain ⟨front, rest, hmap, -⟩ := lookup_eq_some_iff.mp hindex
    have hmem : (color, index) ∈ b.colorMap := hmap ▸ mem_append_right _ mem_cons_self
    obtain ⟨n, hn, rfl, hentry⟩ := h.entries color index hmem
    exact ⟨table, n, prefix_rfl, h, rfl, toInt_ofNat (by omega), hentry⟩
  next hnone =>
    have hnew : color ∉ b.colorMap.map Prod.fst := by
      intro hmem
      obtain ⟨entry, hentry, rfl⟩ := mem_map.mp hmem
      simpa using lookup_eq_none_iff.mp hnone entry hentry
    have hlast : (table ++ [some (rgb color)])[table.length]? = some (some (rgb color)) := getElem?_concat_length
    refine ⟨table ++ [some (rgb color)], table.length, prefix_append .., ?_, rfl, ?_, hlast⟩
    · constructor
      · rw [read_append, h.reads, Option.bind_some, read_colorEntry]
      · rw [h.next, length_append]
        exact (BitVec.ofNat_add ..).symm
      · rw [length_append, h.length]
        rfl
      · exact nodup_cons.mpr ⟨hnew, h.nodup⟩
      · exact cons_subset.mpr ⟨hcolor, h.subset⟩
      · intro other index hmem
        rw [length_append]
        rcases mem_cons.mp hmem with heq | hmem
        · obtain ⟨rfl, rfl⟩ := Prod.mk.inj heq
          exact ⟨table.length, Nat.lt_succ_self _, h.next, hlast⟩
        · obtain ⟨n, hn, hindex, hentry⟩ := h.entries other index hmem
          exact ⟨n, Nat.lt_succ_of_lt hn, hindex, by rwa [getElem?_append_left hn]⟩
    · rw [h.next]
      exact toInt_ofNat (by omega)

/-! ## The content -/

def RtfItem.isAscii : RtfItem → Bool
  | .char unit _ _ => unit.toNat ≤ 127
  | .line => true

/-- One character stands in for `\u`, and not four. -/
def skipAfter (seen : List RtfItem) : Nat := if seen.getLast?.all RtfItem.isAscii then 0 else 3

def AsciiBefore (items : List RtfItem) : Prop := ∀ item ∈ items.dropLast, item.isAscii = true

instance (items : List RtfItem) : Decidable (AsciiBefore items) :=
  inferInstanceAs (Decidable (∀ item ∈ items.dropLast, item.isAscii = true))

theorem AsciiBefore.skipAfter {seen more : List RtfItem} (h : AsciiBefore (seen ++ more)) (hmore : more ≠ []) :
    skipAfter seen = 0 := by
  unfold AsciiBefore at h
  rw [dropLast_append_of_ne_nil hmore] at h
  apply if_pos
  rw [Option.all_eq_true]
  intro item hitem
  exact h item (mem_append_left _ (mem_of_getLast? hitem))

theorem AsciiBefore.left {items more : List RtfItem} (h : AsciiBefore (items ++ more)) : AsciiBefore items := by
  rcases eq_nil_or_concat more with rfl | ⟨front, last, rfl⟩
  · rwa [append_nil] at h
  · intro item hitem
    apply h
    rw [concat_eq_append, ← append_assoc, dropLast_concat]
    exact mem_append_left _ (mem_of_mem_dropLast hitem)

def inBody (colors : List (Option Rgb)) (cf highlight skip : Nat) (seen : List RtfItem) : RtfReader :=
  ⟨.text, [{ uc := 4, cf := cf, highlight := highlight }], skip, none, colors, seen⟩

theorem read_appendRTFUnit (colors : List (Option Rgb)) (cf highlight : Nat) (seen : List RtfItem) {unit : Wchar}
    (hbreak : isLineBreak unit = false) :
    (inBody colors cf highlight 0 seen).read (appendRTFUnit unit) =
      some (inBody colors cf highlight (if unit.toNat ≤ 127 then 0 else 3)
        (seen ++ [.char unit colors[cf]?.join colors[highlight]?.join])) := by
  unfold appendRTFUnit
  split
  next hascii =>
    have hnat : (UInt8.ofNat unit.toNat).toNat = unit.toNat := by
      rw [UInt8.toNat_ofNat']
      omega
    have hbyte : ∀ b : UInt8, unit ≠ BitVec.ofNat 16 b.toNat → UInt8.ofNat unit.toNat ≠ b := by
      rintro b hne rfl
      rw [hnat, BitVec.ofNat_toNat] at hne
      exact hne rfl
    have hchar : (inBody colors cf highlight 0 seen).readChar (UInt8.ofNat unit.toNat) =
        inBody colors cf highlight 0 (seen ++ [.char unit colors[cf]?.join colors[highlight]?.join]) := by
      rw [readChar, hnat, BitVec.ofNat_toNat]
      rfl
    split
    next hspecial =>
      rcases hspecial with rfl | rfl | rfl <;> rfl
    next hplain =>
      rw [not_or, not_or] at hplain
      simp only [isLineBreak, Bool.or_eq_false_iff, decide_eq_false_iff_not] at hbreak
      show (readText _ _).bind some = _
      rw [readText, if_neg (hbyte 0x5C hplain.1), if_neg (hbyte 0x7B hplain.2.1),
        if_neg (hbyte 0x7D hplain.2.2), if_neg (not_or.mpr ⟨hbyte 0x0D hbreak.1, hbyte 0x0A hbreak.2⟩), hchar]
      rfl
  next hascii =>
    have hword : ascii "\\u" = 0x5C :: ascii "u" := rfl
    have hend : ascii "?" = [0x3F] := rfl
    rw [hword, hend]
    simp only [append_assoc, cons_append]
    rw [read_control_next rfl (by decide) _ (by decide) (by decide)]
    have hcontrol : (inBody colors cf highlight 0 seen).control (ascii "u") unit.toInt =
        inBody colors cf highlight 4 (seen ++ [.char unit colors[cf]?.join colors[highlight]?.join]) := by
      show obey _ _ .u = _
      rw [obey, BitVec.ofInt_toInt]
      rfl
    rw [hcontrol]
    rfl

theorem skipAfter_concat (seen : List RtfItem) (unit : Wchar) (fg bk : Option Rgb) :
    skipAfter (seen ++ [.char unit fg bk]) = if unit.toNat ≤ 127 then 0 else 3 := by
  unfold skipAfter
  simp [RtfItem.isAscii]

def rtfItem (c : ColoredChar) : RtfItem := .char c.wch (some (rgb c.fg)) (some (rgb c.bk))

theorem read_appendRTFText {colors : List (Option Rgb)} {cf highlight : Nat}
    (text : List ColoredChar) (seen : List RtfItem)
    (hcolor : ∀ c ∈ text, colors[cf]?.join = some (rgb c.fg) ∧ colors[highlight]?.join = some (rgb c.bk))
    (hbreak : ∀ c ∈ text, isLineBreak c.wch = false) (hascii : AsciiBefore (seen ++ text.map rtfItem)) :
    (inBody colors cf highlight (skipAfter seen) seen).read ((text.map ColoredChar.wch).flatMap appendRTFUnit) =
      some (inBody colors cf highlight (skipAfter (seen ++ text.map rtfItem)) (seen ++ text.map rtfItem)) := by
  induction text generalizing seen with
  | nil =>
    rw [map_nil, map_nil, append_nil]
    rfl
  | cons c text ih =>
    have hitem : seen ++ (c :: text).map rtfItem = (seen ++ [rtfItem c]) ++ text.map rtfItem := append_cons ..
    have hskip := hascii.skipAfter (cons_ne_nil _ _)
    obtain ⟨hfg, hbk⟩ := hcolor c mem_cons_self
    rw [hitem] at hascii ⊢
    rw [hskip, map_cons, flatMap_cons, read_append,
      read_appendRTFUnit _ _ _ _ (hbreak c mem_cons_self), Option.bind_some, hfg, hbk,
      ← skipAfter_concat seen c.wch (some (rgb c.fg)) (some (rgb c.bk))]
    exact ih (seen ++ [rtfItem c]) (fun d hd => hcolor d (mem_cons_of_mem _ hd))
      (fun d hd => hbreak d (mem_cons_of_mem _ hd)) hascii

/-- The content so far has these items, with any longer table. -/
def RtfShows (palette : List Colorref) (b : RtfBuilder) (cur : Option (Colorref × Colorref)) (seen : List RtfItem) :
    Prop :=
  ∃ table cf highlight, RtfTable palette b table ∧
    (∀ fg bk, cur = some (fg, bk) → table[cf]? = some (some (rgb fg)) ∧ table[highlight]? = some (some (rgb bk))) ∧
    ∀ colors, table <+: colors → RtfReader.read { groups := [{}], colors := colors } b.content =
        some (inBody colors cf highlight (skipAfter seen) seen)

variable {cur : Option (Colorref × Colorref)} {seen : List RtfItem}

theorem join_of_getElem {table colors : List (Option Rgb)} (h : table <+: colors) {n : Nat} {c : Rgb}
    (hn : table[n]? = some (some c)) : colors[n]?.join = some c := by
  obtain ⟨rest, rfl⟩ := h
  obtain ⟨hlt, -⟩ := List.getElem?_eq_some_iff.mp hn
  rw [List.getElem?_append_left hlt, hn]
  rfl

theorem RtfShows.text (h : RtfShows palette b cur seen) {pending : List ColoredChar}
    (hpending : ∀ c ∈ pending, cur = some (c.fg, c.bk)) (hbreak : ∀ c ∈ pending, isLineBreak c.wch = false)
    (hascii : AsciiBefore (seen ++ pending.map rtfItem)) :
    RtfShows palette (appendRTFText b (pending.map ColoredChar.wch)) cur (seen ++ pending.map rtfItem) := by
  obtain ⟨table, cf, highlight, htable, hcur, hread⟩ := h
  refine ⟨table, cf, highlight, htable.append _, hcur, fun colors hcolors => ?_⟩
  have hcolor : ∀ c ∈ pending, colors[cf]?.join = some (rgb c.fg) ∧ colors[highlight]?.join = some (rgb c.bk) := by
    intro c hc
    obtain ⟨hfg, hbk⟩ := hcur _ _ (hpending c hc)
    exact ⟨join_of_getElem hcolors hfg, join_of_getElem hcolors hbk⟩
  show RtfReader.read _ (b.content ++ _) = _
  rw [read_append, hread colors hcolors, Option.bind_some, read_appendRTFText pending seen hcolor hbreak hascii]

theorem RtfShows.newLine (h : RtfShows palette b cur seen) (hskip : skipAfter seen = 0) :
    RtfShows palette (rtfWriter.newLine b) cur (seen ++ [.line]) := by
  obtain ⟨table, cf, highlight, htable, hcur, hread⟩ := h
  refine ⟨table, cf, highlight, htable.append _, hcur, fun colors hcolors => ?_⟩
  have hline : skipAfter (seen ++ [.line]) = 0 := by
    unfold skipAfter
    rw [getLast?_concat]
    rfl
  show RtfReader.read _ (b.content ++ ascii "\\line ") = _
  rw [read_append, hread colors hcolors, Option.bind_some, hskip, hline]
  rfl

theorem RtfShows.color (h : RtfShows palette b cur seen) (hpalette : palette.length < intMax) {fg bk : Colorref}
    (hfg : fg ∈ palette) (hbk : bk ∈ palette) (hskip : skipAfter seen = 0) :
    RtfShows palette (rtfWriter.color fg bk b) (some (fg, bk)) seen := by
  obtain ⟨table, cf, highlight, htable, -, hread⟩ := h
  obtain ⟨table₁, bkIndex, hle₁, htable₁, hcontent₁, hindex₁, hbkEntry⟩ := htable.colorIndex hpalette hbk
  obtain ⟨table₂, fgIndex, hle₂, htable₂, hcontent₂, hindex₂, hfgEntry⟩ := htable₁.colorIndex hpalette hfg
  refine ⟨table₂, fgIndex, bkIndex, htable₂.append _, ?_, fun colors hcolors => ?_⟩
  · rintro _ _ ⟨rfl, rfl⟩
    refine ⟨hfgEntry, ?_⟩
    obtain ⟨hlt, -⟩ := List.getElem?_eq_some_iff.mp hbkEntry
    obtain ⟨rest, rfl⟩ := hle₂
    rwa [List.getElem?_append_left hlt]
  · have hhighlight : ascii "\\highlight" = 0x5C :: ascii "highlight" := rfl
    have hcf : ascii "\\cf" = 0x5C :: ascii "cf" := rfl
    have hend : ascii " " = [0x20] := rfl
    have hcontent : (rtfWriter.color fg bk b).content = b.content ++ colorWords (b.colorIndex bk).1
        ((b.colorIndex bk).2.colorIndex fg).1 := by
      rw [← hcontent₁, ← hcontent₂]
      rfl
    rw [hcontent, read_append, hread colors ((hle₁.trans hle₂).trans hcolors), Option.bind_some, colorWords,
      hindex₁, hindex₂, hhighlight, hcf, hend, hskip]
    simp only [List.append_assoc, List.cons_append]
    rw [read_control_next rfl (by decide) _ (by decide) (by decide), read_control_blank rfl (by decide)]
    rfl

def Copyable (palette : List Colorref) (line : List ColoredChar) : Prop :=
  ∀ c ∈ line, isLineBreak c.wch = false ∧ c.fg ∈ palette ∧ c.bk ∈ palette

theorem RtfShows.line (hpalette : palette.length < intMax) (line pending : List ColoredChar)
    (h : RtfShows palette b cur seen) (hpending : ∀ c ∈ pending, cur = some (c.fg, c.bk))
    (hline : Copyable palette (pending ++ line)) (hascii : AsciiBefore (seen ++ (pending ++ line).map rtfItem)) :
    ∃ b', (lineEvents cur (pending.map ColoredChar.wch) line).foldlM rtfWriter.apply b = some b' ∧
      RtfShows palette b' (lineColor cur line) (seen ++ (pending ++ line).map rtfItem) := by
  have hbreak : ∀ c ∈ pending, isLineBreak c.wch = false := fun c hc => (hline c (mem_append_left _ hc)).1
  induction line generalizing b cur pending seen with
  | nil =>
    rw [append_nil] at hascii ⊢
    exact ⟨_, rfl, h.text hpending hbreak hascii⟩
  | cons c line ih =>
    rw [foldlM_lineEvents_cons, lineColor_cons]
    split
    next hcur =>
      -- the character joins what is not flushed
      have hcons : pending ++ c :: line = pending ++ [c] ++ line := append_cons ..
      rw [hcons] at hline hascii ⊢
      have hjoined : ∀ d ∈ pending ++ [c], cur = some (d.fg, d.bk) := by
        intro d hd
        rcases mem_append.mp hd with hd | hd
        · exact hpending d hd
        · rw [mem_singleton.mp hd]
          exact hcur
      have hrest := ih (pending ++ [c]) h hjoined hline hascii fun d hd => (hline d (mem_append_left _ hd)).1
      rw [map_append] at hrest
      rw [← hcur]
      exact hrest
    next hcur =>
      obtain ⟨hcbreak, hfg, hbk⟩ := hline c (mem_append_right _ mem_cons_self)
      rw [map_append, ← append_assoc] at hascii ⊢
      have htext := h.text hpending hbreak hascii.left
      have hcolor := htext.color hpalette hfg hbk (hascii.skipAfter (cons_ne_nil _ _))
      have hsingle : ∀ d ∈ [c], some (c.fg, c.bk) = some (d.fg, d.bk) := by
        intro d hd
        rw [mem_singleton.mp hd]
      exact ih [c] hcolor hsingle (fun d hd => hline d (mem_append_right _ hd)) hascii
        fun d hd => by rw [mem_singleton.mp hd]; exact hcbreak

def rtfItems (lines : List (List ColoredChar)) : List RtfItem := [RtfItem.line].intercalate (lines.map (·.map rtfItem))

theorem RtfShows.allRows (hpalette : palette.length < intMax) (lines : List (List ColoredChar))
    (h : RtfShows palette b none []) (hlines : ∀ line ∈ lines, Copyable palette line)
    (hascii : AsciiBefore (rtfItems lines)) :
    ∃ b' cur', (events lines).foldlM rtfWriter.apply b = some b' ∧ RtfShows palette b' cur' (rtfItems lines) := by
  have hrows := exists_events AsciiBefore (fun _ _ => AsciiBefore.left)
    (fun _ _ _ _ h hfine => h.newLine (hfine.skipAfter (cons_ne_nil _ _)))
    (fun line hline _ _ _ h hfine => h.line hpalette line [] (forall_mem_nil _) (hlines line hline) hfine) h hascii
  rwa [map_id'] at hrows

/-! ## The whole text -/

theorem rtfShows_start (points : Int) {backgroundColor : Colorref} (h : backgroundColor ∈ palette) :
    RtfShows palette (rtfStart points backgroundColor) none [] := by
  refine ⟨[none, some (rgb backgroundColor)], 0, 1, ⟨?_, rfl, rfl, ?_, ?_, ?_⟩, by rintro _ _ ⟨⟩, fun colors _ => ?_⟩
  · have hstart : RtfReader.read { groups := [{}] } (ascii "\x7b\\colortbl ;") = some (inColorTable [none] none) := rfl
    show RtfReader.read _ (_ ++ colorEntry backgroundColor) = _
    rw [read_append, hstart, Option.bind_some, read_colorEntry]
    rfl
  · exact nodup_singleton _
  · exact cons_subset.mpr ⟨h, nil_subset _⟩
  · intro color index hmem
    obtain ⟨rfl, rfl⟩ := Prod.mk.inj (mem_singleton.mp hmem)
    exact ⟨1, Nat.lt_succ_self 1, rfl, rfl⟩
  · have hstart : RtfReader.read { groups := [{}], colors := colors }
        (ascii "\\viewkind4\\uc4\\pard\\slmult1\\f0\\fs") =
          some { mode := .word (ascii "fs"), groups := [{ uc := 4 }], colors := colors } := rfl
    show RtfReader.read _ (_ ++ decimalInt _ ++ ascii "\\highlight1 ") = _
    rw [read_append, read_append, hstart, Option.bind_some, read_decimalInt rfl, Option.bind_some]
    rfl

theorem RtfReader.read_font (hmode : r.mode = .text) (hskip : r.skip = 0) (hfont : r.group.destination = .fontTable)
    {font : List UInt8} (hbytes : ∀ b ∈ font, b ≠ 0x5C ∧ b ≠ 0x7B ∧ b ≠ 0x7D) : r.read font = some r := by
  induction font with
  | nil => rfl
  | cons b font ih =>
    obtain ⟨hslash, hopen, hclose⟩ := hbytes b mem_cons_self
    have hchar : r.readChar b = r := by
      rw [readChar, if_neg (fun h => h hskip), RtfReader.put, hfont]
    have hbyte : r.readByte b = some r := by
      rw [readByte, hmode]
      rw [readText, if_neg hslash, if_neg hopen, if_neg hclose, hchar, ite_self]
    rw [read_cons hbyte]
    exact ih fun b hb => hbytes b (mem_cons_of_mem _ hb)

theorem read_fontTable {font : List UInt8} (hbytes : ∀ b ∈ font, b ≠ 0x5C ∧ b ≠ 0x7B ∧ b ≠ 0x7D) :
    RtfReader.read {} (rtfHeader ++ fontTable font) = some { groups := [{}] } := by
  have hstart : RtfReader.read {} (rtfHeader ++ ascii "\x7b\\fonttbl\x7b\\f0\\fmodern\\fcharset0 ") =
      some { groups := [{ destination := .fontTable }, { destination := .fontTable }, {}] } := by
    decide +kernel
  rw [fontTable, ← append_assoc, ← append_assoc, read_append, read_append, hstart,
    Option.bind_some, read_font rfl rfl rfl hbytes, Option.bind_some]
  rfl

def colorsOf (backgroundColor : Colorref) (lines : List (List ColoredChar)) : List Colorref :=
  backgroundColor :: lines.flatten.flatMap fun c => [c.fg, c.bk]

theorem copyable_visible (backgroundColor : Colorref) {lines : List (List ColoredChar)} {line : List ColoredChar}
    (hline : line ∈ lines) :
    Copyable (colorsOf backgroundColor (lines.map visible)).dedup (visible line) := by
  intro c hc
  have hmem : c ∈ (lines.map visible).flatten := mem_flatten.mpr ⟨_, mem_map_of_mem hline, hc⟩
  have hcolor : ∀ color ∈ [c.fg, c.bk], color ∈ (colorsOf backgroundColor (lines.map visible)).dedup :=
    fun color hmem' => mem_dedup.mpr (mem_cons_of_mem _ (mem_flatMap.mpr ⟨c, hmem, hmem'⟩))
  have hvisible := mem_takeWhile_imp (show c ∈ line.takeWhile fun c => !isLineBreak c.wch from hc)
  exact ⟨by simpa using hvisible, hcolor _ (by simp), hcolor _ (by simp)⟩

/-- A reader sees the rows up to CR or LF, if a code unit that is not ASCII is the last thing in them. -/
theorem genRTF_reads {convert : List Wchar → List UInt8} (hconvert : ConvertsWide convert)
    (lines : List (List ColoredChar)) (points : Int) (font : List Char) (backgroundColor : Colorref)
    (hfont : ∀ c ∈ font, c ≠ '\\' ∧ c ≠ '\x7b' ∧ c ≠ '\x7d') (hfontSize : (utf8 font).length ≤ intMax)
    (hcolors : (colorsOf backgroundColor (lines.map visible)).dedup.length < intMax)
    (hascii : AsciiBefore (rtfItems (lines.map visible))) :
    readRtf (genRTF convert (.ofLines lines) points (utf16 font) backgroundColor) =
      some (rtfItems (lines.map visible)) := by
  have hbackground : backgroundColor ∈ (colorsOf backgroundColor (lines.map visible)).dedup :=
    mem_dedup.mpr mem_cons_self
  obtain ⟨b, cur, hb, table, cf, highlight, htable, -, hread⟩ :=
    (rtfShows_start points hbackground).allRows hcolors (lines.map visible) (by
      intro line hline
      obtain ⟨line, hmem, rfl⟩ := mem_map.mp hline
      exact copyable_visible backgroundColor hmem) hascii
  have hbytes : ∀ byte ∈ utf8 font, byte ≠ 0x5C ∧ byte ≠ 0x7B ∧ byte ≠ 0x7D := by
    have hnot : ∀ byte : UInt8, ∀ c : Char, byte.toNat < 128 → c.toNat = byte.toNat → (∀ d ∈ font, d ≠ c) →
        byte ∉ utf8 font := by
      intro byte c hbyte hc hne
      exact notMem_utf8 hbyte fun d hd heq => hne d hd (Char.toNat_inj.mp (heq.trans hc.symm))
    intro byte hbyte
    refine ⟨?_, ?_, ?_⟩
    · rintro rfl
      exact hnot _ '\\' (by decide) rfl (fun d hd => (hfont d hd).1) hbyte
    · rintro rfl
      exact hnot _ '\x7b' (by decide) rfl (fun d hd => (hfont d hd).2.1) hbyte
    · rintro rfl
      exact hnot _ '\x7d' (by decide) rfl (fun d hd => (hfont d hd).2.2) hbyte
  have hgen : genRTF convert (.ofLines lines) points (utf16 font) backgroundColor =
      rtfHeader ++ fontTable (utf8 font) ++ (b.colorTable ++ ascii "\x7d") ++ b.content ++ ascii "\x7d" := by
    unfold genRTF
    rw [convertToA_utf16 hconvert hfontSize, copyRows_ofLines (fun b => by
      show some (b.append []) = some b
      rw [RtfBuilder.append, append_nil]), hb]
    rfl
  have htableEnd : (inColorTable table none).read (ascii "\x7d") = some { groups := [{}], colors := table } := rfl
  unfold readRtf
  rw [hgen]
  simp only [read_append, read_fontTable hbytes, htable.reads, htableEnd, hread table prefix_rfl, Option.bind_some]
  rfl

theorem genRTF_reads_two :
    let lines : List (List ColoredChar) := [[⟨0x61, 255, 0⟩, ⟨0x7B, 255, 0⟩, ⟨0x0D, 0, 0⟩], [⟨0xE9, 0, 65280⟩]]
    readRtf (genRTF utf8OfWide (.ofLines lines) 12 (utf16 ['M']) 0) =
      some [.char 0x61 (some ⟨255, 0, 0⟩) (some ⟨0, 0, 0⟩), .char 0x7B (some ⟨255, 0, 0⟩) (some ⟨0, 0, 0⟩), .line,
        .char 0xE9 (some ⟨0, 0, 0⟩) (some ⟨0, 255, 0⟩)] :=
  genRTF_reads convertsWide_utf8OfWide _ 12 ['M'] 0 (by simp) (by decide) (by decide) (by decide)

/-- A CR inside of a row, three characters skipped behind `\u233?`, a brace in the font name. -/
theorem genRTF_changes :
    readRtf (genRTF utf8OfWide (.ofLines [[⟨0x61, 0, 0⟩, ⟨0x0D, 0, 0⟩, ⟨0x62, 0, 0⟩]]) 12 (utf16 []) 0) =
        some [rtfItem ⟨0x61, 0, 0⟩] ∧
      readRtf (genRTF utf8OfWide (.ofLines [[⟨0xE9, 0, 0⟩, ⟨0x61, 0, 0⟩, ⟨0x62, 0, 0⟩, ⟨0x63, 0, 0⟩, ⟨0x64, 0, 0⟩]]) 12
        (utf16 []) 0) = some [rtfItem ⟨0xE9, 0, 0⟩, rtfItem ⟨0x64, 0, 0⟩] ∧
      readRtf (genRTF utf8OfWide (.ofLines []) 12 (utf16 ['\x7b']) 0) = none := by
  refine ⟨?_, ?_, ?_⟩
  · decide +kernel
  · decide +kernel
  · decide +kernel

end Terminal.Buffer
