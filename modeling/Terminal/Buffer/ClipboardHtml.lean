import Mathlib.Data.List.TakeWhile
import Terminal.Buffer.Clipboard
import Terminal.Til.U8u16

/-!
# HTML for the clipboard (`TextBuffer::GenHTML`)

The text is read back as HTML: tags with quoted attribute values, comments, the open elements,
and the entities that stand for characters.
-/

namespace Terminal.Buffer

open Terminal.Parser (Wchar)
open Terminal.Til (intMax utf8 utf16Char)
open List

/-! ## The generator -/

variable (convert : List Wchar → List UInt8)

/-- `ConvertToA` with UTF-8; `none` is an exception. -/
def convertToA (source : List Wchar) : Option (List UInt8) :=
  if source = [] then some []
  else if source.length > intMax then none
  else if convert source = [] ∨ (convert source).length > intMax then none
  else some (convert source)

def hexDigit (n : Nat) : UInt8 := UInt8.ofNat (if n < 10 then 0x30 + n else 0x37 + n)

def hexByte (n : Nat) : List UInt8 := [hexDigit (n / 16 % 16), hexDigit (n % 16)]

def colorToHexString (color : Colorref) : List UInt8 :=
  0x23 :: (hexByte (getRValue color) ++ hexByte (getGValue color) ++ hexByte (getBValue color))

structure HtmlBuilder where
  out : List UInt8
  hasWrittenAnyText : Bool := false

def escapeHtml (c : UInt8) : List UInt8 :=
  if c = 0x3C then ascii "&lt;" else if c = 0x3E then ascii "&gt;" else if c = 0x26 then ascii "&amp;" else [c]

def HtmlBuilder.append (b : HtmlBuilder) (bytes : List UInt8) : HtmlBuilder := { b with out := b.out ++ bytes }

def spanTag (fg bk : Colorref) : List UInt8 :=
  ascii "<SPAN STYLE=\"" ++ (ascii "color:" ++ colorToHexString fg ++ ascii ";background-color:" ++
    colorToHexString bk ++ ascii ";") ++ ascii "\">"

def htmlWriter : Writer HtmlBuilder where
  newLine b := b.append (ascii "<BR>")
  text piece b := (convertToA convert piece).map fun bytes => b.append (bytes.flatMap escapeHtml)
  color fg bk b := (b.append (if b.hasWrittenAnyText then ascii "</SPAN>" else [])).append (spanTag fg bk)
  char b := { b with hasWrittenAnyText := true }

def htmlHeader : List UInt8 := ascii "<!DOCTYPE><HTML><HEAD></HEAD><BODY>"

def htmlFooter : List UInt8 := ascii "</BODY></HTML>"

def startFragmentMarker : List UInt8 := ascii "<!--StartFragment -->"

def endFragmentMarker : List UInt8 := ascii "<!--EndFragment -->"

def divTag (fontHeightPoints : Int) (fontFaceName : List UInt8) (backgroundColor : Colorref) : List UInt8 :=
  ascii "<DIV STYLE=\"" ++
    (ascii "display:inline-block;white-space:pre;background-color:" ++ colorToHexString backgroundColor ++
      ascii ";font-family:'" ++ fontFaceName ++ ascii "',monospace;font-size:" ++ decimalInt fontHeightPoints ++
      ascii "pt;padding:4px;") ++ ascii "\">"

def setw10 (n : Nat) : List UInt8 := List.replicate (10 - (decimal n).length) 0x30 ++ decimal n

def clipboardHeaderSize : Nat := 157

structure ClipHeader where
  startHtml : Nat
  endHtml : Nat
  startFragment : Nat
  endFragment : Nat
  startSelection : Nat
  endSelection : Nat
deriving DecidableEq, Repr

def clipHeader (h : ClipHeader) : List UInt8 :=
  ascii "Version:0.9\r\n" ++ (ascii "StartHTML:" ++ setw10 h.startHtml ++ ascii "\r\n") ++
    (ascii "EndHTML:" ++ setw10 h.endHtml ++ ascii "\r\n") ++
    (ascii "StartFragment:" ++ setw10 h.startFragment ++ ascii "\r\n") ++
    (ascii "EndFragment:" ++ setw10 h.endFragment ++ ascii "\r\n") ++
    (ascii "StartSelection:" ++ setw10 h.startSelection ++ ascii "\r\n") ++
    (ascii "EndSelection:" ++ setw10 h.endSelection ++ ascii "\r\n")

def htmlText (rows : TextAndColor) (fontHeightPoints : Int)
    (fontFaceName : List Wchar) (backgroundColor : Colorref) : Option (List UInt8) := do
  let font ← convertToA convert fontFaceName
  let b : HtmlBuilder := { out := htmlHeader ++ startFragmentMarker ++ divTag fontHeightPoints font backgroundColor }
  let b ← copyRows (htmlWriter convert) rows b
  return b.out ++ (if b.hasWrittenAnyText then ascii "</SPAN>" else []) ++ ascii "</DIV>" ++ endFragmentMarker ++
    htmlFooter

def genHTML (rows : TextAndColor) (fontHeightPoints : Int)
    (fontFaceName : List Wchar) (backgroundColor : Colorref) : List UInt8 :=
  match htmlText convert rows fontHeightPoints fontFaceName backgroundColor with
  | none => []
  | some text =>
    let htmlEndPos := clipboardHeaderSize + text.length
    let fragStartPos := clipboardHeaderSize + htmlHeader.length
    let fragEndPos := htmlEndPos - htmlFooter.length
    clipHeader ⟨clipboardHeaderSize, htmlEndPos, fragStartPos, fragEndPos, fragStartPos, fragEndPos⟩ ++ text

/-! ## Reading the header -/

def expect (text bytes : List UInt8) : Option (List UInt8) :=
  if text <+: bytes then some (bytes.drop text.length) else none

def readField (name : String) (bytes : List UInt8) : Option (Nat × List UInt8) := do
  let bytes ← expect (ascii name) bytes
  let digits := bytes.take 10
  if digits.length = 10 ∧ digits.all isDigit then
    let rest ← expect (ascii "\r\n") (bytes.drop 10)
    return (decimalValue digits, rest)
  else none

def readClipHeader (bytes : List UInt8) : Option (ClipHeader × List UInt8) := do
  let bytes ← expect (ascii "Version:0.9\r\n") bytes
  let (startHtml, bytes) ← readField "StartHTML:" bytes
  let (endHtml, bytes) ← readField "EndHTML:" bytes
  let (startFragment, bytes) ← readField "StartFragment:" bytes
  let (endFragment, bytes) ← readField "EndFragment:" bytes
  let (startSelection, bytes) ← readField "StartSelection:" bytes
  let (endSelection, bytes) ← readField "EndSelection:" bytes
  return (⟨startHtml, endHtml, startFragment, endFragment, startSelection, endSelection⟩, bytes)

/-! ## Reading HTML -/

inductive HtmlMode where
  | text
  | tag (content : List UInt8) (quoted : Bool)
  | entity (name : List UInt8)
deriving DecidableEq, Repr

inductive HtmlItem where
  | byte (b : UInt8)
  | lineBreak
deriving DecidableEq, Repr

structure HtmlReader where
  mode : HtmlMode := .text
  /-- the open elements, the innermost first -/
  stack : List (List UInt8) := []
  seen : List HtmlItem := []
deriving DecidableEq, Repr

/-- An end tag has to be that of the innermost open element. -/
def HtmlReader.endTag (r : HtmlReader) : List UInt8 → Option HtmlReader
  | 0x21 :: _ => some { r with mode := .text }
  | 0x2F :: name =>
    match r.stack with
    | [] => none
    | top :: stack => if top = name then some { r with mode := .text, stack := stack } else none
  | content =>
    let name := content.takeWhile (· ≠ 0x20)
    if name = ascii "BR" then some { r with mode := .text, seen := r.seen ++ [.lineBreak] }
    else some { r with mode := .text, stack := name :: r.stack }

def entityByte (name : List UInt8) : Option UInt8 :=
  if name = ascii "lt" then some 0x3C else if name = ascii "gt" then some 0x3E
  else if name = ascii "amp" then some 0x26 else none

def HtmlReader.readByte (r : HtmlReader) (b : UInt8) : Option HtmlReader :=
  match r.mode with
  | .text =>
    if b = 0x3C then some { r with mode := .tag [] false }
    else if b = 0x26 then some { r with mode := .entity [] }
    else some { r with seen := r.seen ++ [.byte b] }
  | .tag content quoted =>
    if b = 0x22 then some { r with mode := .tag (content ++ [b]) (!quoted) }
    else if b = 0x3E ∧ quoted = false then r.endTag content
    else some { r with mode := .tag (content ++ [b]) quoted }
  | .entity name =>
    if b = 0x3B then (entityByte name).map fun c => { r with mode := .text, seen := r.seen ++ [.byte c] }
    else some { r with mode := .entity (name ++ [b]) }

def HtmlReader.read (r : HtmlReader) (bytes : List UInt8) : Option HtmlReader := bytes.foldlM readByte r

theorem HtmlReader.read_append (r : HtmlReader) (bytes more : List UInt8) :
    r.read (bytes ++ more) = (r.read bytes).bind fun r => r.read more :=
  foldlM_append

open HtmlReader

theorem HtmlReader.read_escapeHtml (stack : List (List UInt8)) (seen : List HtmlItem) (c : UInt8) :
    HtmlReader.read ⟨.text, stack, seen⟩ (escapeHtml c) = some ⟨.text, stack, seen ++ [.byte c]⟩ := by
  unfold escapeHtml
  split_ifs with hlt hgt hamp
  · rw [hlt]
    rfl
  · rw [hgt]
    rfl
  · rw [hamp]
    rfl
  · simp [HtmlReader.read, readByte, hlt, hamp]

theorem HtmlReader.read_text (stack : List (List UInt8)) (bytes : List UInt8) (seen : List HtmlItem) :
    HtmlReader.read ⟨.text, stack, seen⟩ (bytes.flatMap escapeHtml) = some ⟨.text, stack, seen ++ bytes.map .byte⟩ := by
  induction bytes generalizing seen with
  | nil => rw [map_nil, append_nil]; rfl
  | cons c bytes ih =>
    rw [flatMap_cons, read_append, read_escapeHtml, Option.bind_some, ih, map_cons, append_assoc, singleton_append]

theorem HtmlReader.read_quoted {bytes : List UInt8} (h : (0x22 : UInt8) ∉ bytes) (content : List UInt8)
    (stack : List (List UInt8)) (seen : List HtmlItem) :
    HtmlReader.read ⟨.tag content true, stack, seen⟩ bytes = some ⟨.tag (content ++ bytes) true, stack, seen⟩ := by
  induction bytes generalizing content with
  | nil => rw [append_nil]; rfl
  | cons b bytes ih =>
    rw [mem_cons, not_or] at h
    have hbyte : readByte ⟨.tag content true, stack, seen⟩ b = some ⟨.tag (content ++ [b]) true, stack, seen⟩ := by
      simp [readByte, Ne.symm h.1]
    rw [HtmlReader.read, foldlM_cons, hbyte]
    show HtmlReader.read _ bytes = _
    rw [ih h.2, append_assoc, singleton_append]

theorem HtmlReader.read_styled (name : List UInt8) {start content style : List UInt8} {stack : List (List UInt8)}
    {seen : List HtmlItem} (hstart : HtmlReader.read ⟨.text, stack, seen⟩ start = some ⟨.tag content true, stack, seen⟩)
    (hend : ∀ style, HtmlReader.read ⟨.tag (content ++ style) true, stack, seen⟩
      (ascii "\">") = some ⟨.text, name :: stack, seen⟩)
    (hstyle : (0x22 : UInt8) ∉ style) :
    HtmlReader.read ⟨.text, stack, seen⟩ (start ++ style ++ ascii "\">") = some ⟨.text, name :: stack, seen⟩ := by
  rw [read_append, read_append, hstart, Option.bind_some, read_quoted hstyle, Option.bind_some, hend]

/-! ## Styles have no quotation marks -/

theorem hexDigit_ne_quote (n : Nat) (h : n < 16) : hexDigit n ≠ 0x22 := by
  have hall : ∀ i : Fin 16, hexDigit i ≠ 0x22 := by decide
  exact hall ⟨n, h⟩

theorem quote_notMem_colorToHexString (color : Colorref) : (0x22 : UInt8) ∉ colorToHexString color := by
  have hdigit : ∀ n, (0x22 : UInt8) ≠ hexDigit (n % 16) :=
    fun n => (hexDigit_ne_quote _ (Nat.mod_lt n (by decide))).symm
  unfold colorToHexString hexByte
  simp [hdigit]

theorem quote_notMem_decimalInt (n : Int) : (0x22 : UInt8) ∉ decimalInt n := by
  have hnat : ∀ m : Nat, (0x22 : UInt8) ∉ decimal m := by
    intro m hmem
    exact absurd (isDigit_of_mem_decimal hmem) (by decide)
  unfold decimalInt
  split
  · simp [hnat]
  · exact hnat _

theorem notMem_utf8 {text : List Char} {b : UInt8} (hb : b.toNat < 128) (h : ∀ c ∈ text, c.toNat ≠ b.toNat) :
    b ∉ utf8 text := by
  have hhigh : ∀ m, 128 ≤ m → m < 256 → b ≠ UInt8.ofNat m := by
    intro m hm hm' heq
    have hnat := congrArg UInt8.toNat heq
    rw [UInt8.toNat_ofNat'] at hnat
    omega
  intro hmem
  obtain ⟨c, hc, hbyte⟩ := mem_flatMap.mp hmem
  unfold String.utf8EncodeChar at hbyte
  dsimp only at hbyte
  split at hbyte
  next hle =>
    rw [mem_singleton] at hbyte
    have hnat := congrArg UInt8.toNat hbyte
    rw [UInt8.toNat_ofNat', Nat.mod_eq_of_lt (by omega)] at hnat
    exact h c hc hnat.symm
  next hle =>
    split at hbyte
    · simp only [mem_cons, not_mem_nil, or_false] at hbyte
      rcases hbyte with heq | heq <;> exact hhigh _ (by omega) (by omega) heq
    · split at hbyte
      · simp only [mem_cons, not_mem_nil, or_false] at hbyte
        rcases hbyte with heq | heq | heq <;> exact hhigh _ (by omega) (by omega) heq
      · simp only [mem_cons, not_mem_nil, or_false] at hbyte
        rcases hbyte with heq | heq | heq | heq <;> exact hhigh _ (by omega) (by omega) heq

theorem quote_notMem_utf8 {text : List Char} (h : '"' ∉ text) : (0x22 : UInt8) ∉ utf8 text :=
  notMem_utf8 (by decide) fun c hc heq => h (Char.toNat_inj.mp (show c.toNat = '"'.toNat from heq) ▸ hc)

/-! ## The header is read as it was written -/

theorem length_setw10 {n : Nat} (h : n < 10 ^ 10) : (setw10 n).length = 10 := by
  have hle : (decimal n).length ≤ 10 := by
    rw [decimal, length_map]
    exact (Nat.length_toDigits_le_iff (by decide) (by decide)).mpr h
  rw [setw10, length_append, length_replicate]
  omega

theorem decimalValue_setw10 (n : Nat) : decimalValue (setw10 n) = n := by
  have hzeros : ∀ k, decimalValue (replicate k 0x30) = 0 := by
    intro k
    induction k with
    | zero => rfl
    | succ k ih => exact ih
  rw [setw10, decimalValue, foldl_append]
  show foldl _ (decimalValue _) _ = n
  rw [hzeros]
  exact decimalValue_decimal n

theorem all_isDigit_setw10 (n : Nat) : (setw10 n).all isDigit = true := by
  rw [all_eq_true]
  intro b hb
  rcases mem_append.mp hb with hzero | hdigit
  · rw [eq_of_mem_replicate hzero]
    rfl
  · exact isDigit_of_mem_decimal hdigit

theorem expect_append (text rest : List UInt8) : expect text (text ++ rest) = some rest := by
  unfold expect
  rw [if_pos (prefix_append ..), drop_left]

theorem readField_eq (name : String) {n : Nat} (h : n < 10 ^ 10) (rest : List UInt8) :
    readField name (ascii name ++ setw10 n ++ ascii "\r\n" ++ rest) = some (n, rest) := by
  have htake : (setw10 n ++ (ascii "\r\n" ++ rest)).take 10 = setw10 n := List.take_left' (length_setw10 h)
  have hdrop : (setw10 n ++ (ascii "\r\n" ++ rest)).drop 10 = ascii "\r\n" ++ rest := drop_left' (length_setw10 h)
  unfold readField
  rw [append_assoc, append_assoc, expect_append]
  show (if _ then _ else _) = _
  rw [htake, hdrop, if_pos ⟨length_setw10 h, all_isDigit_setw10 n⟩, decimalValue_setw10]
  rfl

structure ClipHeader.Fits (h : ClipHeader) : Prop where
  startHtml : h.startHtml < 10 ^ 10
  endHtml : h.endHtml < 10 ^ 10
  startFragment : h.startFragment < 10 ^ 10
  endFragment : h.endFragment < 10 ^ 10
  startSelection : h.startSelection < 10 ^ 10
  endSelection : h.endSelection < 10 ^ 10

theorem readClipHeader_eq {h : ClipHeader} (hfits : h.Fits) (rest : List UInt8) :
    readClipHeader (clipHeader h ++ rest) = some (h, rest) := by
  obtain ⟨h1, h2, h3, h4, h5, h6⟩ := hfits
  unfold readClipHeader clipHeader
  simp only [append_assoc, expect_append, Option.bind_eq_bind, Option.bind_some]
  simp only [← append_assoc (ascii _) (setw10 _), ← append_assoc (ascii _ ++ setw10 _)]
  rw [readField_eq _ h1, Option.bind_some, readField_eq _ h2, Option.bind_some, readField_eq _ h3, Option.bind_some,
    readField_eq _ h4, Option.bind_some, readField_eq _ h5, Option.bind_some, readField_eq _ h6, Option.bind_some]
  rfl

theorem length_clipHeader {h : ClipHeader} (hfits : h.Fits) : (clipHeader h).length = clipboardHeaderSize := by
  obtain ⟨h1, h2, h3, h4, h5, h6⟩ := hfits
  unfold clipHeader
  simp only [length_append, length_setw10 h1, length_setw10 h2, length_setw10 h3, length_setw10 h4,
    length_setw10 h5, length_setw10 h6]
  decide

theorem le_length_clipHeader (h : ClipHeader) : clipboardHeaderSize ≤ (clipHeader h).length := by
  have hsetw : ∀ n, 10 ≤ (setw10 n).length := by
    intro n
    rw [setw10, length_append, length_replicate]
    omega
  have hwords : (ascii "Version:0.9\r\n").length + (ascii "StartHTML:").length + (ascii "EndHTML:").length +
      (ascii "StartFragment:").length + (ascii "EndFragment:").length + (ascii "StartSelection:").length +
      (ascii "EndSelection:").length + 6 * (ascii "\r\n").length + 60 = clipboardHeaderSize := by decide
  have h1 := hsetw h.startHtml
  have h2 := hsetw h.endHtml
  have h3 := hsetw h.startFragment
  have h4 := hsetw h.endFragment
  have h5 := hsetw h.startSelection
  have h6 := hsetw h.endSelection
  unfold clipHeader
  simp only [length_append]
  omega

/-! ## Rows of characters -/

structure StyledChar where
  char : Char
  fg : Colorref
  bk : Colorref
deriving DecidableEq, Repr

def StyledChar.units (c : StyledChar) : List ColoredChar := (utf16Char c.char).map fun wch => ⟨wch, c.fg, c.bk⟩

def units (line : List StyledChar) : List ColoredChar := line.flatMap StyledChar.units

def utf16 (text : List Char) : List Wchar := text.flatMap utf16Char

def chars (line : List StyledChar) : List Char := line.map StyledChar.char

def shown (line : List StyledChar) : List StyledChar := line.takeWhile fun c => c.char ≠ '\r' ∧ c.char ≠ '\n'

/-- `WideCharToMultiByte` takes well-formed UTF-16 to UTF-8. -/
def ConvertsWide : Prop := ∀ text : List Char, convert (utf16 text) = utf8 text

theorem length_utf16_le (text : List Char) : (utf16 text).length ≤ (utf8 text).length := by
  induction text with
  | nil => exact Nat.le_refl 0
  | cons c text ih =>
    have hchar := Til.converts_wideOfUtf8.le c
    rw [Til.wideOfUtf8_utf8, flatMap_singleton] at hchar
    rw [Til.utf8_cons, length_append, utf16, flatMap_cons, length_append]
    exact Nat.add_le_add hchar ih

theorem utf16Char_ne_nil (c : Char) : utf16Char c ≠ [] := by
  unfold utf16Char
  split <;> simp

theorem convertToA_utf16 {convert : List Wchar → List UInt8} (hconvert : ConvertsWide convert) {text : List Char}
    (h : (utf8 text).length ≤ intMax) : convertToA convert (utf16 text) = some (utf8 text) := by
  have hle := length_utf16_le text
  unfold convertToA
  rcases text with _ | ⟨c, text⟩
  · rfl
  · have hne : utf16 (c :: text) ≠ [] := by simp [utf16, utf16Char_ne_nil]
    have hne' : utf8 (c :: text) ≠ [] := Til.utf8_ne_nil (cons_ne_nil c text)
    rw [if_neg hne, if_neg (by omega), hconvert, if_neg (by rintro (h' | h') <;> [exact hne' h'; omega])]

theorem isLineBreak_of_mem_utf16Char {c : Char} {wch : Wchar} (h : wch ∈ utf16Char c) :
    isLineBreak wch = decide (c = '\r' ∨ c = '\n') := by
  have hchar : ∀ d : Char, c = d ↔ c.toNat = d.toNat := fun d => ⟨congrArg Char.toNat, Char.toNat_inj.mp⟩
  have hunit : ∀ d : Wchar, wch = d ↔ wch.toNat = d.toNat := fun d => BitVec.toNat_inj.symm
  have hcr : '\r'.toNat = 13 := rfl
  have hlf : '\n'.toNat = 10 := rfl
  rw [isLineBreak, ← Bool.decide_or, decide_eq_decide, hunit, hunit, hchar, hchar, hcr, hlf]
  show wch.toNat = 13 ∨ wch.toNat = 10 ↔ _
  unfold utf16Char at h
  split at h
  next hsmall =>
    rw [mem_singleton] at h
    rw [h, BitVec.toNat_ofNat, Nat.mod_eq_of_lt (by omega)]
  next hbig =>
    have hvalid : c.toNat < 0x110000 := by
      have := c.valid
      show c.val.toNat < 0x110000
      omega
    simp only [mem_cons, not_mem_nil, or_false] at h
    rcases h with rfl | rfl
    · rw [BitVec.toNat_ofNat]
      omega
    · rw [BitVec.toNat_ofNat]
      omega

theorem visible_units (line : List StyledChar) : visible (units line) = units (shown line) := by
  induction line with
  | nil => rfl
  | cons c line ih =>
    have hunits : ∀ u ∈ c.units, isLineBreak u.wch = decide (c.char = '\r' ∨ c.char = '\n') := by
      intro u hu
      obtain ⟨wch, hwch, rfl⟩ := mem_map.mp hu
      exact isLineBreak_of_mem_utf16Char hwch
    rw [units, flatMap_cons, shown, takeWhile_cons]
    by_cases hbreak : c.char = '\r' ∨ c.char = '\n'
    · rw [if_neg (by simpa using fun h => hbreak.resolve_left h)]
      obtain ⟨u, us, hu⟩ : ∃ u us, c.units = u :: us :=
        exists_cons_of_ne_nil (by simpa [StyledChar.units] using utf16Char_ne_nil c.char)
      have hfirst := hunits u (by rw [hu]; exact mem_cons_self)
      rw [hu, cons_append, visible_cons, hfirst, decide_eq_true hbreak]
      rfl
    · rw [if_pos (by simpa [not_or] using hbreak)]
      have hall : ∀ u ∈ c.units, (!isLineBreak u.wch) = true := by
        intro u hu
        rw [hunits u hu, decide_eq_false hbreak]
        rfl
      rw [visible, takeWhile_append_of_pos hall]
      exact congrArg (c.units ++ ·) ih

/-! ## What the generator has written so far -/

def openElements (hasWrittenAnyText : Bool) : List (List UInt8) :=
  if hasWrittenAnyText then [ascii "SPAN", ascii "DIV"] else [ascii "DIV"]

/-- The fragment so far has these items, and a span open if there is a color. -/
structure Shows (b : HtmlBuilder) (cur : Option (Colorref × Colorref)) (seen : List HtmlItem) : Prop where
  written : b.hasWrittenAnyText = cur.isSome
  fragment : ∃ fragment, b.out = htmlHeader ++ fragment ∧ startFragmentMarker <+: fragment ∧
    HtmlReader.read {} fragment = some ⟨.text, openElements cur.isSome, seen⟩

variable {convert : List Wchar → List UInt8} {b : HtmlBuilder} {cur : Option (Colorref × Colorref)}
  {seen : List HtmlItem}

theorem Shows.append (h : Shows b cur seen) {bytes : List UInt8} {cur' : Option (Colorref × Colorref)}
    {seen' : List HtmlItem} {written : Bool} (hwritten : written = cur'.isSome)
    (hread : HtmlReader.read ⟨.text, openElements cur.isSome, seen⟩ bytes =
      some ⟨.text, openElements cur'.isSome, seen'⟩) :
    Shows ⟨b.out ++ bytes, written⟩ cur' seen' := by
  obtain ⟨fragment, hout, hmarker, hfragment⟩ := h.fragment
  refine ⟨hwritten, fragment ++ bytes, ?_, hmarker.trans (prefix_append ..), ?_⟩
  · rw [hout, append_assoc]
  · rw [read_append, hfragment, Option.bind_some, hread]

theorem Shows.newLine (h : Shows b cur seen) : Shows ((htmlWriter convert).newLine b) cur (seen ++ [.lineBreak]) :=
  h.append h.written rfl

theorem Shows.text (hconvert : ConvertsWide convert) (h : Shows b cur seen) {text : List Char}
    (htext : (utf8 text).length ≤ intMax) :
    ∃ b', (htmlWriter convert).text (utf16 text) b = some b' ∧ Shows b' cur (seen ++ (utf8 text).map .byte) := by
  refine ⟨b.append ((utf8 text).flatMap escapeHtml), ?_, h.append h.written (read_text _ _ _)⟩
  show (convertToA convert (utf16 text)).map _ = _
  rw [convertToA_utf16 hconvert htext]
  rfl

theorem Shows.color (h : Shows b cur seen) (fg bk : Colorref) :
    Shows ((htmlWriter convert).char ((htmlWriter convert).color fg bk b)) (some (fg, bk)) seen := by
  have hstyle : (0x22 : UInt8) ∉ ascii "color:" ++ colorToHexString fg ++ ascii ";background-color:" ++
      colorToHexString bk ++ ascii ";" := by
    have hcolor : (0x22 : UInt8) ∉ ascii "color:" := by decide
    have hbackground : (0x22 : UInt8) ∉ ascii ";background-color:" := by decide
    have hend : (0x22 : UInt8) ∉ ascii ";" := by decide
    simp [quote_notMem_colorToHexString, hcolor, hbackground, hend]
  have hout : (htmlWriter convert).char ((htmlWriter convert).color fg bk b) =
      ⟨b.out ++ ((if b.hasWrittenAnyText then ascii "</SPAN>" else []) ++ spanTag fg bk), true⟩ := by
    rw [← append_assoc]
    rfl
  have hread : HtmlReader.read ⟨.text, openElements cur.isSome, seen⟩
      ((if cur.isSome then ascii "</SPAN>" else []) ++ spanTag fg bk) =
        some ⟨.text, openElements (some (fg, bk)).isSome, seen⟩ := by
    have hclosed : HtmlReader.read ⟨.text, openElements cur.isSome, seen⟩
        (if cur.isSome then ascii "</SPAN>" else []) = some ⟨.text, [ascii "DIV"], seen⟩ := by
      rcases cur with _ | color <;> rfl
    rw [read_append, hclosed, Option.bind_some, spanTag, read_styled (ascii "SPAN") rfl (fun _ => rfl) hstyle]
    rfl
  rw [hout, h.written]
  exact h.append rfl hread

theorem Shows.char (h : Shows b cur seen) (hcur : cur.isSome = true) : (htmlWriter convert).char b = b := by
  have hwritten := h.written
  rw [hcur] at hwritten
  rcases b with ⟨out, written⟩
  dsimp only at hwritten
  rw [hwritten]
  rfl

theorem lineEvents_same {fg bk : Colorref} (us : List Wchar) (pending : List Wchar) (rest : List ColoredChar) :
    lineEvents (some (fg, bk)) pending (us.map (fun wch => ⟨wch, fg, bk⟩) ++ rest) =
      us.map (fun _ => .char) ++ lineEvents (some (fg, bk)) (pending ++ us) rest := by
  induction us generalizing pending with
  | nil => simp
  | cons u us ih =>
    rw [map_cons, cons_append, lineEvents, if_pos rfl, ih, append_assoc]
    rfl

theorem foldlM_char (h : Shows b cur seen) (hcur : cur.isSome = true) (us : List Wchar) :
    (us.map fun _ => CopyEvent.char).foldlM (htmlWriter convert).apply b = some b := by
  induction us with
  | nil => rfl
  | cons u us ih =>
    show foldlM _ ((htmlWriter convert).char b) _ = some b
    rw [h.char hcur, ih]

theorem utf16_append (text more : List Char) : utf16 (text ++ more) = utf16 text ++ utf16 more := flatMap_append

theorem utf16_chars_singleton (c : StyledChar) : utf16 (chars [c]) = utf16Char c.char := flatMap_singleton ..

theorem units_cons (c : StyledChar) (line : List StyledChar) : units (c :: line) = c.units ++ units line :=
  flatMap_cons

theorem lineColor_append (cur : Option (Colorref × Colorref)) (line more : List ColoredChar) :
    lineColor cur (line ++ more) = lineColor (lineColor cur line) more := by
  induction line generalizing cur with
  | nil => rfl
  | cons c line ih => rw [cons_append, lineColor_cons, ih, lineColor_cons]

theorem lineColor_units (cur : Option (Colorref × Colorref)) (c : StyledChar) :
    lineColor cur c.units = some (c.fg, c.bk) := by
  unfold lineColor StyledChar.units
  rw [getLast?_map]
  obtain ⟨front, last, hlast⟩ := (eq_nil_or_concat (utf16Char c.char)).resolve_left (utf16Char_ne_nil c.char)
  rw [hlast, concat_eq_append, getLast?_concat]
  rfl

theorem chars_append (line more : List StyledChar) : chars (line ++ more) = chars line ++ chars more := map_append

def RunsFit (line : List StyledChar) : Prop :=
  ∀ run, run <:+: line → (∀ c ∈ run, ∀ d ∈ run, c.fg = d.fg ∧ c.bk = d.bk) → (utf8 (chars run)).length ≤ intMax

theorem runsFit_of_le {line : List StyledChar} (h : (utf8 (chars line)).length ≤ intMax) : RunsFit line := by
  rintro run ⟨front, rest, rfl⟩ -
  rw [chars_append, chars_append, Til.utf8_append, Til.utf8_append, length_append, length_append] at h
  omega

theorem RunsFit.pending {line pending : List StyledChar} (h : RunsFit (pending ++ line))
    (hpending : ∀ c ∈ pending, cur = some (c.fg, c.bk)) : (utf8 (chars pending)).length ≤ intMax := by
  refine h pending (prefix_append ..).isInfix fun c hc d hd => ?_
  have hsame := (hpending c hc).symm.trans (hpending d hd)
  rw [Option.some.injEq, Prod.mk.injEq] at hsame
  exact hsame

theorem Shows.line (hconvert : ConvertsWide convert) (line pending : List StyledChar) (h : Shows b cur seen)
    (hpending : ∀ c ∈ pending, cur = some (c.fg, c.bk)) (hsize : RunsFit (pending ++ line)) :
    ∃ b', (lineEvents cur (utf16 (chars pending)) (units line)).foldlM (htmlWriter convert).apply b = some b' ∧
      Shows b' (lineColor cur (units line)) (seen ++ (utf8 (chars (pending ++ line))).map .byte) := by
  induction line generalizing b cur pending seen with
  | nil =>
    obtain ⟨b', hb', hshows⟩ := h.text hconvert (hsize.pending hpending)
    rw [append_nil]
    refine ⟨b', ?_, hshows⟩
    show ((htmlWriter convert).text (utf16 (chars pending)) b).bind some = some b'
    rw [hb']
    rfl
  | cons c line ih =>
    have hcolor : lineColor cur (units (c :: line)) = lineColor (some (c.fg, c.bk)) (units line) := by
      rw [units_cons, lineColor_append, lineColor_units]
    rw [hcolor]
    by_cases hcur : cur = some (c.fg, c.bk)
    · rw [append_cons] at hsize ⊢
      subst hcur
      have hjoined : ∀ d ∈ pending ++ [c], some (c.fg, c.bk) = some (d.fg, d.bk) := by
        intro d hd
        rcases mem_append.mp hd with hd | hd
        · exact hpending d hd
        · rw [mem_singleton.mp hd]
      obtain ⟨b', hb', hshows⟩ := ih (pending ++ [c]) h hjoined hsize
      refine ⟨b', ?_, hshows⟩
      rw [units_cons, StyledChar.units, lineEvents_same, foldlM_append, foldlM_char h rfl]
      rw [chars_append, utf16_append, utf16_chars_singleton] at hb'
      exact hb'
    · have hrest : RunsFit ([c] ++ line) := fun run hrun => hsize run (hrun.trans (suffix_append ..).isInfix)
      have hsingle : ∀ d ∈ [c], some (c.fg, c.bk) = some (d.fg, d.bk) := by
        intro d hd
        rw [mem_singleton.mp hd]
      obtain ⟨b₁, hb₁, hshows₁⟩ := h.text hconvert (hsize.pending hpending)
      have hshows₂ := @Shows.color convert _ _ _ hshows₁ c.fg c.bk
      obtain ⟨b', hb', hshows⟩ := ih [c] hshows₂ hsingle hrest
      refine ⟨b', ?_, ?_⟩
      · obtain ⟨u, us, hu⟩ := exists_cons_of_ne_nil (utf16Char_ne_nil c.char)
        rw [units_cons, StyledChar.units, hu, map_cons, cons_append, lineEvents, if_neg hcur, lineEvents_same]
        show ((htmlWriter convert).text (utf16 (chars pending)) b).bind _ = _
        rw [hb₁]
        show foldlM _ ((htmlWriter convert).char ((htmlWriter convert).color c.fg c.bk b₁)) _ = _
        rw [foldlM_append, foldlM_char hshows₂ rfl]
        rw [utf16_chars_singleton, hu] at hb'
        exact hb'
      · rw [append_assoc, ← map_append, ← Til.utf8_append, ← chars_append] at hshows
        exact hshows

def lineItems (line : List StyledChar) : List HtmlItem := (utf8 (chars line)).map .byte

def htmlItems (lines : List (List StyledChar)) : List HtmlItem := [HtmlItem.lineBreak].intercalate (lines.map lineItems)

theorem Shows.allRows (hconvert : ConvertsWide convert) (lines : List (List StyledChar)) (h : Shows b none [])
    (hsize : ∀ line ∈ lines, RunsFit line) :
    ∃ b' cur', (events (lines.map units)).foldlM (htmlWriter convert).apply b = some b' ∧
      Shows b' cur' (htmlItems lines) :=
  exists_events (fun _ => True) (fun _ _ _ => trivial) (fun _ _ _ _ h _ => h.newLine)
    (fun line hline _ _ _ h _ => h.line hconvert line [] (forall_mem_nil _) (hsize line hline)) h trivial

/-! ## The whole text -/

theorem copyRows_html (lines : List (List ColoredChar)) (b : HtmlBuilder) :
    copyRows (htmlWriter convert) (.ofLines lines) b = (events (lines.map visible)).foldlM
      (htmlWriter convert).apply b := by
  apply copyRows_ofLines
  intro b
  show some (b.append []) = some b
  rw [HtmlBuilder.append, append_nil]

def genHTMLOf (convert : List Wchar → List UInt8) (lines : List (List StyledChar)) (fontHeightPoints : Int)
    (font : List Char) (backgroundColor : Colorref) : List UInt8 :=
  genHTML convert (.ofLines (lines.map units)) fontHeightPoints (utf16 font) backgroundColor

theorem shows_start {font : List Char} (hfont : '"' ∉ font) (points : Int) (backgroundColor : Colorref) :
    Shows { out := htmlHeader ++ startFragmentMarker ++ divTag points (utf8 font) backgroundColor } none [] := by
  have hstyle : (0x22 : UInt8) ∉ ascii "display:inline-block;white-space:pre;background-color:" ++
      colorToHexString backgroundColor ++ ascii ";font-family:'" ++ utf8 font ++ ascii "',monospace;font-size:" ++
      decimalInt points ++ ascii "pt;padding:4px;" := by
    have hdisplay : (0x22 : UInt8) ∉ ascii "display:inline-block;white-space:pre;background-color:" := by decide
    have hfamily : (0x22 : UInt8) ∉ ascii ";font-family:'" := by decide
    have hsize : (0x22 : UInt8) ∉ ascii "',monospace;font-size:" := by decide
    have hpadding : (0x22 : UInt8) ∉ ascii "pt;padding:4px;" := by decide
    simp only [mem_append, not_or]
    exact ⟨⟨⟨⟨⟨⟨hdisplay, quote_notMem_colorToHexString _⟩, hfamily⟩, quote_notMem_utf8 hfont⟩, hsize⟩,
      quote_notMem_decimalInt _⟩, hpadding⟩
  have hmarker : HtmlReader.read {} startFragmentMarker = some ⟨.text, [], []⟩ := rfl
  refine ⟨rfl, startFragmentMarker ++ divTag points (utf8 font) backgroundColor, append_assoc .., prefix_append .., ?_⟩
  rw [read_append, hmarker, Option.bind_some, divTag, read_styled (ascii "DIV") rfl (fun _ => rfl) hstyle]
  rfl

theorem htmlText_eq (hconvert : ConvertsWide convert) (lines : List (List StyledChar)) (points : Int)
    {font : List Char} (hfont : '"' ∉ font) (hfontSize : (utf8 font).length ≤ intMax) (backgroundColor : Colorref)
    (hsize : ∀ line ∈ lines, RunsFit (shown line)) :
    ∃ fragment, htmlText convert (.ofLines (lines.map units)) points (utf16 font) backgroundColor =
        some (htmlHeader ++ fragment ++ htmlFooter) ∧
      startFragmentMarker <+: fragment ∧ endFragmentMarker <:+ fragment ∧
      HtmlReader.read {} fragment = some ⟨.text, [], htmlItems (lines.map shown)⟩ := by
  have hshown : (lines.map units).map visible = (lines.map shown).map units := by
    rw [map_map, map_map]
    exact map_congr_left fun line _ => visible_units line
  obtain ⟨b, cur, hb, hshows⟩ := (shows_start hfont points backgroundColor).allRows hconvert (lines.map shown)
    (by
      intro line hline
      obtain ⟨line, hmem, rfl⟩ := mem_map.mp hline
      exact hsize line hmem)
  obtain ⟨fragment, hout, hmarker, hread⟩ := hshows.fragment
  have hwritten := hshows.written
  refine ⟨fragment ++ ((if cur.isSome then ascii "</SPAN>" else []) ++ ascii "</DIV>" ++
    endFragmentMarker), ?_, ?_, ?_, ?_⟩
  · unfold htmlText
    rw [convertToA_utf16 hconvert hfontSize, Option.bind_eq_bind, Option.bind_some]
    dsimp only
    rw [copyRows_html, hshown, hb, Option.bind_eq_bind, Option.bind_some, hout, hwritten]
    simp only [append_assoc]
    rfl
  · exact hmarker.trans (prefix_append ..)
  · rw [← append_assoc]
    exact suffix_append ..
  · rw [read_append, hread]
    rcases cur with _ | color <;> rfl

/-- The offsets are right, the elements closed in order, and the text is that of the rows up to CR or LF. -/
theorem genHTML_reads (hconvert : ConvertsWide convert) (lines : List (List StyledChar)) (points : Int)
    (font : List Char) (backgroundColor : Colorref) (hfont : '"' ∉ font) (hfontSize : (utf8 font).length ≤ intMax)
    (hsize : ∀ line ∈ lines, RunsFit (shown line))
    (htotal : (genHTMLOf convert lines points font backgroundColor).length < 10 ^ 10) :
    let html := genHTMLOf convert lines points font backgroundColor
    ∃ header fragment, readClipHeader html = some (header, htmlHeader ++ fragment ++ htmlFooter) ∧
      header.startHtml + (htmlHeader ++ fragment ++ htmlFooter).length = html.length ∧
      header.endHtml = html.length ∧
      header.startFragment = header.startHtml + htmlHeader.length ∧
      header.endFragment = header.startFragment + fragment.length ∧
      header.startSelection = header.startFragment ∧ header.endSelection = header.endFragment ∧
      startFragmentMarker <+: fragment ∧ endFragmentMarker <:+ fragment ∧
      HtmlReader.read {} fragment = some ⟨.text, [], htmlItems (lines.map shown)⟩ := by
  intro html
  obtain ⟨fragment, htext, hstart, hend, hread⟩ := htmlText_eq hconvert lines points hfont hfontSize
    backgroundColor hsize
  obtain ⟨text, htextEq⟩ : ∃ text, text = htmlHeader ++ fragment ++ htmlFooter := ⟨_, rfl⟩
  have hlength : text.length = htmlHeader.length + fragment.length + htmlFooter.length := by
    rw [htextEq, length_append, length_append]
  obtain ⟨header, hheader⟩ : ∃ header : ClipHeader, header = ⟨clipboardHeaderSize, clipboardHeaderSize + text.length,
    clipboardHeaderSize + htmlHeader.length, clipboardHeaderSize + text.length - htmlFooter.length,
    clipboardHeaderSize + htmlHeader.length, clipboardHeaderSize + text.length - htmlFooter.length⟩ := ⟨_, rfl⟩
  have hhtml : html = clipHeader header ++ text := by
    show genHTML _ _ _ _ _ = _
    unfold genHTML
    rw [htext, ← htextEq, hheader]
  have hle : clipboardHeaderSize + text.length ≤ html.length := by
    have := le_length_clipHeader header
    rw [hhtml, length_append]
    omega
  have htotal : html.length < 10 ^ 10 := htotal
  have hfits : header.Fits := by
    subst hheader
    constructor <;> dsimp only <;> omega
  have hhtmlLength : html.length = clipboardHeaderSize + text.length := by
    rw [hhtml, length_append, length_clipHeader hfits]
  refine ⟨header, fragment, ?_, ?_, ?_, ?_, ?_, ?_, ?_, hstart, hend, hread⟩
  · rw [hhtml, ← htextEq, readClipHeader_eq hfits]
  · rw [← htextEq, hheader, hhtmlLength]
  · rw [hheader, hhtmlLength]
  · rw [hheader]
  · rw [hheader]
    dsimp only
    omega
  · rw [hheader]
  · rw [hheader]

/-! ## A conversion -/

def isHighSurrogate (wch : Wchar) : Bool := 0xD800 ≤ wch.toNat && wch.toNat < 0xDC00

def isLowSurrogate (wch : Wchar) : Bool := 0xDC00 ≤ wch.toNat && wch.toNat < 0xE000

def unitChar (wch : Wchar) : Char :=
  if isHighSurrogate wch || isLowSurrogate wch then Char.ofNat 0xFFFD else Char.ofNat wch.toNat

def pairChar (high low : Wchar) : Char :=
  Char.ofNat (0x10000 + (high.toNat - 0xD800) * 0x400 + (low.toNat - 0xDC00))

def utf8OfWide : List Wchar → List UInt8
  | [] => []
  | [wch] => utf8 [unitChar wch]
  | wch :: next :: rest =>
    if isHighSurrogate wch && isLowSurrogate next then utf8 [pairChar wch next] ++ utf8OfWide rest
    else utf8 [unitChar wch] ++ utf8OfWide (next :: rest)

theorem utf8OfWide_cons {wch : Wchar} (h : isHighSurrogate wch = false) (rest : List Wchar) :
    utf8OfWide (wch :: rest) = utf8 [unitChar wch] ++ utf8OfWide rest := by
  rcases rest with _ | ⟨next, rest⟩
  · rw [utf8OfWide, utf8OfWide, append_nil]
  · rw [utf8OfWide, h, Bool.false_and, if_neg (by decide)]

theorem utf8OfWide_char (c : Char) (rest : List Wchar) :
    utf8OfWide (utf16Char c ++ rest) = utf8 [c] ++ utf8OfWide rest := by
  have hvalid := c.valid
  change c.toNat < 0xD800 ∨ 0xDFFF < c.toNat ∧ c.toNat < 0x110000 at hvalid
  unfold utf16Char
  split
  next hsmall =>
    have hnat : (BitVec.ofNat 16 c.toNat).toNat = c.toNat := by
      rw [BitVec.toNat_ofNat]
      omega
    have hhigh : isHighSurrogate (BitVec.ofNat 16 c.toNat) = false := by
      simp only [isHighSurrogate, Bool.and_eq_false_iff, decide_eq_false_iff_not]
      omega
    have hlow : isLowSurrogate (BitVec.ofNat 16 c.toNat) = false := by
      simp only [isLowSurrogate, Bool.and_eq_false_iff, decide_eq_false_iff_not]
      omega
    rw [singleton_append, utf8OfWide_cons hhigh, unitChar, hhigh, hlow, Bool.or_false, if_neg (by decide), hnat,
      Char.ofNat_toNat]
  next hbig =>
    have hhighNat : (BitVec.ofNat 16 (0xD800 + (c.toNat - 0x10000) / 0x400)).toNat =
        0xD800 + (c.toNat - 0x10000) / 0x400 := by
      rw [BitVec.toNat_ofNat]
      omega
    have hlowNat : (BitVec.ofNat 16 (0xDC00 + (c.toNat - 0x10000) % 0x400)).toNat =
        0xDC00 + (c.toNat - 0x10000) % 0x400 := by
      rw [BitVec.toNat_ofNat]
      omega
    have hhigh : isHighSurrogate (BitVec.ofNat 16 (0xD800 + (c.toNat - 0x10000) / 0x400)) = true := by
      simp only [isHighSurrogate, Bool.and_eq_true, decide_eq_true_eq]
      omega
    have hlow : isLowSurrogate (BitVec.ofNat 16 (0xDC00 + (c.toNat - 0x10000) % 0x400)) = true := by
      simp only [isLowSurrogate, Bool.and_eq_true, decide_eq_true_eq]
      omega
    have hchar : 0x10000 + (0xD800 + (c.toNat - 0x10000) / 0x400 - 0xD800) * 0x400 +
        (0xDC00 + (c.toNat - 0x10000) % 0x400 - 0xDC00) = c.toNat := by omega
    rw [cons_append, singleton_append, utf8OfWide, hhigh, hlow, Bool.true_and, if_pos rfl, pairChar, hhighNat,
      hlowNat, hchar, Char.ofNat_toNat]

theorem convertsWide_utf8OfWide : ConvertsWide utf8OfWide := by
  intro text
  induction text with
  | nil => rfl
  | cons c text ih => rw [utf16, flatMap_cons, utf8OfWide_char, ← utf16, ih, ← Til.utf8_cons]

theorem genHTML_reads_two :
    let lines : List (List StyledChar) := [[⟨'a', 0, 1⟩, ⟨'<', 0, 1⟩, ⟨'\r', 0, 0⟩, ⟨'\n', 0, 0⟩], [⟨'b', 2, 1⟩]]
    ∃ header fragment, readClipHeader (genHTMLOf utf8OfWide lines 12 ['M'] 0) =
        some (header, htmlHeader ++ fragment ++ htmlFooter) ∧
      HtmlReader.read {} fragment = some ⟨.text, [], [.byte 0x61, .byte 0x3C, .lineBreak, .byte 0x62]⟩ := by
  intro lines
  have hsmall : ∀ line ∈ lines, (utf8 (chars (shown line))).length ≤ intMax := by decide
  obtain ⟨header, fragment, hheader, -, -, -, -, -, -, -, -, hread⟩ :=
    genHTML_reads convertsWide_utf8OfWide lines 12 ['M'] 0 (by decide) (by decide)
      (fun line hline => runsFit_of_le (hsmall line hline)) (by decide +kernel)
  exact ⟨header, fragment, hheader, hread⟩

def seenIn (html : List UInt8) : Option (List HtmlItem) := do
  let (_, text) ← readClipHeader html
  let r ← HtmlReader.read {} text
  return r.seen

theorem convertToA_long {source : List Wchar} (h : intMax < source.length) : convertToA convert source = none := by
  have hne : source ≠ [] := by
    rintro rfl
    exact absurd h (Nat.not_lt_zero _)
  unfold convertToA
  rw [if_neg hne, if_pos h]

theorem genHTML_long {n : Nat} (h : intMax < n) : genHTMLOf convert [replicate n ⟨'a', 0, 0⟩] 12 [] 0 = [] := by
  obtain ⟨m, rfl⟩ : ∃ m, n = m + 1 := ⟨n - 1, by omega⟩
  have hunits : ∀ k, units (replicate k ⟨'a', 0, 0⟩) =
      (replicate k (0x61 : Wchar)).map fun wch => (⟨wch, 0, 0⟩ : ColoredChar) := by
    intro k
    induction k with
    | zero => rfl
    | succ k ih => rw [replicate_succ, units_cons, ih]; rfl
  have hshown : visible (units (replicate (m + 1) ⟨'a', 0, 0⟩)) = units (replicate (m + 1) ⟨'a', 0, 0⟩) := by
    rw [visible_units, shown, takeWhile_eq_self_iff.mpr]
    intro c hc
    rw [eq_of_mem_replicate hc]
    decide
  have hevents : lineEvents none [] (units (replicate (m + 1) ⟨'a', 0, 0⟩)) = .text [] :: .color 0 0 :: .char ::
        ((replicate m (0x61 : Wchar)).map (fun _ => .char) ++ [.text (replicate (m + 1) 0x61)]) := by
    rw [hunits, replicate_succ, map_cons, lineEvents]
    have hsame := @lineEvents_same 0 0 (replicate m 0x61) [0x61] []
    rw [append_nil] at hsame
    rw [hsame]
    rfl
  have hlast : ∀ b, foldlM (htmlWriter convert).apply b [.text (replicate (m + 1) 0x61)] = none := by
    intro b
    show ((convertToA convert (replicate (m + 1) 0x61)).map _ >>= some) = none
    rw [convertToA_long (by rw [length_replicate]; exact h)]
    rfl
  have htail : ∀ b, foldlM (htmlWriter convert).apply b
      ((replicate m (0x61 : Wchar)).map (fun _ => .char) ++ [.text (replicate (m + 1) 0x61)]) = none := by
    intro b
    rw [foldlM_append]
    rcases foldlM (htmlWriter convert).apply b _ with _ | b'
    · rfl
    · exact hlast b'
  have hnone : copyRows (htmlWriter convert) (.ofLines [units (replicate (m + 1) ⟨'a', 0, 0⟩)])
      { out := htmlHeader ++ startFragmentMarker ++ divTag 12 [] 0 } = none := by
    rw [copyRows_html, map_singleton, hshown]
    show foldlM _ _ (lineEvents none [] (units (replicate (m + 1) ⟨'a', 0, 0⟩)) ++ []) = none
    rw [append_nil, hevents]
    exact htail _
  have htext : htmlText convert (.ofLines ([replicate (m + 1) ⟨'a', 0, 0⟩].map units)) 12 (utf16 []) 0 = none := by
    show (copyRows (htmlWriter convert) (.ofLines [units (replicate (m + 1) ⟨'a', 0, 0⟩)]) _ >>= _) = none
    rw [hnone]
    rfl
  unfold genHTMLOf genHTML
  rw [htext]

/-- A CR inside of a row, halves of a pair in two colors, a quotation mark in the font name, a run too long. -/
theorem genHTML_changes :
    seenIn (genHTMLOf utf8OfWide [[⟨'a', 0, 0⟩, ⟨'\r', 0, 0⟩, ⟨'b', 0, 0⟩]] 12 [] 0) = some [.byte 0x61] ∧
      seenIn (genHTML utf8OfWide (.ofLines [[⟨0xD83D, 0, 0⟩, ⟨0xDE00, 1, 0⟩]]) 12 [] 0) =
        some ((utf8 [Char.ofNat 0xFFFD, Char.ofNat 0xFFFD]).map .byte) ∧
      seenIn (genHTMLOf utf8OfWide [] 12 ['"', '>'] 0) =
        some ((ascii "',monospace;font-size:12pt;padding:4px;\">").map .byte) ∧
      genHTMLOf utf8OfWide [replicate (intMax + 1) ⟨'a', 0, 0⟩] 12 [] 0 = [] := by
  refine ⟨?_, ?_, ?_, genHTML_long (Nat.lt_succ_self intMax)⟩
  · decide +kernel
  · decide +kernel
  · decide +kernel

end Terminal.Buffer
