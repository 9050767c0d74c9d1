import Mathlib.Tactic.Common
import Terminal.Parser.Chars

/-!
# Text with colors for the clipboard (`textBuffer.cpp`)

`GenHTML` and `GenRTF` go through the rows in the same way; what they write is a parameter.
-/

namespace Terminal.Buffer

open Terminal.Parser (Wchar)
open List Option

abbrev Colorref := BitVec 32

def getRValue (color : Colorref) : Nat := color.toNat % 256
def getGValue (color : Colorref) : Nat := color.toNat / 256 % 256
def getBValue (color : Colorref) : Nat := color.toNat / 65536 % 256

structure TextAndColor where
  text : List (List Wchar) := []
  fgAttr : List (List Colorref) := []
  bkAttr : List (List Colorref) := []

/-! ## What streams write -/

def ascii (text : String) : List UInt8 := text.toList.map fun c => UInt8.ofNat c.toNat

def decimal (n : Nat) : List UInt8 := (Nat.toDigits 10 n).map fun c => UInt8.ofNat c.toNat

def decimalInt (n : Int) : List UInt8 := if n < 0 then 0x2D :: decimal n.natAbs else decimal n.natAbs

def isDigit (b : UInt8) : Bool := 0x30 ≤ b.toNat && b.toNat ≤ 0x39

def decimalValue (digits : List UInt8) : Nat := digits.foldl (fun n b => 10 * n + (b.toNat - 0x30)) 0

theorem toNat_ofNat_of_isDigit {c : Char} (h : c.isDigit = true) : (UInt8.ofNat c.toNat).toNat = c.toNat := by
  have hle : c.toNat ≤ 0x39 := by
    simp only [Char.isDigit, Bool.and_eq_true, decide_eq_true_eq] at h
    exact h.2
  rw [UInt8.toNat_ofNat']
  omega

theorem isDigit_of_mem_decimal {n : Nat} {b : UInt8} (h : b ∈ decimal n) : isDigit b = true := by
  obtain ⟨c, hc, rfl⟩ := mem_map.mp h
  have hdigit := Nat.isDigit_of_mem_toDigits (by decide) (by decide) hc
  unfold isDigit
  rw [toNat_ofNat_of_isDigit hdigit]
  exact hdigit

theorem decimalValue_decimal (n : Nat) : decimalValue (decimal n) = n := by
  have hvalue : Nat.ofDigitChars 10 (Nat.toDigits 10 n) 0 = n := Nat.ofDigitChars_toDigits (by decide) (by decide)
  unfold decimalValue decimal
  rw [foldl_map]
  refine (foldl_ext _ _ 0 fun m c hc => ?_).trans hvalue
  rw [toNat_ofNat_of_isDigit (Nat.isDigit_of_mem_toDigits (by decide) (by decide) hc)]
  rfl

theorem decimal_ne_nil (n : Nat) : decimal n ≠ [] := by
  unfold decimal
  rw [Nat.toDigits_eq_if (by decide)]
  split <;> simp

/-! ## The loops -/

/-- What is written at a new row, flushed text, a new color, a character. -/
structure Writer (σ : Type) where
  newLine : σ → σ
  text : List Wchar → σ → Option σ
  color : Colorref → Colorref → σ → σ
  char : σ → σ

structure CopyState (σ : Type) where
  startOffset : Nat
  fgColor : Option Colorref
  bkColor : Option Colorref
  out : σ

section

variable {σ : Type} (w : Writer σ)

def writeAccumulatedChars (chars : List Wchar) (col : Nat) (includeCurrent : Bool) (s : CopyState σ) :
    Option (CopyState σ) :=
  if col ≥ s.startOffset then
    (w.text ((chars.drop s.startOffset).take (col - s.startOffset + includeCurrent.toNat)) s.out).map fun out =>
      { s with startOffset := col, out := out }
  else some s

def isLineBreak (wch : Wchar) : Bool := wch = 0x0D || wch = 0x0A

def changeColor (chars : List Wchar) (col : Nat) (fg bk : Colorref) (s : CopyState σ) : Option (CopyState σ) :=
  if s.fgColor ≠ some fg ∨ s.bkColor ≠ some bk then
    (writeAccumulatedChars w chars col false { s with fgColor := some fg, bkColor := some bk }).map fun s =>
      { s with out := w.color fg bk s.out }
  else some s

def flushLast (chars : List Wchar) (col : Nat) (s : CopyState σ) : Option (CopyState σ) :=
  if col = chars.length - 1 then writeAccumulatedChars w chars col true s else some s

def copyCols (rows : TextAndColor) (row : Nat) (chars : List Wchar) : Nat → CopyState σ → Option (CopyState σ)
  | 0, s => some s
  | n + 1, s => do
    let col := chars.length - (n + 1)
    let wch ← chars[col]?
    if isLineBreak wch then writeAccumulatedChars w chars col false s
    else
      let fg ← (← rows.fgAttr[row]?)[col]?
      let bk ← (← rows.bkAttr[row]?)[col]?
      let s ← changeColor w chars col fg bk s
      let s := { s with out := w.char s.out }
      let s ← flushLast w chars col s
      copyCols rows row chars n s

def copyRow (rows : TextAndColor) (s : CopyState σ) (row : Nat) : Option (CopyState σ) := do
  let chars ← rows.text[row]?
  let out := if row ≠ 0 then w.newLine s.out else s.out
  copyCols w rows row chars chars.length { s with startOffset := 0, out := out }

def copyRows (rows : TextAndColor) (out : σ) : Option σ :=
  ((List.range rows.text.length).foldlM (copyRow w rows) ⟨0, none, none, out⟩).map CopyState.out

end

/-! ## What the loops do -/

structure ColoredChar where
  wch : Wchar
  fg : Colorref
  bk : Colorref
deriving DecidableEq, Repr

def TextAndColor.ofLines (lines : List (List ColoredChar)) : TextAndColor where
  text := lines.map fun chars => chars.map ColoredChar.wch
  fgAttr := lines.map fun chars => chars.map ColoredChar.fg
  bkAttr := lines.map fun chars => chars.map ColoredChar.bk

def visible (chars : List ColoredChar) : List ColoredChar := chars.takeWhile fun c => !isLineBreak c.wch

inductive CopyEvent where
  | newLine
  | text (piece : List Wchar)
  | color (fg bk : Colorref)
  | char
deriving DecidableEq, Repr

def Writer.apply {σ : Type} (w : Writer σ) (out : σ) : CopyEvent → Option σ
  | .newLine => some (w.newLine out)
  | .text piece => w.text piece out
  | .color fg bk => some (w.color fg bk out)
  | .char => some (w.char out)

def lineEvents : Option (Colorref × Colorref) → List Wchar → List ColoredChar → List CopyEvent
  | _, pending, [] => [.text pending]
  | cur, pending, c :: rest =>
    if cur = some (c.fg, c.bk) then .char :: lineEvents cur (pending ++ [c.wch]) rest
    else .text pending :: .color c.fg c.bk :: .char :: lineEvents (some (c.fg, c.bk)) [c.wch] rest

def lineColor (cur : Option (Colorref × Colorref)) (chars : List ColoredChar) : Option (Colorref × Colorref) :=
  (chars.getLast?.map fun c => (c.fg, c.bk)).or cur

def rowsEvents : Option (Colorref × Colorref) → List (List ColoredChar) → List CopyEvent
  | _, [] => []
  | cur, chars :: lines => .newLine :: lineEvents cur [] chars ++ rowsEvents (lineColor cur chars) lines

def events (lines : List (List ColoredChar)) : List CopyEvent := (rowsEvents none lines).tail

section Events

variable {σ : Type} {w : Writer σ}

theorem lineColor_cons (cur : Option (Colorref × Colorref)) (c : ColoredChar) (chars : List ColoredChar) :
    lineColor cur (c :: chars) = lineColor (some (c.fg, c.bk)) chars := by
  unfold lineColor
  rcases eq_nil_or_concat chars with rfl | ⟨front, last, rfl⟩
  · rfl
  · simp [getLast?_cons]

def CopyState.at (startOffset : Nat) (cur : Option (Colorref × Colorref)) (out : σ) : CopyState σ :=
  ⟨startOffset, cur.map Prod.fst, cur.map Prod.snd, out⟩

variable {startOffset col row : Nat} {rows : TextAndColor} {chars : List ColoredChar}

theorem writeAccumulatedChars_eq (chars : List Wchar) (hle : startOffset ≤ col)
    (includeCurrent : Bool) (cur : Option (Colorref × Colorref)) (out : σ) :
    writeAccumulatedChars w chars col includeCurrent (.at startOffset cur out) =
      (w.text ((chars.drop startOffset).take (col - startOffset + includeCurrent.toNat)) out).map
        fun out => .at col cur out :=
  if_pos hle

theorem changeColor_eq (chars : List Wchar) (hle : startOffset ≤ col)
    (cur : Option (Colorref × Colorref)) (fg bk : Colorref) (out : σ) :
    changeColor w chars col fg bk (.at startOffset cur out) =
      if cur = some (fg, bk) then some (.at startOffset cur out)
      else (w.text ((chars.drop startOffset).take (col - startOffset)) out).map
        fun out => .at col (some (fg, bk)) (w.color fg bk out) := by
  have hchanged : ((CopyState.at startOffset cur out).fgColor ≠ some fg ∨
      (CopyState.at startOffset cur out).bkColor ≠ some bk) ↔ cur ≠ some (fg, bk) := by
    rcases cur with _ | ⟨f, b⟩
    · simp [CopyState.at]
    · simp only [CopyState.at, map_some, ne_eq, some.injEq, Prod.mk.injEq]
      tauto
  unfold changeColor
  by_cases hcur : cur = some (fg, bk)
  · rw [if_neg (by rw [hchanged]; exact fun h => h hcur), if_pos hcur]
  · rw [if_pos (hchanged.mpr hcur), if_neg hcur]
    have hstate : { CopyState.at startOffset cur out with fgColor := some fg, bkColor := some bk } =
        CopyState.at startOffset (some (fg, bk)) out := rfl
    rw [hstate, writeAccumulatedChars_eq chars hle, Option.map_map]
    rfl

def CopyState.atRow (s : CopyState σ) : CopyState σ := { s with startOffset := 0 }

theorem pending_succ (chars : List Wchar) (hle : startOffset ≤ col) {wch : Wchar} (hwch : chars[col]? = some wch) :
    (chars.drop startOffset).take (col + 1 - startOffset) = (chars.drop startOffset).take
      (col - startOffset) ++ [wch] := by
  rw [show col + 1 - startOffset = col - startOffset + 1 by omega, take_add_one, getElem?_drop,
    show startOffset + (col - startOffset) = col by omega, hwch]
  rfl

theorem foldlM_lineEvents_cons {cur : Option (Colorref × Colorref)} {pending : List Wchar} (c : ColoredChar)
    (rest : List ColoredChar) (out : σ) :
    (lineEvents cur pending (c :: rest)).foldlM w.apply out =
      if cur = some (c.fg, c.bk) then (lineEvents cur (pending ++ [c.wch]) rest).foldlM w.apply (w.char out)
      else (w.text pending out).bind fun out =>
        (lineEvents (some (c.fg, c.bk)) [c.wch] rest).foldlM w.apply (w.char (w.color c.fg c.bk out)) := by
  rw [lineEvents]
  split <;> rfl

theorem visible_cons (c : ColoredChar) (chars : List ColoredChar) :
    visible (c :: chars) = if isLineBreak c.wch then [] else c :: visible chars := by
  unfold visible
  rw [takeWhile_cons]
  rcases isLineBreak c.wch <;> rfl

def waiting (chars : List ColoredChar) (startOffset col : Nat) : List Wchar :=
  ((chars.map ColoredChar.wch).drop startOffset).take (col - startOffset)

def lineEnd (w : Writer σ) (chars : List ColoredChar) (startOffset col : Nat) (cur : Option (Colorref × Colorref))
    (out : σ) : Option (CopyState σ) :=
  ((lineEvents cur (waiting chars startOffset col) (visible (chars.drop col))).foldlM w.apply out).map
    (.at 0 (lineColor cur (visible (chars.drop col))))

theorem lineEnd_done {col : Nat} (hend : visible (chars.drop col) = []) (cur : Option (Colorref × Colorref)) (out : σ) :
    lineEnd w chars startOffset col cur out = (w.text (waiting chars startOffset col) out).map (.at 0 cur) := by
  unfold lineEnd
  rw [hend]
  exact congrArg _ (bind_fun_some _)

theorem flushLast_copyCols {n startOffset : Nat} (hn : n + 1 ≤ chars.length) (hstart : startOffset ≤
    chars.length - (n + 1)) (ih : ∀ m, n = m + 1 → ∀ cur' out',
      (copyCols w rows row (chars.map ColoredChar.wch) (m + 1) (.at startOffset cur' out')).map CopyState.atRow =
        lineEnd w chars startOffset (chars.length - (m + 1)) cur' out')
    (cur : Option (Colorref × Colorref)) (out : σ) :
    ((flushLast w (chars.map ColoredChar.wch) (chars.length - (n + 1)) (.at startOffset cur out)).bind
        (copyCols w rows row (chars.map ColoredChar.wch) n)).map CopyState.atRow =
      lineEnd w chars startOffset (chars.length - n) cur out := by
  unfold flushLast
  rcases n with _ | m
  · have hcount : chars.length - (0 + 1) - startOffset + true.toNat = chars.length - 0 - startOffset := by
      show _ + 1 = _
      omega
    have hend : chars.drop (chars.length - 0) = [] := drop_of_length_le (by omega)
    rw [if_pos (by rw [length_map]), writeAccumulatedChars_eq _ hstart, hcount,
      lineEnd_done (by rw [hend]; rfl), waiting]
    rcases w.text _ out with _ | out' <;> rfl
  · rw [if_neg (by rw [length_map]; omega), bind_some]
    exact ih m rfl cur out

theorem copyCols_eq (hfg : rows.fgAttr[row]? = some (chars.map ColoredChar.fg))
    (hbk : rows.bkAttr[row]? = some (chars.map ColoredChar.bk)) {n : Nat} (hn : n + 1 ≤ chars.length)
    (hstart : startOffset ≤ chars.length - (n + 1)) (cur : Option (Colorref × Colorref)) (out : σ) :
    (copyCols w rows row (chars.map ColoredChar.wch) (n + 1) (.at startOffset cur out)).map CopyState.atRow =
      lineEnd w chars startOffset (chars.length - (n + 1)) cur out := by
  induction n using Nat.strongRecOn generalizing startOffset cur out with
  | ind n ih =>
    obtain ⟨col, hcol⟩ : ∃ col, chars.length - (n + 1) = col := ⟨_, rfl⟩
    have hlt : col < chars.length := by omega
    have hnext : chars.length - n = col + 1 := by omega
    have hwch : (chars.map ColoredChar.wch)[col]? = some chars[col].wch := by simp [hlt]
    have hfg' : (chars.map ColoredChar.fg)[col]? = some chars[col].fg := by simp [hlt]
    have hbk' : (chars.map ColoredChar.bk)[col]? = some chars[col].bk := by simp [hlt]
    have htail : ∀ so, so ≤ col → ∀ cur' out', ((flushLast w (chars.map ColoredChar.wch) col (.at so cur' out')).bind
            (copyCols w rows row (chars.map ColoredChar.wch) n)).map CopyState.atRow =
          lineEnd w chars so (col + 1) cur' out' := by
      intro so hso cur' out'
      have h := flushLast_copyCols (w := w) hn (hcol ▸ hso)
        (fun m hm cur' out' => ih m (by omega) (by omega) (by omega) cur' out') cur' out'
      rwa [hcol, hnext] at h
    rw [hcol] at hstart ⊢
    rw [copyCols]
    simp only [length_map, hcol, hwch, hfg, hbk, hfg', hbk', bind_eq_bind, bind_some]
    split
    next hbreak =>
      have hend : visible (chars.drop col) = [] := by rw [drop_eq_getElem_cons hlt, visible_cons, if_pos hbreak]
      rw [writeAccumulatedChars_eq _ hstart, Bool.toNat_false, Nat.add_zero, lineEnd_done hend, waiting]
      rcases w.text _ out with _ | out' <;> rfl
    next hbreak =>
      unfold lineEnd waiting at htail ⊢
      rw [drop_eq_getElem_cons hlt, visible_cons, if_neg hbreak, foldlM_lineEvents_cons, lineColor_cons,
        changeColor_eq _ hstart]
      split
      next hcur =>
        -- the same colors: the character is added to what has not been flushed
        rw [← pending_succ _ hstart hwch, ← hcur]
        exact htail startOffset hstart cur (w.char out)
      next hcur =>
        have hpending := pending_succ (chars.map ColoredChar.wch) (Nat.le_refl col) hwch
        rw [Nat.sub_self, take_zero, nil_append] at hpending
        rw [← hpending]
        rcases w.text _ out with _ | out'
        · rfl
        · exact htail col (Nat.le_refl col) (some (chars[col].fg, chars[col].bk)) (w.char (w.color _ _ out'))

theorem copyRow_eq (htext : ∀ out, w.text [] out = some out)
    (hline : rows.text[row]? = some (chars.map ColoredChar.wch))
    (hfg : rows.fgAttr[row]? = some (chars.map ColoredChar.fg))
    (hbk : rows.bkAttr[row]? = some (chars.map ColoredChar.bk)) (cur : Option (Colorref × Colorref)) (out : σ)
    {s : CopyState σ} (hs : s.atRow = .at 0 cur out) :
    (copyRow w rows s row).map CopyState.atRow =
      ((lineEvents cur [] (visible chars)).foldlM w.apply (if row ≠ 0 then w.newLine out else out)).map
        (.at 0 (lineColor cur (visible chars))) := by
  have hout : s.out = out := congrArg CopyState.out hs
  have hstate : ∀ out' : σ, { s with startOffset := 0, out := out' } = CopyState.at 0 cur out' := by
    intro out'
    have hfg := congrArg CopyState.fgColor hs
    have hbk := congrArg CopyState.bkColor hs
    simp only [CopyState.atRow] at hfg hbk
    simp only [CopyState.at, hfg, hbk]
  unfold copyRow
  rw [hline, hout]
  dsimp only
  rw [hstate]
  rcases chars with _ | ⟨c, chars⟩
  · show _ = ((w.text [] _).bind some).map _
    rw [htext]
    rfl
  · have hcols := copyCols_eq hfg hbk (w := w) (n := chars.length) (Nat.le_refl _) (Nat.zero_le _) cur
      (if row ≠ 0 then w.newLine out else out)
    simpa [lineEnd, waiting] using hcols

theorem foldlM_copyRow (htext : ∀ out, w.text [] out = some out) (lines : List (List ColoredChar)) (first : Nat)
    (hlines : ∀ i chars, lines[i]? = some chars → rows.text[first + i]? = some (chars.map ColoredChar.wch) ∧
      rows.fgAttr[first + i]? = some (chars.map ColoredChar.fg) ∧
      rows.bkAttr[first + i]? = some (chars.map ColoredChar.bk))
    (cur : Option (Colorref × Colorref)) (out : σ) {s : CopyState σ} (hs : s.atRow = .at 0 cur out) :
    ((range' first lines.length).foldlM (copyRow w rows) s).map CopyState.out =
      (if first = 0 then (rowsEvents cur (lines.map visible)).tail else rowsEvents cur (lines.map visible)).foldlM
        w.apply out := by
  induction lines generalizing first cur out s with
  | nil =>
    rw [map_nil, rowsEvents, tail_nil, ite_self]
    exact congrArg some (congrArg CopyState.out hs)
  | cons chars lines ih =>
    obtain ⟨hline, hfg, hbk⟩ := hlines 0 chars rfl
    have hrow := copyRow_eq htext hline hfg hbk cur out hs
    have hrest : ∀ s' out', s'.atRow = .at 0 (lineColor cur (visible chars)) out' →
        ((range' (first + 1) lines.length).foldlM (copyRow w rows) s').map CopyState.out =
          (rowsEvents (lineColor cur (visible chars)) (lines.map visible)).foldlM w.apply out' := by
      intro s' out' hs'
      have h := ih (first + 1) (fun i chars hi => by
        rw [show first + 1 + i = first + (i + 1) by omega]
        exact hlines (i + 1) chars hi) _ out' hs'
      rwa [if_neg (Nat.succ_ne_zero first)] at h
    have hevents : (if first = 0 then (rowsEvents cur ((chars :: lines).map visible)).tail
        else rowsEvents cur ((chars :: lines).map visible)).foldlM w.apply out =
        ((lineEvents cur [] (visible chars)).foldlM w.apply (if first ≠ 0 then w.newLine out else out)).bind
          fun out => (rowsEvents (lineColor cur (visible chars)) (lines.map visible)).foldlM w.apply out := by
      by_cases hfirst : first = 0
      · rw [if_pos hfirst, if_neg (by simpa using hfirst)]
        exact foldlM_append
      · rw [if_neg hfirst, if_pos hfirst]
        exact foldlM_append
    rw [hevents, length_cons, range'_succ, foldlM_cons]
    rw [Nat.add_zero] at hrow
    rcases hresult : (lineEvents cur [] (visible chars)).foldlM w.apply (if first ≠ 0 then w.newLine out else out) with
      _ | out'
    · rw [hresult, map_none, map_eq_none_iff] at hrow
      rw [hrow]
      rfl
    · rw [hresult] at hrow
      obtain ⟨s', hs', hat⟩ := map_eq_some_iff.mp hrow
      rw [hs']
      exact hrest s' out' hat

theorem copyRows_ofLines (htext : ∀ out, w.text [] out = some out) (lines : List (List ColoredChar)) (out : σ) :
    copyRows w (.ofLines lines) out = (events (lines.map visible)).foldlM w.apply out := by
  unfold copyRows
  rw [range_eq_range', show (TextAndColor.ofLines lines).text.length = lines.length from length_map ..]
  refine foldlM_copyRow htext lines 0 (fun i chars hi => ?_) none out rfl
  simp [TextAndColor.ofLines, hi]

theorem intercalate_cons {α : Type} (sep : α) (xs : List α) (xss : List (List α)) :
    [sep].intercalate (xs :: xss) = xs ++ xss.flatMap (sep :: ·) := by
  induction xss generalizing xs with
  | nil => simp [intercalate]
  | cons ys xss ih =>
    have h := ih ys
    simp only [intercalate, intersperse_cons_cons, flatten_cons] at h ⊢
    rw [h]
    rfl

section Rows

variable {ι β : Type} {Shows : σ → Option (Colorref × Colorref) → List ι → Prop} (Fine : List ι → Prop) {sep : ι}
  {units : β → List ColoredChar} {items : β → List ι} {lines : List β} {out : σ}
  (hleft : ∀ seen more, Fine (seen ++ more) → Fine seen)
  (hnew : ∀ out cur seen rest, Shows out cur seen → Fine (seen ++ sep :: rest) →
    Shows (w.newLine out) cur (seen ++ [sep]))
  (hline : ∀ line ∈ lines, ∀ out cur seen, Shows out cur seen → Fine (seen ++ items line) →
    ∃ out', (lineEvents cur [] (units line)).foldlM w.apply out = some out' ∧
      Shows out' (lineColor cur (units line)) (seen ++ items line))

include hleft hnew hline

theorem exists_rowsEvents {cur : Option (Colorref × Colorref)} {seen : List ι} (h : Shows out cur seen)
    (hfine : Fine (seen ++ (lines.map items).flatMap (sep :: ·))) :
    ∃ out' cur', (rowsEvents cur (lines.map units)).foldlM w.apply out = some out' ∧
      Shows out' cur' (seen ++ (lines.map items).flatMap (sep :: ·)) := by
  induction lines generalizing out cur seen with
  | nil => exact ⟨out, cur, rfl, by simpa using h⟩
  | cons line lines ih =>
    have hnewLine := hnew _ _ _ _ h hfine
    rw [@map_cons _ _ items, flatMap_cons, cons_append, append_cons, ← append_assoc] at hfine ⊢
    obtain ⟨out₁, hout₁, h₁⟩ := hline line mem_cons_self _ _ _ hnewLine (hleft _ _ hfine)
    obtain ⟨out', cur', hout', h'⟩ := ih (fun other hother => hline other (mem_cons_of_mem _ hother)) h₁ hfine
    refine ⟨out', cur', ?_, h'⟩
    rw [map_cons, rowsEvents, cons_append]
    show foldlM _ (w.newLine out) _ = _
    rw [foldlM_append, hout₁]
    exact hout'

theorem exists_events (h : Shows out none []) (hfine : Fine ([sep].intercalate (lines.map items))) :
    ∃ out' cur', (events (lines.map units)).foldlM w.apply out = some out' ∧
      Shows out' cur' ([sep].intercalate (lines.map items)) := by
  rcases lines with _ | ⟨line, lines⟩
  · exact ⟨out, none, rfl, h⟩
  · rw [@map_cons _ _ items, intercalate_cons] at hfine ⊢
    obtain ⟨out₁, hout₁, h₁⟩ := hline line mem_cons_self _ _ _ h (hleft _ _ hfine)
    obtain ⟨out', cur', hout', h'⟩ :=
      exists_rowsEvents Fine hleft hnew (fun other hother => hline other (mem_cons_of_mem _ hother)) h₁ hfine
    refine ⟨out', cur', ?_, h'⟩
    rw [events, map_cons, rowsEvents, cons_append, tail_cons, foldlM_append, hout₁]
    exact hout'

end Rows

end Events

end Terminal.Buffer
