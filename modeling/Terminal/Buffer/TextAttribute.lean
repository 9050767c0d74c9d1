import Mathlib.Data.BitVec

/-! # Text attributes (`TextColor.h`, `TextAttribute.hpp`) -/

namespace Terminal.Buffer

open BitVec

/-! ## Colours -/

inductive TextColor
  | default
  | index16 (index : BitVec 8)
  | index256 (index : BitVec 8)
  | rgb (red green blue : BitVec 8)
deriving DecidableEq, Repr

def TextColor.isDefault : TextColor → Bool
  | .default => true
  | _ => false

/-- The 16-colour index goes up to 15. -/
def properColor : TextColor → Prop
  | .index16 index => index.toNat < 16
  | _ => True

/-! ## Character attributes -/

/-- The flags of `TextAttribute`, one bit each. -/
abbrev CharacterAttributes := BitVec 16

namespace CharacterAttributes

def normal : CharacterAttributes := 0x00
def intense : CharacterAttributes := 0x01
def italics : CharacterAttributes := 0x02
def blinking : CharacterAttributes := 0x04
def invisible : CharacterAttributes := 0x08
def crossedOut : CharacterAttributes := 0x10
def underlined : CharacterAttributes := 0x20
def doublyUnderlined : CharacterAttributes := 0x40
def faint : CharacterAttributes := 0x80
def topGridline : CharacterAttributes := 0x400
def protectedFlag : CharacterAttributes := 0x2000
def reverseVideo : CharacterAttributes := 0x4000
def all : CharacterAttributes := 0xFFFF

/-- What SGR 0 resets: not the protection of DECSCA. -/
def rendition : CharacterAttributes := all &&& ~~~protectedFlag

def update (attrs flag : CharacterAttributes) (isSet : Bool) : CharacterAttributes :=
  if isSet then attrs ||| flag else attrs &&& ~~~flag

end CharacterAttributes

structure TextAttribute where
  attrs : CharacterAttributes := CharacterAttributes.normal
  hyperlinkId : BitVec 16 := 0
  foreground : TextColor := .default
  background : TextColor := .default
deriving DecidableEq, Repr

instance : Inhabited TextAttribute := ⟨{}⟩

namespace TextAttribute

def ofColors (foreground background : TextColor) : TextAttribute :=
  { foreground := foreground, background := background }

def setCharacterAttributes (attrs : CharacterAttributes) (attr : TextAttribute) : TextAttribute :=
  { attr with attrs := attrs }

def updateFlag (flag : CharacterAttributes) (isSet : Bool) (attr : TextAttribute) : TextAttribute :=
  { attr with attrs := attr.attrs.update flag isSet }

def setIntense := updateFlag CharacterAttributes.intense
def setFaint := updateFlag CharacterAttributes.faint
def setItalic := updateFlag CharacterAttributes.italics
def setBlinking := updateFlag CharacterAttributes.blinking
def setInvisible := updateFlag CharacterAttributes.invisible
def setCrossedOut := updateFlag CharacterAttributes.crossedOut
def setUnderlined := updateFlag CharacterAttributes.underlined
def setDoublyUnderlined := updateFlag CharacterAttributes.doublyUnderlined
def setOverlined := updateFlag CharacterAttributes.topGridline
def setReverseVideo := updateFlag CharacterAttributes.reverseVideo
def setProtected := updateFlag CharacterAttributes.protectedFlag

def setForeground (color : TextColor) (attr : TextAttribute) : TextAttribute :=
  { attr with foreground := color }

def setBackground (color : TextColor) (attr : TextAttribute) : TextAttribute :=
  { attr with background := color }

def setColor (color : TextColor) (isForeground : Bool) (attr : TextAttribute) : TextAttribute :=
  if isForeground then attr.setForeground color else attr.setBackground color

def setDefaultForeground : TextAttribute → TextAttribute := setForeground .default

def setDefaultBackground : TextAttribute → TextAttribute := setBackground .default

def setDefaultRenditionAttributes (attr : TextAttribute) : TextAttribute :=
  { attr with attrs := attr.attrs &&& ~~~CharacterAttributes.rendition }

def isFlagSet (flag : CharacterAttributes) (attr : TextAttribute) : Bool := attr.attrs &&& flag != 0

def isProtected := isFlagSet CharacterAttributes.protectedFlag

def isHyperlink (attr : TextAttribute) : Bool := attr.hyperlinkId != 0

def setHyperlinkId (id : BitVec 16) (attr : TextAttribute) : TextAttribute := { attr with hyperlinkId := id }

end TextAttribute

/-! ## Rendition attributes -/

open CharacterAttributes in
def trackedFlags : List CharacterAttributes :=
  [intense, faint, italics, underlined, doublyUnderlined, topGridline, blinking, invisible, crossedOut, reverseVideo]

theorem exists_bit {flag : CharacterAttributes} (h : flag ∈ trackedFlags) : ∃ k < 16, flag = twoPow 16 k := by
  simp only [trackedFlags, List.mem_cons, List.not_mem_nil, or_false] at h
  rcases h with rfl | rfl | rfl | rfl | rfl | rfl | rfl | rfl | rfl | rfl
  exacts [⟨0, by decide, rfl⟩, ⟨7, by decide, rfl⟩, ⟨1, by decide, rfl⟩, ⟨5, by decide, rfl⟩, ⟨6, by decide, rfl⟩,
    ⟨10, by decide, rfl⟩, ⟨2, by decide, rfl⟩, ⟨3, by decide, rfl⟩, ⟨4, by decide, rfl⟩, ⟨14, by decide, rfl⟩]

theorem isFlagSet_twoPow {k : Nat} (hk : k < 16) (attr : TextAttribute) :
    attr.isFlagSet (twoPow 16 k) = attr.attrs.getLsbD k := by
  unfold TextAttribute.isFlagSet
  rw [and_twoPow]
  cases hbit : attr.attrs.getLsbD k with
  | false => simp
  | true =>
    have hne : twoPow 16 k ≠ 0#16 := by
      intro hzero
      have := congrArg (·.getLsbD k) hzero
      simp [hk] at this
    simpa using hne

theorem isFlagSet_updateFlag {flag other : CharacterAttributes} (hflag : flag ∈ trackedFlags)
    (hother : other ∈ trackedFlags) (isSet : Bool) (attr : TextAttribute) :
    (attr.updateFlag flag isSet).isFlagSet other = if other = flag then isSet else attr.isFlagSet other := by
  obtain ⟨i, hi, rfl⟩ := exists_bit hflag
  obtain ⟨j, hj, rfl⟩ := exists_bit hother
  have heq : twoPow 16 j = twoPow 16 i ↔ i = j := by
    constructor
    · intro h
      have := congrArg (·.getLsbD i) h
      simp [hi] at this
      omega
    · rintro rfl
      rfl
  rw [isFlagSet_twoPow hj, isFlagSet_twoPow hj]
  unfold TextAttribute.updateFlag CharacterAttributes.update
  simp only [heq]
  by_cases h : i = j
  · cases isSet <;> simp [h, hj]
  · have h' : ¬j = i := fun hji => h hji.symm
    cases isSet <;> simp [h, h', hj]

theorem isProtected_setProtected (isSet : Bool) (attr : TextAttribute) :
    (attr.setProtected isSet).isProtected = isSet := by
  have hbit : CharacterAttributes.protectedFlag = twoPow 16 13 := rfl
  unfold TextAttribute.isProtected TextAttribute.setProtected
  rw [hbit, isFlagSet_twoPow (by decide)]
  unfold TextAttribute.updateFlag CharacterAttributes.update
  cases isSet <;> simp

theorem isFlagSet_reset {flag : CharacterAttributes} (h : flag ∈ trackedFlags) (attr : TextAttribute) :
    attr.setDefaultRenditionAttributes.isFlagSet flag = false := by
  have hflag : ~~~CharacterAttributes.rendition &&& flag = 0 := by
    simp only [trackedFlags, List.mem_cons, List.not_mem_nil, or_false] at h
    rcases h with rfl | rfl | rfl | rfl | rfl | rfl | rfl | rfl | rfl | rfl <;> decide
  unfold TextAttribute.isFlagSet TextAttribute.setDefaultRenditionAttributes
  simp only [BitVec.and_assoc, hflag]
  simp

end Terminal.Buffer
