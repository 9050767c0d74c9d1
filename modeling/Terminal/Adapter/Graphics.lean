import Mathlib.Data.List.GetD
import Terminal.Buffer.TextAttribute
import Terminal.Parser.DispatchTypes

/-!
# Graphics options (`adaptDispatchGraphics.cpp`)

A view past the end of the parameters, undefined in the source, is `none`.
-/

namespace Terminal.Adapter

open Terminal.Parser Terminal.Buffer

/-! ## Options -/

/-- The 16 foreground colours are one constructor. -/
inductive GraphicsOptions
  | off | intense | rgbColorOrFaint | italics | underline | blinkOrXterm256Index | rapidBlink
  | negative | invisible | crossedOut | doublyUnderlined | notIntenseOrFaint | notItalics
  | noUnderline | steady | positive | visible | notCrossedOut
  | foreground (index : BitVec 8) | foregroundExtended | foregroundDefault
  | background (index : BitVec 8) | backgroundExtended | backgroundDefault
  | overline | noOverline
  | unknown
deriving DecidableEq, Repr

def GraphicsOptions.ofInt (value : Int) : GraphicsOptions :=
  if 30 ≤ value ∧ value ≤ 37 then .foreground (BitVec.ofInt 8 (value - 30))
  else if 90 ≤ value ∧ value ≤ 97 then .foreground (BitVec.ofInt 8 (value - 90 + 8))
  else if 40 ≤ value ∧ value ≤ 47 then .background (BitVec.ofInt 8 (value - 40))
  else if 100 ≤ value ∧ value ≤ 107 then .background (BitVec.ofInt 8 (value - 100 + 8))
  else match value with
    | 0 => .off
    | 1 => .intense
    | 2 => .rgbColorOrFaint
    | 3 => .italics
    | 4 => .underline
    | 5 => .blinkOrXterm256Index
    | 6 => .rapidBlink
    | 7 => .negative
    | 8 => .invisible
    | 9 => .crossedOut
    | 21 => .doublyUnderlined
    | 22 => .notIntenseOrFaint
    | 23 => .notItalics
    | 24 => .noUnderline
    | 25 => .steady
    | 27 => .positive
    | 28 => .visible
    | 29 => .notCrossedOut
    | 38 => .foregroundExtended
    | 39 => .foregroundDefault
    | 48 => .backgroundExtended
    | 49 => .backgroundDefault
    | 53 => .overline
    | 55 => .noOverline
    | _ => .unknown

def setRgbColorsHelper (options : VTParameters) (attr : TextAttribute) (isForeground : Bool) :
    Nat × TextAttribute :=
  match GraphicsOptions.ofInt (options.at' 0).toEnum with
  | .rgbColorOrFaint =>
    let red := (options.at' 1).valueOr 0
    let green := (options.at' 2).valueOr 0
    let blue := (options.at' 3).valueOr 0
    if red ≤ 255 ∧ green ≤ 255 ∧ blue ≤ 255 then
      (4, attr.setColor (.rgb (BitVec.ofInt 8 red) (BitVec.ofInt 8 green) (BitVec.ofInt 8 blue)) isForeground)
    else (4, attr)
  | .blinkOrXterm256Index =>
    let tableIndex := (options.at' 1).valueOr 0
    if tableIndex ≤ 255 then (2, attr.setColor (.index256 (BitVec.ofInt 8 tableIndex)) isForeground)
    else (2, attr)
  | _ => (1, attr)

def applyRendition : GraphicsOptions → TextAttribute → TextAttribute
  | .off, attr => attr.setDefaultForeground.setDefaultBackground.setDefaultRenditionAttributes
  | .foregroundDefault, attr => attr.setDefaultForeground
  | .backgroundDefault, attr => attr.setDefaultBackground
  | .intense, attr => attr.setIntense true
  | .rgbColorOrFaint, attr => attr.setFaint true
  | .notIntenseOrFaint, attr => (attr.setIntense false).setFaint false
  | .italics, attr => attr.setItalic true
  | .notItalics, attr => attr.setItalic false
  | .blinkOrXterm256Index, attr => attr.setBlinking true
  | .rapidBlink, attr => attr.setBlinking true
  | .steady, attr => attr.setBlinking false
  | .invisible, attr => attr.setInvisible true
  | .visible, attr => attr.setInvisible false
  | .crossedOut, attr => attr.setCrossedOut true
  | .notCrossedOut, attr => attr.setCrossedOut false
  | .negative, attr => attr.setReverseVideo true
  | .positive, attr => attr.setReverseVideo false
  | .underline, attr => attr.setUnderlined true
  | .doublyUnderlined, attr => attr.setDoublyUnderlined true
  | .noUnderline, attr => (attr.setUnderlined false).setDoublyUnderlined false
  | .overline, attr => attr.setOverlined true
  | .noOverline, attr => attr.setOverlined false
  | .foreground index, attr => attr.setForeground (.index16 index)
  | .background index, attr => attr.setBackground (.index16 index)
  | _, attr => attr

def applyGraphicsOption (options : VTParameters) (optionIndex : Nat) (attr : TextAttribute) :
    Option (Nat × TextAttribute) :=
  match GraphicsOptions.ofInt (options.at' optionIndex).toEnum with
  | .foregroundExtended => do
    let rest ← options.subspan (optionIndex + 1)
    let (consumed, attr) := setRgbColorsHelper rest attr true
    return (1 + consumed, attr)
  | .backgroundExtended => do
    let rest ← options.subspan (optionIndex + 1)
    let (consumed, attr) := setRgbColorsHelper rest attr false
    return (1 + consumed, attr)
  | opt => some (1, applyRendition opt attr)

/-! ## Option loops -/

/-- `for (size_t i = 0; i < size;) i += body(i)`. There is no result when `fuel` rounds do not end it. -/
def optionLoop {σ : Type} (size : Nat) (body : Nat → σ → Option (Nat × σ)) : Nat → Nat → σ → Option σ
  | 0, i, s => if i < size then none else some s
  | fuel + 1, i, s =>
    if i < size then do
      let (consumed, s) ← body i s
      optionLoop size body fuel (i + consumed) s
    else some s

def applyGraphicsOptions (options : VTParameters) (attr : TextAttribute) : Option TextAttribute :=
  optionLoop options.size (applyGraphicsOption options) options.size 0 attr

def setCharacterProtectionAttribute (options : VTParameters) (attr : TextAttribute) : TextAttribute :=
  (List.range options.size).foldl (fun attr i =>
    match (options.at' i).toEnum with
    | 0 => attr.setProtected false
    | 1 => attr.setProtected true
    | 2 => attr.setProtected false
    | _ => attr) attr

/-! ## Attributes of an area -/

structure ChangeOps where
  andAttrMask : CharacterAttributes := CharacterAttributes.all
  xorAttrMask : CharacterAttributes := CharacterAttributes.normal
  foreground : Option TextColor := none
  background : Option TextColor := none
deriving DecidableEq, Repr

/-- The options are tried with nothing set and with all set. -/
def changeAttributesOps (attrs : VTParameters) : Option ChangeOps := do
  let black := TextColor.rgb 0 0 0
  let allAttrsOff ← applyGraphicsOptions attrs {}
  let allAttrsOn ← applyGraphicsOptions attrs
    ((TextAttribute.ofColors black black).setCharacterAttributes CharacterAttributes.all)
  let orAttrMask := allAttrsOff.attrs
  let andAttrMask := allAttrsOn.attrs
  let foreground := allAttrsOff.foreground
  let background := allAttrsOff.background
  let foregroundChanged := !foreground.isDefault || allAttrsOn.foreground.isDefault
  let backgroundChanged := !background.isDefault || allAttrsOn.background.isDefault
  return {
    andAttrMask := andAttrMask &&& ~~~orAttrMask
    xorAttrMask := orAttrMask
    foreground := if foregroundChanged then some foreground else none
    background := if backgroundChanged then some background else none }

def reverseOption (attrs : VTParameters) (i : Nat) (reverseMask : CharacterAttributes) :
    Option (Nat × CharacterAttributes) :=
  if (attrs.at' i).valueOr 0 = 0 then some (1, reverseMask ^^^ CharacterAttributes.rendition)
  else do
    let (consumed, allAttrsOff) ← applyGraphicsOption attrs i {}
    return (consumed, reverseMask ^^^ allAttrsOff.attrs)

def reverseMask (attrs : VTParameters) : Option CharacterAttributes :=
  if attrs.isEmpty then some CharacterAttributes.normal
  else optionLoop attrs.size (reverseOption attrs) attrs.size 0 CharacterAttributes.normal

/-! ## What the loops do -/

theorem isSome_bind {α β : Type} {x : Option α} {f : α → Option β} (hx : x.isSome)
    (hf : ∀ a, (f a).isSome) : (x >>= f).isSome := by
  obtain ⟨a, rfl⟩ := Option.isSome_iff_exists.mp hx
  exact hf a

section OptionLoop

variable {σ : Type} {size : Nat} {body : Nat → σ → Option (Nat × σ)}

theorem optionLoop_of_le {i : Nat} (hi : size ≤ i) (fuel : Nat) (s : σ) : optionLoop size body fuel i s = some s := by
  cases fuel <;> exact if_neg (Nat.not_lt.mpr hi)

variable (hsome : ∀ i s, (body i s).isSome) (hpos : ∀ i s consumed s', body i s = some (consumed, s') → 0 < consumed)
include hsome hpos

/-- The loop ends within as many rounds as there are entries left, whatever more it is given. -/
theorem optionLoop_ends {fuel i : Nat} (hfuel : size ≤ i + fuel) (s : σ) :
    ∃ result, ∀ more, optionLoop size body (fuel + more) i s = some result := by
  induction fuel generalizing i s with
  | zero => exact ⟨s, fun more => optionLoop_of_le hfuel _ s⟩
  | succ fuel ih =>
    by_cases hi : i < size
    · obtain ⟨⟨consumed, s'⟩, hbody⟩ := Option.isSome_iff_exists.mp (hsome i s)
      have := hpos i s consumed s' hbody
      obtain ⟨result, hresult⟩ := ih (by omega : size ≤ i + consumed + fuel) s'
      refine ⟨result, fun more => ?_⟩
      rw [Nat.succ_add, optionLoop, if_pos hi, hbody]
      exact hresult more
    · exact ⟨s, fun more => optionLoop_of_le (Nat.not_lt.mp hi) _ s⟩

theorem optionLoop_isSome (s : σ) : (optionLoop size body size 0 s).isSome := by
  obtain ⟨result, hresult⟩ := optionLoop_ends hsome hpos (Nat.le_add_left size 0) s
  exact Option.isSome_iff_exists.mpr ⟨result, hresult 0⟩

end OptionLoop

/-! ## Every view is well formed -/

theorem subspan_isSome {ps : VTParameters} {offset : Nat} : (ps.subspan offset).isSome ↔ offset ≤ ps.length := by
  simp only [VTParameters.subspan]
  split_ifs with h <;> simp [h]

theorem lt_length_of_ofInt_ne_off {ps : VTParameters} {i : Nat}
    (h : GraphicsOptions.ofInt (ps.at' i).toEnum ≠ .off) : i < ps.length := by
  by_contra hi
  apply h
  have : ps.at' i = {} := List.getD_eq_default _ _ (Nat.not_lt.mp hi)
  rw [this]
  rfl

theorem applyGraphicsOption_isSome (options : VTParameters) (i : Nat) (attr : TextAttribute) :
    (applyGraphicsOption options i attr).isSome := by
  unfold applyGraphicsOption
  split
  case h_1 h | h_2 h =>
    have hi : i < options.length := lt_length_of_ofInt_ne_off (by simp [h])
    apply isSome_bind (subspan_isSome.mpr hi)
    intro rest
    rfl
  case h_3 => rfl

theorem applyGraphicsOption_pos {options : VTParameters} {i consumed : Nat} {attr attr' : TextAttribute}
    (h : applyGraphicsOption options i attr = some (consumed, attr')) : 0 < consumed := by
  unfold applyGraphicsOption at h
  split at h
  case h_1 | h_2 =>
    simp only [Option.bind_eq_bind, Option.bind_eq_some_iff] at h
    simp at h
    omega
  case h_3 =>
    obtain ⟨rfl, -⟩ : 1 = consumed ∧ _ := by simpa using h
    exact Nat.one_pos

theorem applyGraphicsOptions_isSome (options : VTParameters) (attr : TextAttribute) :
    (applyGraphicsOptions options attr).isSome :=
  optionLoop_isSome (applyGraphicsOption_isSome options) (fun _ _ _ _ => applyGraphicsOption_pos) attr

theorem applyGraphicsOptions_ends (options : VTParameters) (attr : TextAttribute) :
    ∃ result, applyGraphicsOptions options attr = some result ∧ ∀ more,
      optionLoop options.size (applyGraphicsOption options) (options.size + more) 0 attr = some result ∧
      ∀ i attr, ∃ consumed attr', applyGraphicsOption options i attr = some (consumed, attr') ∧ 0 < consumed := by
  obtain ⟨result, hresult⟩ := optionLoop_ends (applyGraphicsOption_isSome options)
    (fun _ _ _ _ => applyGraphicsOption_pos) (Nat.le_add_left options.size 0) attr
  refine ⟨result, hresult 0, fun more => ⟨hresult more, fun i attr => ?_⟩⟩
  obtain ⟨⟨consumed, attr'⟩, hoption⟩ := Option.isSome_iff_exists.mp (applyGraphicsOption_isSome options i attr)
  exact ⟨consumed, attr', hoption, applyGraphicsOption_pos hoption⟩

theorem changeAttributesOps_isSome (attrs : VTParameters) : (changeAttributesOps attrs).isSome := by
  apply isSome_bind (applyGraphicsOptions_isSome attrs _)
  intro allAttrsOff
  apply isSome_bind (applyGraphicsOptions_isSome attrs _)
  intro allAttrsOn
  rfl

theorem reverseOption_spec (attrs : VTParameters) (i : Nat) (mask : CharacterAttributes) :
    ∃ consumed mask', reverseOption attrs i mask = some (consumed, mask') ∧ 0 < consumed := by
  unfold reverseOption
  split_ifs
  · exact ⟨1, _, rfl, Nat.one_pos⟩
  · obtain ⟨⟨consumed, attr⟩, hoption⟩ := Option.isSome_iff_exists.mp (applyGraphicsOption_isSome attrs i {})
    rw [hoption]
    exact ⟨consumed, _, rfl, applyGraphicsOption_pos hoption⟩

theorem reverseMask_isSome (attrs : VTParameters) : (reverseMask attrs).isSome := by
  unfold reverseMask
  split_ifs
  · rfl
  · apply optionLoop_isSome
    · intro i mask
      obtain ⟨consumed, mask', hoption, -⟩ := reverseOption_spec attrs i mask
      exact Option.isSome_iff_exists.mpr ⟨_, hoption⟩
    · intro i mask consumed mask' h
      obtain ⟨consumed', mask'', hoption, hpos⟩ := reverseOption_spec attrs i mask
      grind

end Terminal.Adapter
