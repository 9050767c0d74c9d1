import Terminal.Adapter.SgrItems
import Terminal.Parser.Hyperlink

/-!
# The attributes of the connected terminal

`Xterm256Engine` sends only what differs from what it sent last (`paint.cpp`,
`Xterm256Engine.cpp`, `VtSequences.cpp`). The connected terminal is that of this repository.
-/

namespace Terminal.Renderer

open Terminal.Parser (Wchar ESC csiText formatNat formatParams parametersOf idParameter parseHyperlink)
open Terminal.Buffer Terminal.Adapter

/-! ## Sequences -/

inductive VtSequence
  | sgr (items : List SgrItem)
  /-- OSC 8 with the string after the number. -/
  | hyperlink (string : List Wchar)
  | lockingShift (g1 : Bool)
deriving DecidableEq, Repr

def VtSequence.text : VtSequence → List Wchar
  | .sgr items => csiText [] (items.flatMap SgrItem.params) [] 0x6D
  | .hyperlink string => [ESC, 0x5D, 0x38, 0x3B] ++ string ++ [ESC, 0x5C]
  | .lockingShift g1 => [if g1 then 0x0E else 0x0F]

def setGraphicsDefault : VtSequence := .sgr []

def setGraphicsRendition16Color (index : BitVec 8) (isForeground : Bool) : VtSequence :=
  let first := if index &&& 8 != 0 then (if isForeground then 90 else 100) else (if isForeground then 30 else 40)
  .sgr [.option (first + (index &&& 7).toNat)]

def setGraphicsRendition256Color (index : BitVec 8) (isForeground : Bool) : VtSequence :=
  .sgr [.index256 isForeground index]

def setGraphicsRenditionRGBColor (red green blue : BitVec 8) (isForeground : Bool) : VtSequence :=
  .sgr [.rgb isForeground red green blue]

def setGraphicsRenditionDefaultColor (isForeground : Bool) : VtSequence :=
  .sgr [.option (if isForeground then 39 else 49)]

def setRendition (on off : Nat) (isSet : Bool) : VtSequence := .sgr [.option (if isSet then on else off)]

def setIntense := setRendition 1 22
def setFaint := setRendition 2 22
def setUnderlined := setRendition 4 24
def setDoublyUnderlined := setRendition 21 24
def setOverlined := setRendition 53 55
def setItalic := setRendition 3 23
def setBlinking := setRendition 5 25
def setInvisible := setRendition 8 28
def setCrossedOut := setRendition 9 29
def setReverseVideo := setRendition 7 27

/-- An id of the application is marked with a `u`. -/
def setHyperlink (sessionID : Nat) (uri customId : List Wchar) (numberId : BitVec 16) : VtSequence :=
  .hyperlink (idParameter ++ (if customId.isEmpty then formatNat sessionID ++ [0x2D] ++ formatNat numberId.toNat
      else [0x75, 0x2D] ++ customId) ++ [0x3B] ++ uri)

def endHyperlink : VtSequence := .hyperlink [0x3B]

/-! ## The engine -/

/-- No URI is empty, no id has a semicolon. -/
structure RenderData where
  getHyperlinkUri : BitVec 16 → List Wchar
  getHyperlinkCustomId : BitVec 16 → List Wchar
  uri_ne_nil : ∀ id, getHyperlinkUri id ≠ []
  customId_plain : ∀ id, 0x3B ∉ getHyperlinkCustomId id

structure VtEngine where
  lastTextAttributes : TextAttribute := {}
  usingSoftFont : Bool := false
  passthrough : Bool := false
  written : List VtSequence := []
deriving DecidableEq, Repr

namespace VtEngine

section

-- whether the next write succeeds, after what was written so far
variable (pipe : List VtSequence → Bool)

def write (sequence : VtSequence) (e : VtEngine) : Option VtEngine :=
  if pipe e.written then some { e with written := e.written ++ [sequence] } else none

def update (sequence : VtSequence) (change : TextAttribute → TextAttribute) (e : VtEngine) : Option VtEngine := do
  let e ← e.write pipe sequence
  return { e with lastTextAttributes := change e.lastTextAttributes }

def updateIf (condition : Bool) (sequence : VtSequence) (change : TextAttribute → TextAttribute) (e : VtEngine) :
    Option VtEngine :=
  if condition then e.update pipe sequence change else some e

def colorSequence (color : TextColor) (isForeground : Bool) : VtSequence :=
  match color with
  | .default => setGraphicsRenditionDefaultColor isForeground
  | .index16 index => setGraphicsRendition16Color index isForeground
  | .index256 index => setGraphicsRendition256Color index isForeground
  | .rgb red green blue => setGraphicsRenditionRGBColor red green blue isForeground

def rgbUpdateDrawingBrushes (textAttributes : TextAttribute) (e : VtEngine) : Option VtEngine := do
  let fg := textAttributes.foreground
  let bg := textAttributes.background
  let last := e.lastTextAttributes
  let e ← e.updateIf pipe
    (fg.isDefault && bg.isDefault && !(last.foreground.isDefault && last.background.isDefault)) setGraphicsDefault
    fun last => last.setDefaultBackground.setDefaultForeground.setDefaultRenditionAttributes
  let e ← e.updateIf pipe (fg != e.lastTextAttributes.foreground) (colorSequence fg true) (·.setForeground fg)
  e.updateIf pipe (bg != e.lastTextAttributes.background) (colorSequence bg false) (·.setBackground bg)

def updateHyperlinkAttr (sessionID : Nat) (pData : RenderData) (textAttributes : TextAttribute) (e : VtEngine) :
    Option VtEngine :=
  let id := textAttributes.hyperlinkId
  e.updateIf pipe (id != e.lastTextAttributes.hyperlinkId)
    (if textAttributes.isHyperlink then
      setHyperlink sessionID (pData.getHyperlinkUri id) (pData.getHyperlinkCustomId id) id
    else endHyperlink)
    (·.setHyperlinkId id)

/-- Two attributes that one option turns off. -/
def updatePair (first second : CharacterAttributes) (setFirst setSecond : Bool → VtSequence)
    (textAttributes : TextAttribute) (e : VtEngine) : Option VtEngine := do
  let isSet (flag : CharacterAttributes) (e : VtEngine) := e.lastTextAttributes.isFlagSet flag
  let firstTurnedOff := !textAttributes.isFlagSet first && isSet first e
  let secondTurnedOff := !textAttributes.isFlagSet second && isSet second e
  let e ← e.updateIf pipe (firstTurnedOff || secondTurnedOff) (setFirst false)
    fun last => (last.updateFlag first false).updateFlag second false
  let e ← e.updateIf pipe (textAttributes.isFlagSet first && !isSet first e) (setFirst true)
    (·.updateFlag first true)
  e.updateIf pipe (textAttributes.isFlagSet second && !isSet second e) (setSecond true) (·.updateFlag second true)

def updateSingle (flag : CharacterAttributes) (setFlag : Bool → VtSequence) (textAttributes : TextAttribute)
    (e : VtEngine) : Option VtEngine :=
  let wanted := textAttributes.isFlagSet flag
  e.updateIf pipe (wanted != e.lastTextAttributes.isFlagSet flag) (setFlag wanted) (·.updateFlag flag wanted)

open CharacterAttributes in
def updateExtendedAttrs (textAttributes : TextAttribute) (e : VtEngine) : Option VtEngine := do
  let e ← e.updatePair pipe intense faint setIntense setFaint textAttributes
  let e ← e.updatePair pipe underlined doublyUnderlined setUnderlined setDoublyUnderlined textAttributes
  let e ← e.updateSingle pipe topGridline setOverlined textAttributes
  let e ← e.updateSingle pipe italics setItalic textAttributes
  let e ← e.updateSingle pipe blinking setBlinking textAttributes
  let e ← e.updateSingle pipe invisible setInvisible textAttributes
  let e ← e.updateSingle pipe crossedOut setCrossedOut textAttributes
  e.updateSingle pipe reverseVideo setReverseVideo textAttributes

structure Brushes where
  textAttributes : TextAttribute
  usingSoftFont : Bool := false
  isSettingDefaultBrushes : Bool := false
deriving DecidableEq, Repr

def updateSoftFont (brushes : Brushes) (e : VtEngine) : Option VtEngine :=
  if brushes.usingSoftFont != e.usingSoftFont && !brushes.isSettingDefaultBrushes then do
    let e ← e.write pipe (.lockingShift brushes.usingSoftFont)
    return { e with usingSoftFont := brushes.usingSoftFont }
  else some e

def skips (brushes : Brushes) (e : VtEngine) : Bool := e.passthrough && brushes.isSettingDefaultBrushes

def updateDrawingBrushes (sessionID : Nat) (pData : RenderData) (brushes : Brushes) (e : VtEngine) :
    Option VtEngine :=
  if e.skips brushes then some e
  else do
    let e ← e.rgbUpdateDrawingBrushes pipe brushes.textAttributes
    let e ← e.updateHyperlinkAttr pipe sessionID pData brushes.textAttributes
    let e ← e.updateSoftFont pipe brushes
    e.updateExtendedAttrs pipe brushes.textAttributes

end

end VtEngine

/-! ## The terminal -/

/-- The attributes of the terminal, and whether a hyperlink is open. -/
structure Connected where
  attr : TextAttribute := {}
  linked : Bool := false
deriving DecidableEq, Repr

/-- An OSC 8 with a URI adds a hyperlink, one without ends it. -/
def Connected.receive (t : Connected) : VtSequence → Connected
  | .sgr items =>
    let options := parametersOf (formatParams (items.flatMap SgrItem.params))
    { t with attr := (applyGraphicsOptions options t.attr).getD t.attr }
  | .hyperlink string =>
    match parseHyperlink string with
    | none => t
    | some (_, uri) => { t with linked := !uri.isEmpty }
  | .lockingShift _ => t

def Connected.receiveAll (t : Connected) (sequences : List VtSequence) : Connected := sequences.foldl receive t

end Terminal.Renderer
