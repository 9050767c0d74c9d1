import Terminal.Parser.Chars

/-! # Identifiers and parameters of a sequence (`DispatchTypes.hpp`) -/

namespace Terminal.Parser

/-! ## Identifiers -/

/-- A `uint64_t` of byte lanes, the first character lowest. -/
abbrev VTID := BitVec 64

namespace VTID

def fromString (s : List Char) : VTID :=
  s.foldr (fun c value => (value <<< 8) + BitVec.ofNat 64 c.toNat) 0

end VTID

structure VTIDBuilder where
  idAccumulator : BitVec 64 := 0
  idShift : Nat := 0
deriving DecidableEq, Repr

namespace VTIDBuilder

def clear (_ : VTIDBuilder) : VTIDBuilder := {}

def addIntermediate (b : VTIDBuilder) (intermediateChar : Wchar) : VTIDBuilder :=
  if b.idShift + 8 ≥ 64 then
    -- No room for the character and a final one: drop everything collected so far.
    { b with idAccumulator := 0 }
  else
    { idAccumulator := b.idAccumulator + intermediateChar.setWidth 64 <<< b.idShift
      idShift := b.idShift + 8 }

def finalize (b : VTIDBuilder) (finalChar : Wchar) : VTID :=
  b.idAccumulator + finalChar.setWidth 64 <<< b.idShift

end VTIDBuilder

/-! ## Parameters -/

/-- An `int32_t`; a negative value is an omitted parameter. -/
structure VTParameter where
  value : Int := -1
deriving DecidableEq, Repr

namespace VTParameter

def valueOr (p : VTParameter) (defaultValue : Int) : Int :=
  if p.value < 0 then defaultValue else p.value

def toEnum (p : VTParameter) : Int := p.valueOr 0

def toVTInt (p : VTParameter) : Int := if p.value ≤ 0 then 1 else p.value

end VTParameter

abbrev VTParameters := List VTParameter

namespace VTParameters

def at' (ps : VTParameters) (index : Nat) : VTParameter := ps.getD index {}

/-- An empty list counts as one default parameter. -/
def size (ps : VTParameters) : Nat := max ps.length 1

/-- Past the end, where `std::span::subspan` is undefined, `none`. -/
def subspan (ps : VTParameters) (offset : Nat) : Option VTParameters :=
  if offset ≤ ps.length then some (ps.drop offset) else none

def values (ps : VTParameters) : List VTParameter := if ps.isEmpty then [{}] else ps

end VTParameters

end Terminal.Parser
