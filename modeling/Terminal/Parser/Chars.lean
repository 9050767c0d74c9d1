import Mathlib.Data.List.Basic

/-!
# Code units and their classes

The predicates are the `static constexpr` classifiers at the top of `stateMachine.cpp`.
-/

namespace Terminal.Parser

abbrev Wchar := BitVec 16

/-! ## The control characters the parser names -/

def NUL : Wchar := 0x00
def BEL : Wchar := 0x07
def CAN : Wchar := 0x18
def SUB : Wchar := 0x1A
def ESC : Wchar := 0x1B

/-! ## Classes -/

variable (wch : Wchar)

def isNumericParamValue : Bool := 0x30 ≤ wch.toNat && wch.toNat ≤ 0x39

/-- All C0 codes but CAN, SUB and ESC. -/
def isC0Code : Bool :=
  wch.toNat ≤ 0x17 || wch.toNat == 0x19 || (0x1C ≤ wch.toNat && wch.toNat ≤ 0x1F)

def isC1ControlCharacter : Bool := 0x80 ≤ wch.toNat && wch.toNat ≤ 0x9F

def c1To7Bit : Wchar := wch - 0x40

def isIntermediate : Bool := 0x20 ≤ wch.toNat && wch.toNat ≤ 0x2F

def isDelete : Bool := wch.toNat == 0x7F

def isEscape : Bool := wch.toNat == 0x1B

def isParameterDelimiter : Bool := wch.toNat == 0x3B

def isCsiIndicator : Bool := wch.toNat == 0x5B

def isCsiPrivateMarker : Bool :=
  wch.toNat == 0x3C || wch.toNat == 0x3D || wch.toNat == 0x3E || wch.toNat == 0x3F

def isCsiInvalid : Bool := wch.toNat == 0x3A

def isIntermediateInvalid : Bool :=
  isNumericParamValue wch || isCsiInvalid wch || isParameterDelimiter wch || isCsiPrivateMarker wch

def isParameterInvalid : Bool := isCsiInvalid wch || isCsiPrivateMarker wch

def isStringTerminatorIndicator : Bool := wch.toNat == 0x5C

def isSs3Indicator : Bool := wch.toNat == 0x4F

def isVt52CursorAddress : Bool := wch.toNat == 0x59

def isOscIndicator : Bool := wch.toNat == 0x5D

def isOscDelimiter : Bool := wch.toNat == 0x3B

def isOscInvalid : Bool :=
  wch.toNat ≤ 0x17 || wch.toNat == 0x19 || (0x1C ≤ wch.toNat && wch.toNat ≤ 0x1F)

def isOscTerminator : Bool := wch.toNat == 0x07

def isDcsIndicator : Bool := wch.toNat == 0x50

def isDcsPassThroughValid : Bool := 0x20 ≤ wch.toNat && wch.toNat < 0x7F

def isSosIndicator : Bool := wch.toNat == 0x58

def isPmIndicator : Bool := wch.toNat == 0x5E

def isApcIndicator : Bool := wch.toNat == 0x5F

def isActionableFromGround : Bool :=
  wch.toNat ≤ 0x1F || isC1ControlCharacter wch || isDelete wch

/-- CAN and SUB, which abort a sequence in any state. -/
def isFromAnywhereChar : Bool := wch.toNat == 0x18 || wch.toNat == 0x1A

end Terminal.Parser
