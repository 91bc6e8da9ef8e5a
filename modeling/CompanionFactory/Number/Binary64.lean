/-!
# Doubles as bits

A double is its 64 bits: a sign, 11 bits of exponent and 52 bits of fraction.  The finite ones
have the magnitude `significand * 2 ^ exponent`.  Equality is that of arithmetic: not-a-number
differs from itself, and the two zeros are equal.
-/

namespace CompanionFactory

/-- A double by its bits. -/
structure Binary64 where
  bits : UInt64
  deriving DecidableEq, Repr

namespace Binary64

def exponentField (x : Binary64) : Nat :=
  x.bits.toNat / Nat.pow 2 52 % Nat.pow 2 11

def fractionField (x : Binary64) : Nat :=
  x.bits.toNat % Nat.pow 2 52

def isNegative (x : Binary64) : Bool :=
  decide (Nat.pow 2 63 ≤ x.bits.toNat)

def isNaN (x : Binary64) : Bool :=
  decide (x.exponentField = 2047 ∧ x.fractionField ≠ 0)

def isInfinite (x : Binary64) : Bool :=
  decide (x.exponentField = 2047 ∧ x.fractionField = 0)

def isZero (x : Binary64) : Bool :=
  decide (x.exponentField = 0 ∧ x.fractionField = 0)

/-- The significand of a finite double, with its leading one unless the double is subnormal. -/
def significand (x : Binary64) : Nat :=
  if x.exponentField = 0 then x.fractionField else Nat.pow 2 52 + x.fractionField

/-- The power of two that scales the significand. -/
def exponent (x : Binary64) : Int :=
  max x.exponentField 1 - 1075

/-- Whether the next double below is only half as far away as the next one above. -/
def isBinadeStart (x : Binary64) : Bool :=
  decide (x.fractionField = 0 ∧ 1 < x.exponentField)

/-- Arithmetic equality. -/
def same (x y : Binary64) : Bool :=
  !x.isNaN && !y.isNaN && (x.bits == y.bits || (x.isZero && y.isZero))

end Binary64

end CompanionFactory
