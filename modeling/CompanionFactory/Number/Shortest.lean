import CompanionFactory.Number.Binary64

/-!
# Shortest decimals

The fewest decimal digits that read back as the same double.  All reals between the midpoints to
its two neighbours read back as a double, the midpoints themselves exactly when its significand
is even.  For one digit, two digits and so on, the two decimals of that many digits on either
side of the double are tried; the first number of digits with a hit wins, of two hits the nearer
one, and of two equally near ones the upper one.  Seventeen digits always suffice.

Everything is computed on natural numbers over one common denominator; no rounding is involved.
-/

namespace CompanionFactory

/-- The positive decimal `0.d₁d₂… * 10 ^ point`. -/
structure Decimal where
  digits : List Char
  point : Int
  deriving DecidableEq, Repr

/-- The reals that read back as one positive value: `low`, `value` and `high` over `denominator`,
the ends included when `closed`. -/
structure RoundingInterval where
  low : Nat
  value : Nat
  high : Nat
  denominator : Nat
  closed : Bool
  deriving Repr

/-- The reals that read back as the magnitude of a finite double other than zero. -/
def Binary64.roundingInterval (x : Binary64) : RoundingInterval :=
  let m := x.significand
  let grow := Nat.pow 2 x.exponent.toNat
  let shrink := Nat.pow 2 (-x.exponent).toNat
  { low := (4 * m - if x.isBinadeStart then 1 else 2) * grow
    value := 4 * m * grow
    high := (4 * m + 2) * grow
    denominator := 4 * shrink
    closed := m % 2 == 0 }

namespace RoundingInterval

/-- The position of the decimal point: the value is below `10 ^ point`, but not below
`10 ^ (point - 1)`.  Four hundred places reach below every positive double. -/
def point (r : RoundingInterval) : Int :=
  (Nat.toDigits 10 (r.value * Nat.pow 10 400 / r.denominator)).length - 400

/-- Whether the decimal `c * unit` over `denominator * scale` lies in the interval. -/
def contains (r : RoundingInterval) (scale unit c : Nat) : Bool :=
  if r.closed then decide (r.low * scale ≤ c * unit ∧ c * unit ≤ r.high * scale)
  else decide (r.low * scale < c * unit ∧ c * unit < r.high * scale)

/-- The nearest decimal of `count` digits in the interval, as the number its digits spell. -/
def nearest? (r : RoundingInterval) (count : Nat) : Option Nat :=
  let places := count - r.point
  let scale := Nat.pow 10 places.toNat
  let unit := r.denominator * Nat.pow 10 (-places).toNat
  let below := r.value * scale / unit
  let above := below + 1
  match r.contains scale unit below, r.contains scale unit above with
  | true, true =>
      if r.value * scale - below * unit < above * unit - r.value * scale then some below
      else some above
  | true, false => some below
  | false, true => some above
  | false, false => none

/-- The decimal of `count` digits spelled by `c`, without zeros at its end. -/
def decimal (r : RoundingInterval) (count c : Nat) : Decimal :=
  let digits := Nat.toDigits 10 c
  { digits := (digits.reverse.dropWhile (· == '0')).reverse
    point := r.point + digits.length - count }

/-- The shortest decimal in the interval. -/
def shortest (r : RoundingInterval) : Decimal :=
  let hit := (List.range' 1 17).findSome? fun count => (r.nearest? count).map (r.decimal count)
  hit.getD (r.decimal 17 (r.value * Nat.pow 10 (17 - r.point).toNat / r.denominator))

end RoundingInterval

end CompanionFactory
