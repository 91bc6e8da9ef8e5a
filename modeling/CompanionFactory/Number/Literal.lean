import CompanionFactory.Number.Shortest

/-!
# Double literals

How a double is written in source.  Plain notation has at least one digit on either side of the
point and is used for zero and from `10 ^ -4` up to, but not including, `10 ^ 16`; everything
else is written with an exponent, which has neither a plus sign nor leading zeros.  The three
values without a literal are written as divisions by zero.
-/

namespace CompanionFactory

namespace Decimal

/-- Whether the decimal is written without an exponent. -/
def isPlain (d : Decimal) : Bool :=
  decide (-3 ≤ d.point ∧ d.point ≤ 16)

/-- Plain notation. -/
def plain (d : Decimal) : List Char :=
  if d.point ≤ 0 then
    ['0', '.'] ++ List.replicate (-d.point).toNat '0' ++ d.digits
  else
    let whole := d.point.toNat
    if whole < d.digits.length then d.digits.take whole ++ '.' :: d.digits.drop whole
    else d.digits ++ List.replicate (whole - d.digits.length) '0' ++ ['.', '0']

/-- Notation with an exponent; a single digit stands without a point. -/
def scientific (d : Decimal) : List Char :=
  let power := (toString (d.point - 1)).toList
  match d.digits with
  | [] => ['0', 'e'] ++ power
  | [digit] => [digit, 'e'] ++ power
  | digit :: more => digit :: '.' :: (more ++ 'e' :: power)

def text (d : Decimal) : List Char :=
  if d.isPlain then d.plain else d.scientific

end Decimal

/-- The literal of a double. -/
def Binary64.literal (x : Binary64) : String :=
  let sign := if x.isNegative then "-" else ""
  if x.isNaN then "0.0/0.0"
  else if x.isInfinite then sign ++ "1.0/0.0"
  else if x.isZero then sign ++ "0.0"
  else sign ++ String.ofList x.roundingInterval.shortest.text

end CompanionFactory
