import Workplan.Decimal.Shortest

/-!
# The nearest binary number

Rounding of a fraction to the nearest binary number of 64 bits, ties to the even one, in exact
arithmetic.
-/

namespace Workplan
namespace Decimal

/-- `num / den` rounded to the nearest integer, ties to the even one. -/
def divideToEven (num den : Nat) : Nat :=
  let quotient := num / den
  match compare (2 * (num % den)) den with
  | .lt => quotient
  | .gt => quotient + 1
  | .eq => if quotient % 2 == 0 then quotient else quotient + 1

/-- A fraction in units of `2 ^ exponent`, rounded to an integer. -/
def Fraction.inUnits (x : Fraction) (exponent : Int) : Nat :=
  if 0 ≤ exponent then divideToEven x.num (x.den * Nat.pow 2 exponent.toNat)
  else divideToEven (x.num * Nat.pow 2 (-exponent).toNat) x.den

/-- The `p` with `2 ^ p ≤ x < 2 ^ (p + 1)` for a positive fraction `x`. -/
def Fraction.leadingBit (x : Fraction) : Int :=
  let guess : Int := (x.num.log2 : Int) - x.den.log2
  let atLeast : Bool :=
    if 0 ≤ guess then x.den * Nat.pow 2 guess.toNat ≤ x.num
    else x.den ≤ x.num * Nat.pow 2 (-guess).toNat
  if atLeast then guess else guess - 1

def Fraction.nearestBits? (x : Fraction) : Option UInt64 :=
  let exponent := max (x.leadingBit - 52) (-1074)
  let mantissa := x.inUnits exponent
  let (mantissa, exponent) :=
    if mantissa == Nat.pow 2 53 then (Nat.pow 2 52, exponent + 1) else (mantissa, exponent)
  if exponent > 971 then none
  else if mantissa < Nat.pow 2 52 then some (UInt64.ofNat mantissa)
  else some (UInt64.ofNat ((exponent + 1075).toNat * Nat.pow 2 52 + (mantissa - Nat.pow 2 52)))

/-- The binary number nearest to `digits * 10 ^ exponent`, if that is finite. -/
def nearest? (digits : Nat) (exponent : Int) : Option Float :=
  let leading : Int := (Nat.toDigits 10 digits).length + exponent
  if digits == 0 || leading < -400 then some 0.0
  else if leading > 400 then none
  else ((Fraction.ofPower digits 10 exponent).nearestBits?).map Float.ofBits

end Decimal
end Workplan
