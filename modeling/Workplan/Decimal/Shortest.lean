/-!
# The shortest decimal of a binary number

A 64-bit binary number stands for every real that rounds to it. Among the decimals of that
interval, the shortest one is the one with the fewest digits, and of several the one nearest to
the number itself; of two equally near, the even one. All arithmetic is exact.
-/

namespace Workplan
namespace Decimal

/-- The exact value `mantissa * 2 ^ exponent` of a positive binary number. -/
structure Binary where
  mantissa : Nat
  exponent : Int

/-- The value `digits * 10 ^ exponent`. -/
structure Scaled where
  digits : Nat
  exponent : Int
deriving DecidableEq

structure Fraction where
  num : Nat
  den : Nat

namespace Fraction

def ofPower (n base : Nat) (exponent : Int) : Fraction :=
  if 0 ≤ exponent then ⟨n * Nat.pow base exponent.toNat, 1⟩
  else ⟨n, Nat.pow base (-exponent).toNat⟩

def compare (a b : Fraction) : Ordering :=
  Ord.compare (a.num * b.den) (b.num * a.den)

/-- The position of the leading decimal digit: the `p` with `10 ^ p ≤ a < 10 ^ (p + 1)`. -/
def leadingPosition (a : Fraction) : Int :=
  if a.den ≤ a.num then (Nat.toDigits 10 (a.num / a.den)).length - 1
  else -(Nat.toDigits 10 ((a.den - 1) / a.num)).length

end Fraction

/-- Whether a binary number is the least one of its exponent, so that the gap below is half. -/
def Binary.isBoundary (b : Binary) : Bool :=
  b.mantissa == Nat.pow 2 52 && b.exponent != -1074

/-- The lower end of the reals that round to a binary number. -/
def Binary.lower (b : Binary) : Fraction :=
  if b.isBoundary then .ofPower (4 * b.mantissa - 1) 2 (b.exponent - 2)
  else .ofPower (2 * b.mantissa - 1) 2 (b.exponent - 1)

def Binary.upper (b : Binary) : Fraction :=
  .ofPower (2 * b.mantissa + 1) 2 (b.exponent - 1)

/-- Whether a decimal rounds to a binary number; the ends do when the mantissa is even. -/
def Binary.admits (b : Binary) (d : Scaled) : Bool :=
  let x := Fraction.ofPower d.digits 10 d.exponent
  if b.mantissa % 2 == 0 then b.lower.compare x != .gt && x.compare b.upper != .gt
  else b.lower.compare x == .lt && x.compare b.upper == .lt

/-- The neighbours of a binary number among the decimals of `count` digits. -/
def Binary.neighbours (b : Binary) (count : Nat) : Scaled × Scaled :=
  let x := Fraction.ofPower b.mantissa 2 b.exponent
  let exponent := x.leadingPosition - count + 1
  let digits :=
    if 0 ≤ exponent then x.num / (x.den * Nat.pow 10 exponent.toNat)
    else x.num * Nat.pow 10 (-exponent).toNat / x.den
  (⟨digits, exponent⟩, ⟨digits + 1, exponent⟩)

/-- Of two neighbours the nearer to a binary number, or the even one of two equally near. -/
def Binary.nearer (b : Binary) (below above : Scaled) : Scaled :=
  let x := Fraction.ofPower b.mantissa 2 b.exponent
  let middle := Fraction.ofPower (2 * below.digits + 1) 10 below.exponent
  match (Fraction.mk (2 * x.num) x.den).compare middle with
  | .lt => below
  | .gt => above
  | .eq => if below.digits % 2 == 0 then below else above

def Binary.withDigits? (b : Binary) (count : Nat) : Option Scaled :=
  let (below, above) := b.neighbours count
  match b.admits below, b.admits above with
  | true, true => some (b.nearer below above)
  | true, false => some below
  | false, true => some above
  | false, false => none

def Scaled.trim (d : Scaled) : Nat → Scaled
  | 0 => d
  | fuel + 1 =>
    if d.digits % 10 == 0 && d.digits != 0 then Scaled.trim ⟨d.digits / 10, d.exponent + 1⟩ fuel
    else d

def Binary.shortest (b : Binary) : Scaled :=
  match (List.range 18).findSome? fun n => b.withDigits? (n + 1) with
  | some d => d.trim 20
  | none => ⟨b.mantissa, 0⟩

def ofFloat (x : Float) : Bool × Binary :=
  let bits := x.toBits.toNat
  let exponent : Nat := bits / Nat.pow 2 52 % Nat.pow 2 11
  let fraction : Nat := bits % Nat.pow 2 52
  (bits / Nat.pow 2 63 == 1,
    if exponent == 0 then ⟨fraction, -1074⟩ else ⟨fraction + Nat.pow 2 52, (exponent : Int) - 1075⟩)

end Decimal
end Workplan
