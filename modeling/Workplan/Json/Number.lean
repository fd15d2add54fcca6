import Workplan.Decimal.Nearest

/-!
# Numbers of data files

A number is an integer of 64 bits, kept exactly, or a binary number of 64 bits. The first part
reads the spelling of a number, the second writes a number.
-/

namespace Workplan

inductive Number where
  | integer (n : Int)
  | decimal (x : Float)
deriving Inhabited

namespace Number

/-- The integers that are kept exactly: those of 64 bits, with or without a sign. -/
def isExact (n : Int) : Bool :=
  -0x8000000000000000 ≤ n && n ≤ 0xFFFFFFFFFFFFFFFF

/-- The parts of the spelling of a number. The exponent has its sign and its digits. -/
structure Spelling where
  negative : Bool
  whole : List Char
  fraction : List Char
  exponent : Option (Bool × List Char)

def digitValue (c : Char) : Nat :=
  c.toNat - '0'.toNat

def significandLimit : Nat := 0xFFFFFFFFFFFFFFFF

/--
Adds digits to a significand as long as it stays within the limit. Gives the significand and
the digits that were left over.
-/
def takeDigits (significand : Nat) : List Char → Nat × List Char
  | [] => (significand, [])
  | c :: rest =>
    let next := significand * 10 + digitValue c
    if next ≤ significandLimit then takeDigits next rest else (significand, c :: rest)

def exponentValue (digits : List Char) : Nat :=
  digits.foldl (fun n c => 10 * n + digitValue c) 0

/-- The largest exponent that is counted; a larger one only says huge or tiny. -/
def exponentLimit : Nat := 0x7FFFFFFF

def powerOfTen (exponent : Nat) : Float :=
  (Decimal.nearest? 1 exponent).getD 0

/--
Scales `x` by a power of ten: one multiplication or division by a power that is itself a binary
number of 64 bits, with a division by the largest such power before it as often as needed.
Nothing comes out where the result would be infinite.
-/
def scale (x : Float) (exponent : Int) : Nat → Option Float
  | 0 => if x == 0 then some x else none
  | fuel + 1 =>
    let power := exponent.natAbs
    if power ≤ 308 then
      let factor := powerOfTen power
      if 0 ≤ exponent then
        let y := x * factor
        if y.isInf then none else some y
      else some (x / factor)
    else if x == 0 then some x
    else if 0 ≤ exponent then none
    else scale (x / powerOfTen 308) (exponent + 308) fuel

def assemble (negative : Bool) (significand : Nat) (exponent : Int) : Option Number :=
  (scale (UInt64.ofNat significand).toFloat exponent 10).map fun x =>
    .decimal (if negative then -x else x)

def applyExponent (negative : Bool) (significand : Nat) (start : Int) :
    Option (Bool × List Char) → Option Number
  | none => assemble negative significand start
  | some (down, digits) =>
    let e := exponentValue digits
    if e ≤ exponentLimit then
      assemble negative significand (if down then start - e else start + e)
    else if significand != 0 && !down then none
    else some (.decimal (if negative then -0.0 else 0.0))

/--
The number that a spelling denotes, if it is in range. Digits beyond 64 bits of significand do
not count. A spelling without fraction and exponent is an integer as far as it fits; minus zero
is not an integer.
-/
def ofSpelling (s : Spelling) : Option Number :=
  let (significand, left) := takeDigits 0 s.whole
  let (significand', leftFraction) := takeDigits significand s.fraction
  let start : Int := (left.length : Int) - ((s.fraction.length - leftFraction.length : Nat) : Int)
  if s.fraction.isEmpty && s.exponent.isNone && left.isEmpty then
    if !s.negative then some (.integer significand)
    else if 0 < significand && significand ≤ 0x8000000000000000 then some (.integer (-(significand : Int)))
    else some (.decimal (-(UInt64.ofNat significand).toFloat))
  else applyExponent s.negative significand' start s.exponent

/--
How a finite binary number is written: positional with a point when the exponent of its leading
digit is between -5 and 15, else with one digit before the point and an exponent.
-/
def positional (digits : List Char) (exponent : Int) : List Char :=
  let point : Int := digits.length + exponent
  if 0 ≤ exponent && point ≤ 16 then
    digits ++ List.replicate exponent.toNat '0' ++ ['.', '0']
  else if 0 < point && point ≤ 16 then
    digits.take point.toNat ++ ['.'] ++ digits.drop point.toNat
  else if -5 < point && point ≤ 0 then
    ['0', '.'] ++ List.replicate (-point).toNat '0' ++ digits
  else
    let mantissa :=
      match digits with
      | [d] => [d]
      | d :: rest => d :: '.' :: rest
      | [] => []
    mantissa ++ ['e'] ++ (toString (point - 1)).toList

def text : Number → String
  | integer n => toString n
  | decimal x =>
    let (negative, b) := Decimal.ofFloat x
    let digits :=
      if b.mantissa == 0 then ['0', '.', '0']
      else
        let d := b.shortest
        positional (Nat.toDigits 10 d.digits) d.exponent
    String.ofList (if negative then '-' :: digits else digits)

end Number
end Workplan
