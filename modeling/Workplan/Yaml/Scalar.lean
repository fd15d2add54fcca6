import Workplan.Document.Basic
import Workplan.Yaml.Token

/-!
# Scalars of Yaml

What the scalars of a Yaml text say. Without quotes and without a tag, the spelling decides: some
words are null or booleans, some spellings are numbers, and the rest is text.
-/

namespace Workplan
namespace Yaml

/-- The tags of the types that the spelling of a scalar may decide. -/
inductive CoreTag where
  | null
  | bool
  | int
  | float
deriving DecidableEq

namespace CoreTag

def ofName? : String → Option CoreTag
  | "tag:yaml.org,2002:null" => some null
  | "tag:yaml.org,2002:bool" => some bool
  | "tag:yaml.org,2002:int" => some int
  | "tag:yaml.org,2002:float" => some float
  | _ => none

def ofTag? (tag : TagText) : Option CoreTag :=
  tag.toString?.bind ofName?

end CoreTag

/-- The label that a tag of the document itself gives to a node, if it is a text. -/
def label? (tag : Option TagText) : Option String :=
  match tag with
  | some (some '!' :: label) => TagText.toString? label
  | _ => none

/-- Whether the spelling of a plain scalar decides what it says: there is no tag, or one that
belongs to the document and gives no label. -/
def isOpen (tag : Option TagText) : Bool :=
  tag.all TagText.isLocal && (label? tag).isNone

namespace Spelling

def isNullWord (s : String) : Bool :=
  s == "null" || s == "Null" || s == "NULL" || s == "~"

def isNull (s : String) : Bool :=
  s.isEmpty || isNullWord s

def bool? (s : String) : Option Bool :=
  if s == "true" || s == "True" || s == "TRUE" then some true
  else if s == "false" || s == "False" || s == "FALSE" then some false
  else none

def splitSign : List Char → Bool × List Char
  | '-' :: s => (true, s)
  | '+' :: s => (false, s)
  | s => (false, s)

/-- Digits with a zero in front of others: these are no number. -/
def isPadded (s : List Char) : Bool :=
  match (splitSign s).2 with
  | '0' :: d :: rest => (d :: rest).all Char.isDigit
  | _ => false

def digit? (base : Nat) (c : Char) : Option Nat :=
  let value :=
    if c.isDigit then c.toNat - '0'.toNat
    else if 'a' ≤ c && c ≤ 'f' then c.toNat - 'a'.toNat + 10
    else if 'A' ≤ c && c ≤ 'F' then c.toNat - 'A'.toNat + 10
    else base
  if value < base then some value else none

def natural? (base : Nat) (digits : List Char) : Option Nat :=
  if digits.isEmpty then none
  else digits.foldlM (fun n c => (digit? base c).map (base * n + ·)) 0

def unsigned? (s : List Char) : Option Nat :=
  match s with
  | '0' :: 'x' :: digits => natural? 16 digits
  | '0' :: 'o' :: digits => natural? 8 digits
  | '0' :: 'b' :: digits => natural? 2 digits
  | _ => if isPadded s then none else natural? 10 s

def integer? (s : List Char) : Option Int :=
  let (negative, digits) := splitSign s
  (unsigned? digits).map fun n => if negative then -(n : Int) else n

/-- Whether an integer has at most 128 bits, with a sign if it is negative. -/
def isWide (n : Int) : Bool :=
  -(Nat.pow 2 127 : Int) ≤ n && n < (Nat.pow 2 128 : Int)

def exponent? (s : List Char) : Option Int :=
  match s with
  | [] => some 0
  | c :: s =>
    if c == 'e' || c == 'E' then
      let (negative, digits) := splitSign s
      (natural? 10 digits).map fun n => if negative then -(n : Int) else n
    else none

def magnitude? (s : List Char) : Option Float :=
  let whole := s.takeWhile Char.isDigit
  let rest := s.drop whole.length
  let (fraction, rest) := match rest with
    | '.' :: rest => (rest.takeWhile Char.isDigit, rest.dropWhile Char.isDigit)
    | rest => ([], rest)
  match natural? 10 (whole ++ fraction), exponent? rest with
  | some digits, some exponent => Decimal.nearest? digits (exponent - fraction.length)
  | _, _ => none

def isInfinity (s : String) : Bool :=
  s == ".inf" || s == ".Inf" || s == ".INF"

def isNotNumber (s : String) : Bool :=
  s == ".nan" || s == ".NaN" || s == ".NAN"

def float? (s : String) : Option Atom :=
  let (negative, digits) := splitSign s.toList
  if isNotNumber s || isInfinity (String.ofList digits) then some .nonFinite
  else (magnitude? digits).map fun x => .number (.decimal (if negative then -x else x))

/-- The number that an integer of at most 128 bits is; only 64 bits can be kept. -/
def integerAtom? (n : Int) : Option Atom :=
  if Number.isExact n then some (.number (.integer n)) else none

/-- What a plain scalar without a tag says. Nothing is meant by an integer of 65 to 128 bits. -/
def atom? (s : String) : Option Atom :=
  if isNull s then some .null
  else
    match bool? s with
    | some b => some (.bool b)
    | none =>
      let chars := s.toList
      match (integer? chars).filter isWide with
      | some n => integerAtom? n
      | none =>
        if isPadded chars then some (.text s)
        else some ((float? s).getD (.text s))

def tagged? (tag : CoreTag) (s : String) : Option Atom :=
  match tag with
  | .null => if isNullWord s then some .null else none
  | .bool => (bool? s).map .bool
  | .int => ((integer? s.toList).filter isWide).bind integerAtom?
  | .float => float? s

end Spelling

open Spelling in
def readings (tag : Option TagText) (style : ScalarStyle) (text : String) : Scalar :=
  let isPlain := style == .plain
  let core := tag.bind CoreTag.ofTag?
  { typed :=
      if (label? tag).isSome then none
      else
        match core with
        | some core => tagged? core text
        | none => if isOpen tag && isPlain then atom? text else some (.text text)
    text := some text
    bool := if isPlain || (style == .literal && core == some .bool) then bool? text else none
    present :=
      if !isPlain then some true
      else
        match tag, core with
        | none, _ => some (!isNull text)
        | _, some .null => if isNullWord text then some false else none
        | _, _ => some true
    choice :=
      match label? tag with
      | some label =>
        if isPlain && isNull text then some label else none
      | none => some text
    isVoid := isPlain && text.isEmpty }

end Yaml
end Workplan
