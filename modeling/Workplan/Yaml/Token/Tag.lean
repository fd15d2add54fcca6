import Workplan.Yaml.Token
import Workplan.Yaml.Token.Quoted

/-!
# Names, tags and directives

The parts of a Yaml text that name things: anchors and aliases, the tags that say the type of a
node, and the directives at the start of a document.
-/

namespace Workplan
namespace Yaml
namespace Tag

/-- Reads the name of an anchor or alias, which begins after the indicator at `c`. -/
def name? (c : Cursor) : Option (String × Cursor) :=
  let c := c.skip 1
  let name := c.rest.takeWhile isNameChar
  let c := c.skip name.length
  let ends :=
    match c.rest with
    | [] => true
    | x :: _ => isBlank x || isBreak x || ['?', ':', ',', ']', '}', '%', '@', '`'].contains x
  if name.isEmpty || !ends then none else some (String.ofList name, c)

/-- The characters of a tag; inside angle brackets and in directives some more are allowed. -/
def isTagChar (verbatim : Bool) (c : Char) : Bool :=
  isNameChar c || [';', '/', '?', ':', '@', '&', '=', '+', '$', '.', '!', '~', '*', '\'', '(', ')',
    '%'].contains c || (verbatim && [',', '[', ']'].contains c)

/-- The number of bytes of a character whose first byte is given. -/
def byteCount? (first : Nat) : Option Nat :=
  if first < 0x80 then some 1
  else if 0xC0 ≤ first && first < 0xE0 then some 2
  else if 0xE0 ≤ first && first < 0xF0 then some 3
  else if 0xF0 ≤ first && first < 0xF8 then some 4
  else none

/-- Reads a byte that is written as a percent sign and two hexadecimal digits. -/
def byte? : List Char → Option (Nat × List Char)
  | '%' :: a :: b :: s => (Quoted.hexNumber? [a, b]).map (·, s)
  | _ => none

def moreBytes? : (count : Nat) → (value : Nat) → List Char → Option (Nat × List Char)
  | 0, value, s => some (value, s)
  | count + 1, value, s =>
    match byte? s with
    | some (b, s) => if b / 64 == 2 then moreBytes? count (value * 64 + b % 64) s else none
    | none => none

/-- The character of a code point that is written in a number of bytes, if it has as many. -/
def charOf? (value count : Nat) : Option Char :=
  (Quoted.charOf? value).filter fun c => c.utf8Size == count

def escaped? (s : List Char) : Option (Option Char × List Char) := do
  let (first, s) ← byte? s
  let count ← byteCount? first
  let lead := if count == 1 then first else first % Nat.pow 2 (7 - count)
  let (value, s) ← moreBytes? (count - 1) lead s
  return (charOf? value count, s)

/--
Reads the characters of a tag; `acc` is what was read, reversed. `fuel` is at least the number of
characters left.
-/
def chars? (verbatim : Bool) : (fuel : Nat) → List Char → (acc : TagText) →
    Option (TagText × List Char)
  | 0, s, acc => some (acc.reverse, s)
  | fuel + 1, s, acc =>
    match s with
    | [] => some (acc.reverse, [])
    | c :: rest =>
      if !isTagChar verbatim c then some (acc.reverse, c :: rest)
      else if c == '%' then
        match escaped? (c :: rest) with
        | some (u, rest) => chars? verbatim fuel rest (u :: acc)
        | none => none
      else chars? verbatim fuel rest (some c :: acc)

def readChars? (verbatim : Bool) (s : List Char) : Option (TagText × List Char) :=
  chars? verbatim s.length s []

/-- The part of a tag that counts: a zero byte ends it. -/
def upToZero (t : TagText) : TagText :=
  t.takeWhile (· != some '\x00')

def advance (c : Cursor) (rest : List Char) : Cursor :=
  c.skip (c.rest.length - rest.length)

/-- Reads an exclamation mark, name characters, and a second mark if there is one. -/
def handle? : List Char → Option (List Char × Bool × List Char)
  | '!' :: s =>
    let name := s.takeWhile isNameChar
    match s.drop name.length with
    | '!' :: rest => some ('!' :: name ++ ['!'], true, rest)
    | rest => some ('!' :: name, false, rest)
  | _ => none

def parts? (c : Cursor) : Option (String × TagText × Cursor) :=
  match c.rest with
  | '!' :: '<' :: s => do
    let (text, rest) ← readChars? true s
    if text.isEmpty then none
    else
      match rest with
      | '>' :: rest => some ("", upToZero text, advance c rest)
      | _ => none
  | s => do
    let (handle, closed, rest) ← handle? s
    let (text, rest) ← readChars? false rest
    if closed then
      if text.isEmpty then none
      else some (String.ofList handle, upToZero text, advance c rest)
    else
      let text := (handle.drop 1).map some ++ upToZero text
      if text.isEmpty then some ("", [some '!'], advance c rest)
      else some ("!", text, advance c rest)

/-- Reads a tag. A blank ends it, or inside brackets a comma. -/
def read (flow : Bool) (c : Cursor) : Option (Token × Cursor) :=
  match parts? c with
  | some (handle, rest, c) =>
    if atBlank c.rest || (flow && c.rest.head? == some ',') then some (.tag handle rest, c)
    else none
  | none => none

def versionNumber? (c : Cursor) : Option (Nat × Cursor) :=
  let digits := c.rest.takeWhile Char.isDigit
  if digits.isEmpty || digits.length > 9 then none
  else some (digits.foldl (fun n d => 10 * n + (d.toNat - '0'.toNat)) 0, c.skip digits.length)

def version? (c : Cursor) : Option (Token × Cursor) := do
  let (major, c) ← versionNumber? c.skipBlanks
  match c.rest with
  | '.' :: _ =>
    let (minor, c) ← versionNumber? (c.skip 1)
    return (.versionDirective major minor, c)
  | _ => none

def replacement? (c : Cursor) : Option (Token × Cursor) := do
  let c := c.skipBlanks
  let (handle, closed, rest) ← handle? c.rest
  let c := advance c rest
  if (!closed && handle != ['!']) || !c.rest.head?.any isBlank then none
  else
    let c := c.skipBlanks
    let (text, rest) ← readChars? true c.rest
    if text.isEmpty || !atBlank rest then none
    else some (.tagDirective (String.ofList handle) (upToZero text), advance c rest)

def directive? (c : Cursor) : Option (Token × Cursor) := do
  let c := c.skip 1
  let name := c.rest.takeWhile isNameChar
  let c := c.skip name.length
  if !atBlank c.rest then none
  else
    let (token, c) ←
      if name == ['Y', 'A', 'M', 'L'] then version? c
      else if name == ['T', 'A', 'G'] then replacement? c
      else none
    let c ← c.endLine?
    return (token, c)

end Tag
end Yaml
end Workplan
