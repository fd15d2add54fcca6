import Workplan.Yaml.Cursor

/-!
# Quoted scalars

In single quotes, a quote is written twice. In double quotes, a backslash begins an escape. In
both, breaks are folded.
-/

namespace Workplan
namespace Yaml
namespace Quoted

def shortEscape? : Char → Option Char
  | '0' => some '\x00'
  | 'a' => some '\x07'
  | 'b' => some '\x08'
  | 't' => some '\t'
  | '\t' => some '\t'
  | 'n' => some '\n'
  | 'v' => some '\x0b'
  | 'f' => some '\x0c'
  | 'r' => some '\r'
  | 'e' => some '\x1b'
  | ' ' => some ' '
  | '"' => some '"'
  | '/' => some '/'
  | '\\' => some '\\'
  | 'N' => some '\u0085'
  | '_' => some '\u00a0'
  | 'L' => some '\u2028'
  | 'P' => some '\u2029'
  | _ => none

/-- The number of hexadecimal digits after an escape for a code point. -/
def codeLength? : Char → Option Nat
  | 'x' => some 2
  | 'u' => some 4
  | 'U' => some 8
  | _ => none

def hexValue? (c : Char) : Option Nat :=
  if c.isDigit then some (c.toNat - '0'.toNat)
  else if 'a' ≤ c && c ≤ 'f' then some (c.toNat - 'a'.toNat + 10)
  else if 'A' ≤ c && c ≤ 'F' then some (c.toNat - 'A'.toNat + 10)
  else none

def hexNumber? (digits : List Char) : Option Nat :=
  digits.foldlM (fun n c => (hexValue? c).map (16 * n + ·)) 0

def charOf? (n : Nat) : Option Char :=
  if n.isValidChar then some (Char.ofNat n) else none

inductive Stop where
  | here
  | escapedBreak

/--
Reads characters up to a blank, a break, the closing quote or an escaped break; `acc` is what was
read, reversed. `fuel` is at least the number of characters left.
-/
def run (single : Bool) : (fuel : Nat) → Cursor → (acc : List Char) →
    Option (List Char × Cursor × Stop)
  | 0, c, acc => some (acc, c, .here)
  | fuel + 1, c, acc =>
    match c.rest with
    | [] => some (acc, c, .here)
    | x :: s =>
      if isBlank x || isBreak x then some (acc, c, .here)
      else if single then
        if x == '\'' then
          if s.head? == some '\'' then run single fuel (c.skip 2) ('\'' :: acc)
          else some (acc, c, .here)
        else run single fuel (c.skip 1) (x :: acc)
      else if x == '"' then some (acc, c, .here)
      else if x == '\\' then
        match s with
        | [] => none
        | e :: digits =>
          if isBreak e then some (acc, (c.skip 1).lineBreak.2, .escapedBreak)
          else
            match shortEscape? e, codeLength? e with
            | some u, _ => run single fuel (c.skip 2) (u :: acc)
            | none, some n =>
              if digits.length < n then none
              else
                match (hexNumber? (digits.take n)).bind charOf? with
                | some u => run single fuel (c.skip (2 + n)) (u :: acc)
                | none => none
            | none, none => none
      else run single fuel (c.skip 1) (x :: acc)

/-- Reads the inside of a quoted scalar and its closing quote; `text` is what was read, reversed. -/
def go (single : Bool) : (fuel : Nat) → Cursor → (text : List Char) → Option (List Char × Cursor)
  | 0, _, _ => none
  | fuel + 1, c, text =>
    if c.atDocumentMarker || c.rest.isEmpty then none
    else
      match run single c.rest.length c text with
      | none => none
      | some (text, c, stop) =>
        if c.rest.head? == some (if single then '\'' else '"') then some (text, c.skip 1)
        else
          let gap := match stop with
            | .here => Gap.none
            | .escapedBreak => Gap.escaped
          match Gap.read 0 c.rest.length c gap with
          | none => none
          | some (c, gap) => go single fuel c (gap.text.reverse ++ text)

def read (single : Bool) (c : Cursor) : Option (List Char × Cursor) :=
  (go single (c.rest.length + 1) (c.skip 1) []).map fun (text, c) => (text.reverse, c)

end Quoted
end Yaml
end Workplan
