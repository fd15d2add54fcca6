import Workplan.Json.Basic

/-!
# Writing Json

The compact form has no blanks at all. The indented form puts every item and member on a line
of its own, two blanks further in than the collection that holds it.
-/

namespace Workplan
namespace Json

def controlEscape (c : Char) : List Char :=
  let digits := Nat.toDigits 16 c.toNat
  ['\\', 'u'] ++ List.replicate (4 - digits.length) '0' ++ digits

def escapeChar (c : Char) : List Char :=
  if c = '"' then ['\\', '"']
  else if c = '\\' then ['\\', '\\']
  else if c = '\n' then ['\\', 'n']
  else if c = '\t' then ['\\', 't']
  else if c = '\r' then ['\\', 'r']
  else if c = '\x08' then ['\\', 'b']
  else if c = '\x0c' then ['\\', 'f']
  else if c.toNat < 0x20 then controlEscape c
  else [c]

def quoted (s : String) : String :=
  String.ofList ('"' :: s.toList.flatMap escapeChar ++ ['"'])

mutual

def compact : Json → String
  | null => "null"
  | bool b => if b then "true" else "false"
  | number n => n.text
  | text s => quoted s
  | array items => "[" ++ ",".intercalate (compactAll items) ++ "]"
  | object members => "\x7b" ++ ",".intercalate (compactMembers members) ++ "\x7d"

def compactAll : List Json → List String
  | [] => []
  | item :: rest => compact item :: compactAll rest

def compactMembers : List (String × Json) → List String
  | [] => []
  | (key, value) :: rest => (quoted key ++ ":" ++ compact value) :: compactMembers rest

end

def lineBreak (level : Nat) : String :=
  String.ofList ('\n' :: List.replicate (2 * level) ' ')

mutual

/-- The form with a line for every item and member; `level` is that of the value itself. -/
def indented (level : Nat) : Json → String
  | array [] => "[]"
  | object [] => "\x7b\x7d"
  | array items =>
    "[" ++ ",".intercalate (indentedAll (level + 1) items) ++ lineBreak level ++ "]"
  | object members =>
    "\x7b" ++ ",".intercalate (indentedMembers (level + 1) members) ++ lineBreak level ++ "\x7d"
  | null => "null"
  | bool b => if b then "true" else "false"
  | number n => n.text
  | text s => quoted s

def indentedAll (level : Nat) : List Json → List String
  | [] => []
  | item :: rest => (lineBreak level ++ indented level item) :: indentedAll level rest

def indentedMembers (level : Nat) : List (String × Json) → List String
  | [] => []
  | (key, value) :: rest =>
    (lineBreak level ++ quoted key ++ ": " ++ indented level value) :: indentedMembers level rest

end

end Json
end Workplan
