import Workplan.Text.GraphemeExtend
import Workplan.Text.Unprintable

/-!
# Quoted texts

The form in which a listing shows a text: between double quotes, with a backslash before a
quote or a backslash, with short escapes for the usual control characters, and with the
hexadecimal number of every other character that has no visible form of its own.
-/

namespace Workplan
namespace Text

def hexDigits (n : Nat) : List Char :=
  Nat.toDigits 16 n

/-- An escape by code point, such as `\u{7f}`. -/
def numericEscape (c : Char) : List Char :=
  ['\\', 'u', '{'] ++ hexDigits c.toNat ++ ['}']

def quoteChar (c : Char) : List Char :=
  if c = '"' then ['\\', '"']
  else if c = '\\' then ['\\', '\\']
  else if c = '\n' then ['\\', 'n']
  else if c = '\t' then ['\\', 't']
  else if c = '\r' then ['\\', 'r']
  else if c = '\x00' then ['\\', '0']
  else if isFusing c || isUnprintable c then numericEscape c
  else [c]

def quote (s : String) : String :=
  String.ofList ('"' :: s.toList.flatMap quoteChar ++ ['"'])

end Text
end Workplan
