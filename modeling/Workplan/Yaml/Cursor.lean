/-!
# Places in a text

A cursor stands in a text and knows its line, its column and how many bytes are behind it. Columns
count characters. The end of the text counts as a break wherever the rules ask for a blank or a
break.
-/

namespace Workplan
namespace Yaml

def isBreak (c : Char) : Bool :=
  c == '\n' || c == '\r' || c == '\u0085' || c == '\u2028' || c == '\u2029'

def isBlank (c : Char) : Bool :=
  c == ' ' || c == '\t'

def isNameChar (c : Char) : Bool :=
  c.isAlphanum || c == '_' || c == '-'

def atBreak : List Char → Bool
  | [] => true
  | c :: _ => isBreak c

def atBlank : List Char → Bool
  | [] => true
  | c :: _ => isBlank c || isBreak c

def byteSize (s : List Char) : Nat :=
  s.foldl (fun n c => n + c.utf8Size) 0

structure Cursor where
  rest : List Char
  /-- The number of bytes in front of the place. -/
  index : Nat
  line : Nat
  column : Nat

namespace Cursor

def start (text : List Char) : Cursor := ⟨text, 0, 0, 0⟩

/-- Goes on over `n` characters, none of which is a break. -/
def skip (c : Cursor) (n : Nat) : Cursor :=
  { c with
    rest := c.rest.drop n
    index := c.index + byteSize (c.rest.take n)
    column := c.column + n }

/-- Goes on over the characters from here on that have a property; none of them is a break. -/
def skipWhile (c : Cursor) (p : Char → Bool) : Cursor :=
  c.skip (c.rest.takeWhile p).length

/-- Goes on over a break, and says how it reads: most breaks as a line feed. -/
def lineBreak (c : Cursor) : List Char × Cursor :=
  match c.rest with
  | '\r' :: '\n' :: rest => (['\n'], ⟨rest, c.index + 2, c.line + 1, 0⟩)
  | b :: rest =>
    if b == '\u2028' || b == '\u2029' then ([b], ⟨rest, c.index + b.utf8Size, c.line + 1, 0⟩)
    else if isBreak b then (['\n'], ⟨rest, c.index + b.utf8Size, c.line + 1, 0⟩)
    else ([], c)
  | [] => ([], c)

def skipBlanks (c : Cursor) : Cursor :=
  c.skipWhile isBlank

/-- Goes on to the end of the line, if the rest of the line is a comment. -/
def skipComment (c : Cursor) : Cursor :=
  match c.rest with
  | '#' :: _ => c.skipWhile (!isBreak ·)
  | _ => c

/-- Goes on over blanks, a comment and a break; nothing else may be left on the line. -/
def endLine? (c : Cursor) : Option Cursor :=
  let c := c.skipBlanks.skipComment
  if atBreak c.rest then some c.lineBreak.2 else none

/-- Whether a document marker of three equal characters stands here, at the start of a line. -/
def atMarker (c : Cursor) (mark : Char) : Bool :=
  c.column == 0 && c.rest.take 3 == [mark, mark, mark] && atBlank (c.rest.drop 3)

def atDocumentMarker (c : Cursor) : Bool :=
  c.atMarker '-' || c.atMarker '.'

end Cursor

/-- The blanks and breaks between two parts of a scalar of several lines. -/
structure Gap where
  /-- The blanks before any break, reversed. -/
  blanks : List Char
  /-- Whether a break was passed. -/
  broken : Bool
  /-- The first break. -/
  first : List Char
  /-- The breaks after the first. -/
  more : List Char

namespace Gap

def none : Gap := ⟨[], false, [], []⟩

/-- A break that was escaped and does not count. -/
def escaped : Gap := ⟨[], true, [], []⟩

/--
The text of a gap. Blanks on one line stay as they are. A single line feed becomes a space, and
of several the first one is dropped.
-/
def text (g : Gap) : List Char :=
  if g.broken then
    if g.first == ['\n'] then (if g.more.isEmpty then [' '] else g.more) else g.first ++ g.more
  else g.blanks.reverse

/--
Goes on over blanks and breaks. After a break, a tab in a column below `indent` is refused.
`fuel` is at least the number of characters left.
-/
def read (indent : Nat) : (fuel : Nat) → Cursor → Gap → Option (Cursor × Gap)
  | 0, c, g => some (c, g)
  | fuel + 1, c, g =>
    match c.rest with
    | [] => some (c, g)
    | x :: _ =>
      if isBlank x then
        if g.broken then
          if x == '\t' && c.column < indent then Option.none else read indent fuel (c.skip 1) g
        else read indent fuel (c.skip 1) { g with blanks := x :: g.blanks }
      else if isBreak x then
        let (b, c) := c.lineBreak
        if g.broken then read indent fuel c { g with more := g.more ++ b }
        else read indent fuel c ⟨[], true, b, []⟩
      else some (c, g)

end Gap
end Yaml
end Workplan
