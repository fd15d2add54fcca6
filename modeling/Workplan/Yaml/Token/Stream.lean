import Workplan.Yaml.Token.Block
import Workplan.Yaml.Token.Plain
import Workplan.Yaml.Token.Tag

/-!
# The tokens of a text

Indentation opens and closes block collections, and a colon makes a key of the node before it.
So the tokens of a text come with a state: the indentations that are open, and for every level of
brackets the node that may turn out to be a key. Such a node stands on one line, has at most
1024 bytes, and must be a key where it stands at the indentation of its collection.
-/

namespace Workplan
namespace Yaml

/-- A node that is a key if a colon follows it. -/
structure Candidate where
  /-- Whether the node can only be a key. -/
  required : Bool
  /-- The number of tokens in front of the node. -/
  position : Nat
  /-- The number of bytes in front of the node. -/
  index : Nat
  line : Nat
  column : Nat

structure Layout where
  cursor : Cursor
  /-- The indentation of the innermost block collection, if there is one. -/
  indent : Option Nat
  /-- The indentations around it. -/
  outer : List (Option Nat)
  /-- Whether a key may begin here. -/
  keyAllowed : Bool
  /-- The candidate of every level of brackets, the innermost first. -/
  candidates : List (Option Candidate)
  /-- The tokens so far, the last one first. -/
  tokens : List Token
  /-- The number of tokens so far. -/
  count : Nat

namespace Layout

def start (text : List Char) : Layout where
  cursor := .start text
  indent := none
  outer := []
  keyAllowed := true
  candidates := [none]
  tokens := []
  count := 0

def inFlow (l : Layout) : Bool :=
  l.candidates.length > 1

def emit (l : Layout) (t : Token) : Layout :=
  { l with tokens := t :: l.tokens, count := l.count + 1 }

def emitAt (l : Layout) (position : Nat) (t : Token) : Layout :=
  let after := l.count - position
  { l with tokens := l.tokens.take after ++ t :: l.tokens.drop after, count := l.count + 1 }

def emitOver (l : Layout) (n : Nat) (t : Token) : Layout :=
  { l.emit t with cursor := l.cursor.skip n }

/-- Whether an indentation is deeper than another, of which none is the least. -/
def deeper : Option Nat → Option Nat → Bool
  | some a, some b => a > b
  | some _, none => true
  | none, _ => false

/-- Closes block collections that are indented deeper than `column`, along the outer ones. -/
def closeFrom (column : Option Nat) : (outer : List (Option Nat)) → Layout → Layout
  | [], l => l
  | next :: outer, l =>
    if deeper l.indent column then
      closeFrom column outer { l.emit .blockEnd with indent := next, outer := outer }
    else l

def close (l : Layout) (column : Option Nat) : Layout :=
  if l.inFlow then l else closeFrom column l.outer l

/-- Opens a block collection at a column, unless one is open there. -/
def openBlock (l : Layout) (column position : Nat) (t : Token) : Layout :=
  if l.inFlow || !deeper (some column) l.indent then l
  else { l.emitAt position t with indent := some column, outer := l.indent :: l.outer }

/-- Drops the candidates that are too far back. One that can only be a key may not be dropped. -/
def dropStale (l : Layout) : Option Layout := do
  let candidates ← l.candidates.mapM fun candidate =>
    match candidate with
    | none => some none
    | some k =>
      if k.line < l.cursor.line || k.index + 1024 < l.cursor.index then
        if k.required then none else some none
      else some (some k)
  return { l with candidates }

def dropCandidate (l : Layout) : Option Layout :=
  match l.candidates with
  | some k :: rest => if k.required then none else some { l with candidates := none :: rest }
  | _ => some l

/-- Makes the node that begins here a candidate, where a key may begin. -/
def addCandidate (l : Layout) : Option Layout :=
  if l.keyAllowed then do
    let l ← l.dropCandidate
    let c := l.cursor
    let required := !l.inFlow && l.indent == some c.column
    return { l with candidates := some ⟨required, l.count, c.index, c.line, c.column⟩ ::
      l.candidates.drop 1 }
  else some l

def skipToToken : (fuel : Nat) → Layout → Layout
  | 0, l => l
  | fuel + 1, l =>
    let c := l.cursor
    let c := if c.column == 0 && c.rest.head? == some '\ufeff' then c.skip 1 else c
    let tabs := l.inFlow || !l.keyAllowed
    let c := (c.skipWhile fun x => x == ' ' || (tabs && x == '\t')).skipComment
    match c.rest with
    | [] => { l with cursor := c }
    | x :: _ =>
      if isBreak x then
        skipToToken fuel { l with
          cursor := c.lineBreak.2
          keyAllowed := l.keyAllowed || !l.inFlow }
      else { l with cursor := c }

def openFlow (l : Layout) (t : Token) : Option Layout := do
  let l ← l.addCandidate
  return { l.emitOver 1 t with candidates := none :: l.candidates, keyAllowed := true }

def closeFlow (l : Layout) (t : Token) : Option Layout := do
  let l ← l.dropCandidate
  let candidates := if l.inFlow then l.candidates.drop 1 else l.candidates
  return { l.emitOver 1 t with candidates, keyAllowed := false }

def documentMarker (l : Layout) (t : Token) : Option Layout := do
  let l ← (l.close none).dropCandidate
  return { l.emitOver 3 t with keyAllowed := false }

def blockEntry (l : Layout) : Option Layout := do
  if !l.inFlow && !l.keyAllowed then none
  else
    let l ← (l.openBlock l.cursor.column l.count .blockSequenceStart).dropCandidate
    return { l.emitOver 1 .blockEntry with keyAllowed := true }

def explicitKey (l : Layout) : Option Layout := do
  if !l.inFlow && !l.keyAllowed then none
  else
    let l ← (l.openBlock l.cursor.column l.count .blockMappingStart).dropCandidate
    return { l.emitOver 1 .key with keyAllowed := !l.inFlow }

/-- Passes the colon in front of a value, which makes a key of the candidate. -/
def valueMark (l : Layout) : Option Layout :=
  match l.candidates with
  | some k :: rest =>
    let l := { l.emitAt k.position .key with candidates := none :: rest }
    let l := l.openBlock k.column k.position .blockMappingStart
    some { l.emitOver 1 .value with keyAllowed := false }
  | _ =>
    if !l.inFlow && !l.keyAllowed then none
    else
      let l := l.openBlock l.cursor.column l.count .blockMappingStart
      some { l.emitOver 1 .value with keyAllowed := !l.inFlow }

def node (l : Layout) (read : Cursor → Option (Token × Cursor)) : Option Layout := do
  let l ← l.addCandidate
  let (t, c) ← read l.cursor
  return { l.emit t with cursor := c, keyAllowed := false }

def plainScalar (l : Layout) : Option Layout := do
  let l ← l.addCandidate
  let indent := match l.indent with
    | some n => n + 1
    | none => 0
  let r ← Plain.read l.inFlow indent l.cursor
  return { l.emit (.scalar .plain (String.ofList r.text.reverse)) with
    cursor := r.next, keyAllowed := r.broken }

def blockScalar (l : Layout) (literal : Bool) : Option Layout := do
  let l ← l.dropCandidate
  let (text, c) ← Block.read literal l.indent l.cursor
  let style := if literal then ScalarStyle.literal else .folded
  return { l.emit (.scalar style (String.ofList text)) with cursor := c, keyAllowed := true }

def quotedScalar (l : Layout) (single : Bool) : Option Layout :=
  l.node fun c => (Quoted.read single c).map fun (text, c) =>
    (.scalar (if single then .singleQuoted else .doubleQuoted) (String.ofList text), c)

def isIndicator (c : Char) : Bool :=
  ['-', '?', ':', ',', '[', ']', '{', '}', '#', '&', '*', '!', '|', '>', '\'', '"', '%', '@',
    '`'].contains c

def beginsPlain (flow : Bool) (c : Char) (rest : List Char) : Bool :=
  !(isIndicator c || isBlank c || isBreak c) ||
    (c == '-' && !(rest.head?.any isBlank)) ||
    (!flow && (c == '?' || c == ':') && !atBlank rest)

def tokenAt (l : Layout) (c : Char) (rest : List Char) : Option Layout :=
  let flow := l.inFlow
  if l.cursor.column == 0 && c == '%' then do
    let l ← (l.close none).dropCandidate
    let (t, next) ← Tag.directive? l.cursor
    return { l.emit t with cursor := next, keyAllowed := false }
  else if l.cursor.atMarker '-' then l.documentMarker .documentStart
  else if l.cursor.atMarker '.' then l.documentMarker .documentEnd
  else if c == '[' then l.openFlow .flowSequenceStart
  else if c == '{' then l.openFlow .flowMappingStart
  else if c == ']' then l.closeFlow .flowSequenceEnd
  else if c == '}' then l.closeFlow .flowMappingEnd
  else if c == ',' then do
    let l ← l.dropCandidate
    return { l.emitOver 1 .flowEntry with keyAllowed := true }
  else if c == '-' && atBlank rest then l.blockEntry
  else if c == '?' && (flow || atBlank rest) then l.explicitKey
  else if c == ':' && (flow || atBlank rest) then l.valueMark
  else if c == '*' then l.node fun c => (Tag.name? c).map fun (name, c) => (.reference name, c)
  else if c == '&' then l.node fun c => (Tag.name? c).map fun (name, c) => (.anchor name, c)
  else if c == '!' then l.node (Tag.read flow)
  else if c == '|' && !flow then l.blockScalar true
  else if c == '>' && !flow then l.blockScalar false
  else if c == '\'' then l.quotedScalar true
  else if c == '"' then l.quotedScalar false
  else if beginsPlain flow c rest then l.plainScalar
  else none

/-- Reads all tokens. `fuel` is more than the number of characters left. -/
def readAll : (fuel : Nat) → Layout → Option (List Token)
  | 0, _ => none
  | fuel + 1, l =>
    match (skipToToken (l.cursor.rest.length + 1) l).dropStale with
    | none => none
    | some l =>
      let l := l.close (some l.cursor.column)
      match l.cursor.rest with
      | [] => (l.close none).dropCandidate.map fun l => l.tokens.reverse
      | c :: rest =>
        match l.tokenAt c rest with
        | some l => readAll fuel l
        | none => none

end Layout

def isTextChar (c : Char) : Bool :=
  let n := c.toNat
  n == 0x9 || n == 0xA || n == 0xD || (0x20 ≤ n && n ≤ 0x7E) || n == 0x85 ||
    (0xA0 ≤ n && n ≤ 0xD7FF) || (0xE000 ≤ n && n ≤ 0xFFFD) || 0x10000 ≤ n

def tokens? (text : String) : Option (List Token) :=
  let s := text.toList
  if s.all isTextChar then Layout.readAll (s.length + 1) (.start s) else none

end Yaml
end Workplan
