import Workplan.Yaml.Cursor

/-!
# Block scalars

A literal scalar keeps its breaks; a folded one joins lines that do not begin with a blank. A
header says what becomes of the breaks at the end, and how deep the text is indented; otherwise
the first line with text decides that.
-/

namespace Workplan
namespace Yaml
namespace Block

/-- What becomes of the breaks at the end. -/
inductive Chomping where
  | strip
  | clip
  | keep
deriving DecidableEq

structure Header where
  chomping : Chomping
  /-- The indentation beyond that of the collection around, if it is given. -/
  increment : Option Nat

def chomping? : List Char → Option (Chomping × List Char)
  | '+' :: s => some (.keep, s)
  | '-' :: s => some (.strip, s)
  | _ => none

/-- Reads a digit for the indentation. Zero is refused. -/
def increment? : List Char → Option (Option Nat × List Char)
  | c :: s =>
    if c == '0' then none
    else if c.isDigit then some (some (c.toNat - '0'.toNat), s)
    else some (none, c :: s)
  | [] => some (none, [])

/-- Reads the signs of a header, in either order. -/
def header? (s : List Char) : Option (Header × List Char) :=
  match chomping? s with
  | some (chomping, s) => (increment? s).map fun (increment, s) => (⟨chomping, increment⟩, s)
  | none =>
    match increment? s with
    | none => none
    | some (none, s) => some (⟨.clip, none⟩, s)
    | some (increment, s) =>
      match chomping? s with
      | some (chomping, s) => some (⟨chomping, increment⟩, s)
      | none => some (⟨.clip, increment⟩, s)

/--
Goes on over the indentation of a line and over empty lines, and collects their breaks. `indent`
is the indentation of the text, zero if it is not known yet; `widest` is the deepest one seen. A
tab inside the indentation is refused.
-/
def breaks (indent : Nat) : (fuel : Nat) → Cursor → (widest : Nat) → (found : List Char) →
    Option (Cursor × Nat × List Char)
  | 0, c, widest, found => some (c, widest, found)
  | fuel + 1, c, widest, found =>
    let spaces := c.rest.takeWhile (· == ' ')
    let count := if indent == 0 then spaces.length else min spaces.length (indent - c.column)
    let c := c.skip count
    let widest := max widest c.column
    match c.rest with
    | [] => some (c, widest, found)
    | x :: _ =>
      if x == '\t' && (indent == 0 || c.column < indent) then none
      else if isBreak x then
        let (b, c) := c.lineBreak
        breaks indent fuel c widest (found ++ b)
      else some (c, widest, found)

structure State where
  /-- The text, reversed. -/
  text : List Char
  /-- The break after the last line. -/
  leading : List Char
  /-- The breaks of the empty lines after it. -/
  trailing : List Char
  /-- Whether the last line began with a blank. -/
  afterBlank : Bool

def lines (literal : Bool) (indent : Nat) : (fuel : Nat) → Cursor → State → Option (Cursor × State)
  | 0, c, st => some (c, st)
  | fuel + 1, c, st =>
    if c.column != indent || c.rest.isEmpty then some (c, st)
    else
      let blank := c.rest.head?.any isBlank
      let folds := !literal && st.leading == ['\n'] && !st.afterBlank && !blank
      let before :=
        if folds then (if st.trailing.isEmpty then [' '] else st.trailing)
        else st.leading ++ st.trailing
      let line := c.rest.takeWhile (!isBreak ·)
      let (b, c) := (c.skip line.length).lineBreak
      match breaks indent (c.rest.length + 1) c 0 [] with
      | none => none
      | some (c, _, found) =>
        lines literal indent fuel c ⟨line.reverse ++ before.reverse ++ st.text, b, found, blank⟩

/--
Reads a block scalar that begins at `c`. `parent` is the indentation of the collection around
it, where there is one.
-/
def read (literal : Bool) (parent : Option Nat) (c : Cursor) : Option (List Char × Cursor) := do
  let (header, rest) ← header? (c.rest.drop 1)
  let c ← (c.skip (c.rest.length - rest.length)).endLine?
  let given := match header.increment with
    | some n => parent.getD 0 + n
    | none => 0
  let (c, widest, found) ← breaks given (c.rest.length + 1) c 0 []
  let least := match parent with
    | some n => n + 1
    | none => 1
  let indent := if given == 0 then max widest least else given
  let (c, st) ← lines literal indent (c.rest.length + 1) c ⟨[], [], found, false⟩
  let tail :=
    match header.chomping with
    | .strip => []
    | .clip => st.leading
    | .keep => st.leading ++ st.trailing
  return (st.text.reverse ++ tail, c)

end Block
end Yaml
end Workplan
