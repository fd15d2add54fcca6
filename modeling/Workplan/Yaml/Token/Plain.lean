import Workplan.Yaml.Cursor

/-!
# Plain scalars

A plain scalar goes on over lines as long as they are indented deeper than the collection around
it, and ends before an indicator, a comment or a document marker.
-/

namespace Workplan
namespace Yaml
namespace Plain

def isFlowEnd (c : Char) : Bool :=
  [',', '[', ']', '{', '}'].contains c

/--
Reads characters up to a blank, a break or an indicator; `acc` is what was read, reversed. Inside
brackets, a colon in front of an indicator is refused.
-/
def run (flow : Bool) : (s acc : List Char) → Option (List Char × List Char)
  | [], acc => some (acc, [])
  | c :: s, acc =>
    if isBlank c || isBreak c then some (acc, c :: s)
    else if flow && c == ':' && (s.head?.any fun d => isFlowEnd d || d == '?') then none
    else if (c == ':' && atBlank s) || (flow && isFlowEnd c) then some (acc, c :: s)
    else run flow s (c :: acc)

structure Read where
  /-- The text, reversed. -/
  text : List Char
  next : Cursor
  /-- Whether the scalar was followed by a break. -/
  broken : Bool

def go (flow : Bool) (indent : Nat) : (fuel : Nat) → Cursor → (text : List Char) → Gap → Option Read
  | 0, c, text, gap => some ⟨text, c, gap.broken⟩
  | fuel + 1, c, text, gap =>
    if c.atDocumentMarker || c.rest.head? == some '#' then some ⟨text, c, gap.broken⟩
    else
      match run flow c.rest [] with
      | none => none
      | some ([], _) => some ⟨text, c, gap.broken⟩
      | some (part, rest) =>
        let c := c.skip part.length
        let text := part ++ gap.text.reverse ++ text
        if rest.head?.any fun d => isBlank d || isBreak d then
          match Gap.read indent rest.length c .none with
          | none => none
          | some (c, gap) =>
            if !flow && c.column < indent then some ⟨text, c, gap.broken⟩
            else go flow indent fuel c text gap
        else some ⟨text, c, false⟩

/-- Reads a plain scalar whose lines are indented by at least `indent`. -/
def read (flow : Bool) (indent : Nat) (c : Cursor) : Option Read :=
  go flow indent c.rest.length c [] .none

end Plain
end Yaml
end Workplan
