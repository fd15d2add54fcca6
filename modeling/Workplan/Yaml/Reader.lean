import Workplan.Document.Shape
import Workplan.Yaml.Anchor
import Workplan.Yaml.Scalar
import Workplan.Yaml.Token.Stream

/-!
# Reading Yaml

A text with a single document becomes a document in which every alias is replaced by its node.
What is nested too deep, and what comes after too many aliases, stands for nothing. Aliases count
where somebody looks at them.
-/

namespace Workplan
namespace Yaml

def maxLevels : Nat := 128

/-- The number of aliases that may be replaced, for a text with a number of marks. -/
def maxAliases (marks : Nat) : Nat := 100 * marks

def styleOf (tag : Option TagText) : Style :=
  if (label? tag).isSome then .labelled else .yaml

namespace Node

/-- The node itself, or for an alias the node that it stands for. The state counts the aliases
that may still be replaced. -/
def follow? (nodes : List (Nat × Node Nat)) : Node Nat → StateM Nat (Option (Node Nat))
  | reference number => do
    let left ← get
    set (left - 1)
    return if left == 0 then none else target? nodes number
  | node => return some node

/-- A node as a document, with room for some levels of collections. What a shape does not look at
is left out. -/
def expand (nodes : List (Nat × Node Nat)) : (room : Nat) → Shape → Node Nat → StateM Nat Document
  | 0, _, node => do
    match ← follow? nodes node with
    | some (.scalar properties style text) => return .scalar (readings properties.tag style text)
    | _ => return .unreadable
  | room + 1, shape, node => do
    match ← follow? nodes node with
    | some (.scalar properties style text) => return .scalar (readings properties.tag style text)
    | some (.sequence properties items) =>
      return .sequence (styleOf properties.tag) (← items.mapM (expand nodes room shape.item))
    | some (.mapping properties entries) =>
      return .mapping (styleOf properties.tag) (← entries.mapM fun (key, value) => do
        let key ← expand nodes room .whole key
        match shape.member? key.text? with
        | some shape => return (key, ← expand nodes room shape value)
        | none => return (key, .unreadable))
    | _ => return .unreadable

/-- A node as a document, if every alias in it has an anchor. -/
def document? (shape : Shape) (node : Node String) : Option Document :=
  (node.number? []).map fun (node, _) =>
    (node.expand node.anchored maxLevels shape (maxAliases node.marks)).1

end Node

def read (shape : Shape) (text : String) : Option Document := do
  let tokens ← tokens? text
  let node ← Node.ofTokens? tokens
  node.document? shape

end Yaml
end Workplan
