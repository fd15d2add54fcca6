import Workplan.Yaml.Node

/-!
# Anchors

An anchor gives its node a number, and an alias refers to the number that its name has at that
place. The number is the count of names that were in use before. A name that is used again gets
a new number but is not counted again, so the next new name may get the same number; a number
stands for the node that got it last.
-/

namespace Workplan
namespace Yaml

/-- The numbers of the names that are in use, each name once. -/
abbrev AnchorNumbers := List (String × Nat)

namespace AnchorNumbers

def number? (numbers : AnchorNumbers) (name : String) : Option Nat :=
  (numbers.find? (·.1 == name)).map (·.2)

def assign (numbers : AnchorNumbers) (name : String) : AnchorNumbers :=
  (name, numbers.length) :: numbers.filter (·.1 != name)

end AnchorNumbers

namespace Properties

def number (numbers : AnchorNumbers) (p : Properties String) : Properties Nat × AnchorNumbers :=
  match p.anchor with
  | some name => (⟨some numbers.length, p.tag⟩, numbers.assign name)
  | none => (⟨none, p.tag⟩, numbers)

end Properties

namespace Node

mutual

/-- Numbers anchors and aliases, in the order of the text. Every alias needs an anchor. -/
def number? (numbers : AnchorNumbers) : Node String → Option (Node Nat × AnchorNumbers)
  | reference name => (numbers.number? name).map (reference ·, numbers)
  | scalar properties style text =>
    let (p, numbers) := properties.number numbers
    some (scalar p style text, numbers)
  | sequence properties items =>
    let (p, numbers) := properties.number numbers
    match numberAll? numbers items with
    | some (items, numbers) => some (sequence p items, numbers)
    | none => none
  | mapping properties entries =>
    let (p, numbers) := properties.number numbers
    match numberEntries? numbers entries with
    | some (entries, numbers) => some (mapping p entries, numbers)
    | none => none

def numberAll? (numbers : AnchorNumbers) :
    List (Node String) → Option (List (Node Nat) × AnchorNumbers)
  | [] => some ([], numbers)
  | node :: rest =>
    match number? numbers node with
    | none => none
    | some (node, numbers) =>
      match numberAll? numbers rest with
      | some (rest, numbers) => some (node :: rest, numbers)
      | none => none

def numberEntries? (numbers : AnchorNumbers) :
    List (Node String × Node String) → Option (List (Node Nat × Node Nat) × AnchorNumbers)
  | [] => some ([], numbers)
  | (key, value) :: rest =>
    match number? numbers key with
    | none => none
    | some (key, numbers) =>
      match number? numbers value with
      | none => none
      | some (value, numbers) =>
        match numberEntries? numbers rest with
        | some (rest, numbers) => some ((key, value) :: rest, numbers)
        | none => none

end

def noteAnchor (anchor : Option Nat) (node : Node Nat) (rest : List (Nat × Node Nat)) :
    List (Nat × Node Nat) :=
  match anchor with
  | some number => (number, node) :: rest
  | none => rest

mutual

def anchored : Node Nat → List (Nat × Node Nat)
  | reference _ => []
  | scalar p style text => noteAnchor p.anchor (scalar p style text) []
  | sequence p items => noteAnchor p.anchor (sequence p items) (anchoredAll items)
  | mapping p entries => noteAnchor p.anchor (mapping p entries) (anchoredEntries entries)

def anchoredAll : List (Node Nat) → List (Nat × Node Nat)
  | [] => []
  | node :: rest => anchored node ++ anchoredAll rest

def anchoredEntries : List (Node Nat × Node Nat) → List (Nat × Node Nat)
  | [] => []
  | (key, value) :: rest => anchored key ++ (anchored value ++ anchoredEntries rest)

end

def target? (nodes : List (Nat × Node Nat)) (number : Nat) : Option (Node Nat) :=
  (nodes.reverse.find? (·.1 == number)).map (·.2)

end Node
end Yaml
end Workplan
