import Workplan.Yaml.Token

/-!
# Nodes

The tree that the tokens of a Yaml text describe: scalars, sequences, mappings, and aliases of
nodes that have an anchor. A place that may hold a node but holds none has the empty scalar.
-/

namespace Workplan
namespace Yaml

/-- What may stand in front of a node. -/
structure Properties (ρ : Type) where
  anchor : Option ρ
  tag : Option TagText
deriving DecidableEq, Inhabited

/-- A node, in which anchors and aliases are values of `ρ`. -/
inductive Node (ρ : Type) where
  | reference (target : ρ)
  | scalar (properties : Properties ρ) (style : ScalarStyle) (text : String)
  | sequence (properties : Properties ρ) (items : List (Node ρ))
  | mapping (properties : Properties ρ) (entries : List (Node ρ × Node ρ))

namespace Node

def plain {ρ : Type} : Properties ρ := ⟨none, none⟩

def empty {ρ : Type} : Node ρ := scalar plain .plain ""

mutual

/-- The number of marks that a node is made of: one for a scalar or an alias, and two around
the content of a collection. -/
def marks {ρ : Type} : Node ρ → Nat
  | reference _ => 1
  | scalar .. => 1
  | sequence _ items => marksOfAll items + 2
  | mapping _ entries => marksOfEntries entries + 2

def marksOfAll {ρ : Type} : List (Node ρ) → Nat
  | [] => 0
  | node :: rest => marks node + marksOfAll rest

def marksOfEntries {ρ : Type} : List (Node ρ × Node ρ) → Nat
  | [] => 0
  | (key, value) :: rest => marks key + marks value + marksOfEntries rest

end

end Node

abbrev TagHandles := List (String × TagText)

namespace TagHandles

def standard : TagHandles :=
  [("!", .ofString "!"), ("!!", .ofString "tag:yaml.org,2002:")]

/-- The tag with a handle and a rest. A tag without a handle is as it is. -/
def resolve? (handles : TagHandles) (handle : String) (rest : TagText) : Option TagText :=
  if handle.isEmpty then some rest
  else (handles.find? (·.1 == handle)).map (·.2 ++ rest)

end TagHandles

namespace Properties

/-- Reads an anchor and a tag, in either order, if they are there. -/
def read? (handles : TagHandles) : List Token → Option (Properties String × List Token)
  | .anchor name :: .tag handle rest :: s =>
    (handles.resolve? handle rest).map (⟨some name, some ·⟩, s)
  | .anchor name :: s => some (⟨some name, none⟩, s)
  | .tag handle rest :: .anchor name :: s =>
    (handles.resolve? handle rest).map (⟨some name, some ·⟩, s)
  | .tag handle rest :: s => (handles.resolve? handle rest).map (⟨none, some ·⟩, s)
  | s => some (⟨none, none⟩, s)

end Properties

namespace Node

/-- Where a node stands, which decides how a collection may be written there. -/
inductive Place where
  /-- Inside brackets. -/
  | flow
  /-- As an entry of a block sequence, or as a whole document. -/
  | entry
  /-- As a key or value of a block mapping, where a sequence needs no indentation. -/
  | member
deriving DecidableEq

abbrev Taken (α : Type) := Option (α × List Token)

/-- Reads a node unless one of the tokens that mean that there is none comes next. -/
def orEmpty (stops : List Token) (read : List Token → Taken (Node String)) (s : List Token) :
    Taken (Node String) :=
  if s.head?.any stops.contains then some (empty, s) else read s

def valueOrEmpty (stops : List Token) (read : List Token → Taken (Node String)) :
    List Token → Taken (Node String)
  | .value :: s => orEmpty stops read s
  | s => some (empty, s)

def before {α : Type} (item : α) (rest : Taken (List α)) : Taken (List α) :=
  rest.map fun (items, s) => (item :: items, s)

def withItems (properties : Properties String) (items : Taken (List (Node String))) :
    Taken (Node String) :=
  items.map fun (items, s) => (sequence properties items, s)

def withEntries (properties : Properties String) (entries : Taken (List (Node String × Node String))) :
    Taken (Node String) :=
  entries.map fun (entries, s) => (mapping properties entries, s)

def passComma (first : Bool) : List Token → Option (List Token)
  | .flowEntry :: s => if first then some (.flowEntry :: s) else some s
  | s => if first then some s else none

/-- The key of a pair that stands alone in a flow sequence. Where it is missing, the token in its
place is passed over. -/
def lonePairKey (read : List Token → Taken (Node String)) : List Token → Taken (Node String)
  | .value :: s => some (empty, s)
  | .flowEntry :: s => some (empty, s)
  | .flowSequenceEnd :: s => some (empty, s)
  | s => read s

mutual

/-- Reads a node. `fuel` bounds the depth of the recursion. -/
def read (handles : TagHandles) (place : Place) : (fuel : Nat) → List Token → Taken (Node String)
  | 0, _ => none
  | _ + 1, .reference name :: s => some (reference name, s)
  | fuel + 1, s =>
    match Properties.read? handles s with
    | none => none
    | some (properties, .scalar style text :: s) => some (scalar properties style text, s)
    | some (properties, .flowSequenceStart :: s) =>
      withItems properties (readFlowItems handles true fuel s)
    | some (properties, .flowMappingStart :: s) =>
      withEntries properties (readFlowEntries handles true fuel s)
    | some (properties, s) =>
      match place, s with
      | .member, .blockEntry :: _ => withItems properties (readDashes handles fuel s)
      | .entry, .blockSequenceStart :: s | .member, .blockSequenceStart :: s =>
        withItems properties (readItems handles fuel s)
      | .entry, .blockMappingStart :: s | .member, .blockMappingStart :: s =>
        withEntries properties (readEntries handles fuel s)
      | _, s => if properties == plain then none else some (scalar properties .plain "", s)

def readItems (handles : TagHandles) : (fuel : Nat) → List Token → Taken (List (Node String))
  | 0, _ => none
  | fuel + 1, .blockEntry :: s =>
    match orEmpty [.blockEntry, .blockEnd] (read handles .entry fuel) s with
    | some (item, s) => before item (readItems handles fuel s)
    | none => none
  | _ + 1, .blockEnd :: s => some ([], s)
  | _ + 1, _ => none

/-- Reads the items of a sequence that is not indented. -/
def readDashes (handles : TagHandles) : (fuel : Nat) → List Token → Taken (List (Node String))
  | 0, _ => none
  | fuel + 1, .blockEntry :: s =>
    match orEmpty [.blockEntry, .key, .value, .blockEnd] (read handles .entry fuel) s with
    | some (item, s) => before item (readDashes handles fuel s)
    | none => none
  | _ + 1, s => some ([], s)

def readEntries (handles : TagHandles) :
    (fuel : Nat) → List Token → Taken (List (Node String × Node String))
  | 0, _ => none
  | fuel + 1, .key :: s =>
    let stops := [Token.key, .value, .blockEnd]
    match orEmpty stops (read handles .member fuel) s with
    | none => none
    | some (key, s) =>
      match valueOrEmpty stops (read handles .member fuel) s with
      | some (value, s) => before (key, value) (readEntries handles fuel s)
      | none => none
  | _ + 1, .blockEnd :: s => some ([], s)
  | _ + 1, _ => none

def readFlowItems (handles : TagHandles) (first : Bool) :
    (fuel : Nat) → List Token → Taken (List (Node String))
  | 0, _ => none
  | _ + 1, .flowSequenceEnd :: s => some ([], s)
  | fuel + 1, s =>
    match passComma first s with
    | none => none
    | some (.flowSequenceEnd :: s) => some ([], s)
    | some (.key :: s) =>
      match lonePairKey (read handles .flow fuel) s with
      | none => none
      | some (key, s) =>
        match valueOrEmpty [.flowEntry, .flowSequenceEnd] (read handles .flow fuel) s with
        | some (value, s) =>
          before (mapping plain [(key, value)]) (readFlowItems handles false fuel s)
        | none => none
    | some s =>
      match read handles .flow fuel s with
      | some (item, s) => before item (readFlowItems handles false fuel s)
      | none => none

def readFlowEntries (handles : TagHandles) (first : Bool) :
    (fuel : Nat) → List Token → Taken (List (Node String × Node String))
  | 0, _ => none
  | _ + 1, .flowMappingEnd :: s => some ([], s)
  | fuel + 1, s =>
    match passComma first s with
    | none => none
    | some (.flowMappingEnd :: s) => some ([], s)
    | some (.key :: s) =>
      match orEmpty [.value, .flowEntry, .flowMappingEnd] (read handles .flow fuel) s with
      | none => none
      | some (key, s) =>
        match valueOrEmpty [.flowEntry, .flowMappingEnd] (read handles .flow fuel) s with
        | some (value, s) => before (key, value) (readFlowEntries handles false fuel s)
        | none => none
    | some s =>
      match read handles .flow fuel s with
      | some (key, s) => before (key, empty) (readFlowEntries handles false fuel s)
      | none => none

end

def atDocumentEdge : List Token → Bool
  | [] => true
  | .versionDirective .. :: _ => true
  | .tagDirective .. :: _ => true
  | .documentStart :: _ => true
  | .documentEnd :: _ => true
  | _ => false

/--
Reads the directives in front of a document. There may be one for the version, which is 1.1 or
1.2, and one for each handle. Gives the handles and the tokens after the start of the document.
-/
def readDirectives : (versioned : Bool) → (handles : TagHandles) → List Token →
    Option (TagHandles × List Token)
  | versioned, handles, .versionDirective major minor :: s =>
    if versioned || major != 1 || (minor != 1 && minor != 2) then none
    else readDirectives true handles s
  | versioned, handles, .tagDirective handle replacement :: s =>
    if handles.any (·.1 == handle) then none
    else readDirectives versioned (handles ++ [(handle, replacement)]) s
  | _, handles, .documentStart :: s => some (handles, s)
  | _, _, _ => none

def readContent (handles : TagHandles) (s : List Token) : Taken (Node String) :=
  if atDocumentEdge s then some (empty, s)
  else read (handles ++ TagHandles.standard) .entry (2 * s.length + 2) s

/-- Reads a document. Its start token may be missing where no directive needs it. -/
def readDocument (s : List Token) : Taken (Node String) :=
  match s with
  | [] => some (empty, [])
  | .documentEnd :: _ => none
  | _ =>
    if atDocumentEdge s then
      match readDirectives false [] s with
      | some (handles, s) => readContent handles s
      | none => none
    else readContent [] s

def ofTokens? (tokens : List Token) : Option (Node String) :=
  match readDocument tokens with
  | some (node, s) =>
    if s.all (· == .documentEnd) then some node else none
  | none => none

end Node
end Yaml
end Workplan
