import Workplan.Document.Basic

/-!
# Content

What a document says where the type of each scalar decides and keys may be anything. A decoder
that has to choose between alternatives looks at the content first.
-/

namespace Workplan

inductive Content where
  | atom (value : Atom)
  | list (items : List Content)
  | map (entries : List (Content × Content))
deriving Inhabited

namespace Document

mutual

/-- The content of a document, unless a label or a scalar without a type forbids it. -/
def content? : Document → Option Content
  | scalar r => r.typed.map .atom
  | sequence style items => if style = .labelled then none else (contentAll? items).map .list
  | mapping style entries => if style = .labelled then none else (contentEntries? entries).map .map
  | unreadable => none

def contentAll? : List Document → Option (List Content)
  | [] => some []
  | d :: rest =>
    match content? d, contentAll? rest with
    | some c, some cs => some (c :: cs)
    | _, _ => none

def contentEntries? : List (Document × Document) → Option (List (Content × Content))
  | [] => some []
  | (key, value) :: rest =>
    match content? key, content? value, contentEntries? rest with
    | some k, some v, some es => some ((k, v) :: es)
    | _, _, _ => none

end

end Document

namespace Content

def text? : Content → Option String
  | atom (.text s) => some s
  | _ => none

def optionalText? : Content → Option (Option String)
  | atom .null => some none
  | c => c.text?.map some

/-- The field that a key means: one of the names, or its position. Other texts and positions
mean no field; anything else is no key of a record. -/
def slot? (names : List String) : Content → Option (Option Nat)
  | atom (.text s) => some (names.findIdx? (· == s))
  | atom (.number (.integer n)) =>
    if n < 0 then none else some (if n.toNat < names.length then some n.toNat else none)
  | _ => none

/-- The fields of a record given by its entries. A field may be given only once. -/
def fieldsOfEntries? (names : List String) (entries : List (Content × Content)) :
    Option (List (Option Content)) := do
  let slots ← entries.mapM fun entry => (slot? names entry.1).map (·, entry.2)
  (List.range names.length).mapM fun i =>
    match slots.filter (·.1 == some i) with
    | [] => some none
    | [(_, value)] => some (some value)
    | _ => none

/-- The fields of a record given in order, of which the last ones may be missing. -/
def fieldsOfItems? (names : List String) (items : List Content) : Option (List (Option Content)) :=
  if items.length ≤ names.length then
    some (items.map some ++ List.replicate (names.length - items.length) none)
  else none

end Content
end Workplan
