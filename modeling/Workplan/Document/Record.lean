import Workplan.Document.Basic

/-!
# Records in documents

A record is a mapping from the names of its fields, in which other keys do not matter and no
field occurs twice. In Json it may also be an array of its fields in order, of which the last
ones may be missing. What a missing field means is up to the field.
-/

namespace Workplan
namespace Document

/-- The value of a field among keyed entries: absent, given, or given twice and so refused. -/
def field? (name : String) (entries : List (String × Document)) : Option (Option Document) :=
  match entries.filter (·.1 == name) with
  | [] => some none
  | [(_, value)] => some (some value)
  | _ => none

def fields? (names : List String) : Document → Option (List (Option Document))
  | sequence .json items =>
    if items.length ≤ names.length then
      some (items.map some ++ List.replicate (names.length - items.length) none)
    else none
  | sequence _ _ => none
  | d =>
    match d.table? with
    | some entries => names.mapM (field? · entries)
    | none => none

def required {α : Type} (decode : Document → Option α) : Option Document → Option α
  | some d => decode d
  | none => none

def orElse {α : Type} (default : α) (decode : Document → Option α) : Option Document → Option α
  | some d => decode d
  | none => some default

def listOf {α : Type} (decode : Document → Option α) (d : Document) : Option (List α) :=
  match d.list? with
  | some items => items.mapM decode
  | none => none

end Document
end Workplan
