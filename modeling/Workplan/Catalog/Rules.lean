import Workplan.Document.Content
import Workplan.Rule.RuleSet

/-!
# Rules in data files

A rule is written as its bare expression, or as a record with the field `expression`.
-/

namespace Workplan
namespace Rule

def ofContent? : Content → Option Rule
  | .atom (.text s) => some ⟨s⟩
  | .map entries =>
    match Content.fieldsOfEntries? ["expression"] entries with
    | some [some e] => e.text?.map Rule.mk
    | _ => none
  | _ => none

def decode (d : Document) : Option Rule :=
  match d.content? with
  | some c => ofContent? c
  | none => none

def encode (r : Rule) : Json :=
  .object [("expression", .text r.expression)]

def encodeAll (rules : List Rule) : Json :=
  .array (rules.map encode)

end Rule
end Workplan
