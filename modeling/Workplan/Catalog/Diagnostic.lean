import Workplan.Catalog.Basic

/-!
# Rules that can never match

A rule that cannot be read does not keep a catalog from being built, but it never matches. The
diagnostics of a catalog list every such rule with its place, in the order of the catalog.
-/

namespace Workplan

inductive RulePlace where
  | action (id : String)
  | workflow (name : String)
  | stage (workflow name : String)
  | reference (workflow stage id : String)
deriving DecidableEq

namespace RulePlace

def describe : RulePlace → String
  | action id => "action '" ++ id ++ "'"
  | workflow name => "workflow '" ++ name ++ "'"
  | stage flow name => "workflow '" ++ flow ++ "' stage '" ++ name ++ "'"
  | reference flow stageName id =>
    "workflow '" ++ flow ++ "' stage '" ++ stageName ++ "' action '" ++ id ++ "'"

end RulePlace

/-- A rule that cannot be read. -/
structure Diagnostic where
  place : RulePlace
  rule : Rule
  error : Rule.Error

namespace Catalog

def workflowPlaces (w : Workflow) : List (RulePlace × List Rule) :=
  (.workflow w.name, w.rules) ::
    w.stages.flatMap fun s =>
      (.stage w.name s.name, s.rules) ::
        s.actions.map fun r => (.reference w.name s.name r.id, r.rules)

/-- The lists of rules of a catalog with their places, in order. -/
def rulePlaces (c : Catalog) : List (RulePlace × List Rule) :=
  c.actions.map (fun a => (.action a.id, a.rules)) ++ c.workflows.flatMap workflowPlaces

def diagnose (place : RulePlace) (rule : Rule) : Option Diagnostic :=
  match rule.compile with
  | .ok _ => none
  | .error error => some ⟨place, rule, error⟩

def diagnostics (c : Catalog) : List Diagnostic :=
  c.rulePlaces.flatMap fun (place, rules) => rules.filterMap (diagnose place)

end Catalog
end Workplan
