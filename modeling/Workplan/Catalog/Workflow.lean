import Workplan.Catalog.Rules
import Workplan.Document.Payload

/-!
# Workflows

A workflow is a list of stages, and a stage a list of references to actions. Each of the three
has rules that say whether it applies.
-/

namespace Workplan

/-- The place of an action in a stage. Its configuration is passed on to the steps made of it. -/
structure Reference where
  id : String
  rules : List Rule
  config : Payload
deriving Inhabited

structure Stage where
  name : String
  rules : List Rule
  actions : List Reference
deriving Inhabited

structure Workflow where
  name : String
  rules : List Rule
  stages : List Stage
deriving Inhabited

namespace Workflow

/-- The references of a workflow with the names of their stages, in order. -/
def references (w : Workflow) : List (String × Reference) :=
  w.stages.flatMap fun stage => stage.actions.map (stage.name, ·)

end Workflow
end Workplan
