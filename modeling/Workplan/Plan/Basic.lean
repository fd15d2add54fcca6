import Workplan.Catalog.Basic

/-!
# Plans

A plan is the ordered list of steps that carry a workflow out, with the names of its stages.
-/

namespace Workplan

structure Dependency where
  id : String
  action : String
deriving DecidableEq, Inhabited

structure Step where
  id : String
  name : String
  stage : String
  scope : Scope
  action : String
  /-- The module that the step is for, if its action is run for each module. -/
  module : Option String
  runAfter : List Dependency
  /-- The place of the step in its plan. -/
  order : Nat
  config : Payload
deriving Inhabited

namespace Step

def dependsOn (s : Step) (id : String) : Bool :=
  s.runAfter.any (·.id == id)

def dependsOnAction (s : Step) (action : String) : Bool :=
  s.runAfter.any (·.action == action)

def line (s : Step) : String :=
  let forModule :=
    match s.module with
    | some m => ", module " ++ m
    | none => ""
  let after :=
    if s.runAfter.isEmpty then "" else " after " ++ ", ".intercalate (s.runAfter.map Dependency.id)
  "  [" ++ toString s.order ++ "] " ++ s.name ++ " (" ++ s.action ++ forModule ++ ")" ++ after ++ "\n"

end Step

/-- The steps of a workflow in the order in which they run. -/
structure Plan where
  name : String
  stages : List String
  steps : List Step
deriving Inhabited

namespace Plan

def stepsInStage (p : Plan) (stage : String) : List Step :=
  p.steps.filter (·.stage == stage)

def step? (p : Plan) (id : String) : Option Step :=
  p.steps.find? (·.id == id)

def stepsForAction (p : Plan) (action : String) : List Step :=
  p.steps.filter (·.action == action)

def size (p : Plan) : Nat :=
  p.steps.length

def isEmpty (p : Plan) : Bool :=
  p.steps.isEmpty

def stageListing (p : Plan) (stage : String) : String :=
  "stage: " ++ stage ++ "\n" ++ String.join ((p.stepsInStage stage).map Step.line)

def listing (p : Plan) : String :=
  "workflow: " ++ p.name ++ "\n" ++ String.join (p.stages.map p.stageListing)

end Plan

namespace Plan

inductive Error where
  | noSuitableWorkflow
  | duplicateStep (id : String)
  | unknownDependency (step dependency : String)
  | cyclicDependency (step : String)
deriving DecidableEq

namespace Error

def message : Error → String
  | noSuitableWorkflow => "no suitable workflow found"
  | duplicateStep id => "duplicate step id '" ++ id ++ "'"
  | unknownDependency step dependency =>
    "step '" ++ step ++ "' depends on unknown step '" ++ dependency ++ "'"
  | cyclicDependency step => "dependency cycle detected involving step '" ++ step ++ "'"

end Error
end Plan
end Workplan
