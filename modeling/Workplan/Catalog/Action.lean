import Workplan.Catalog.Rules
import Workplan.Document.Record

/-!
# Actions

An action is a unit of work that workflows place into their stages. Plans are made from its
scope, its rules and the artifacts it takes and gives; its runner and its access declarations
are for whoever carries the plan out.
-/

namespace Workplan

/-- What an action is run for: the project as a whole, or each module. -/
inductive Scope where
  | project
  | module
deriving DecidableEq, Inhabited

namespace Scope

def name : Scope → String
  | project => "project"
  | module => "module"

def ofName? : String → Option Scope
  | "project" => some project
  | "module" => some module
  | _ => none

def decode (d : Document) : Option Scope :=
  match d.choice? with
  | some s => ofName? s
  | none => none

end Scope

/-- A kind of thing that an action takes or gives. -/
structure Artifact where
  type : String
  format : String
deriving DecidableEq, Inhabited

structure EnvironmentAccess where
  name : String
  description : Option String
  pattern : Bool
  secret : Bool
deriving DecidableEq, Inhabited

structure ExecutableAccess where
  name : String
  constraint : Option String
deriving DecidableEq, Inhabited

structure NetworkAccess where
  host : String
deriving DecidableEq, Inhabited

structure Access where
  environment : List EnvironmentAccess
  executables : List ExecutableAccess
  network : List NetworkAccess
deriving DecidableEq, Inhabited

namespace Access

def none : Access := ⟨[], [], []⟩

end Access

inductive RunnerType where
  | builtin
  | container
  | githubAction
deriving DecidableEq, Inhabited

namespace RunnerType

def name : RunnerType → String
  | builtin => "builtin"
  | container => "container"
  | githubAction => "github-action"

def ofName? : String → Option RunnerType
  | "builtin" => some builtin
  | "container" => some container
  | "github-action" => some githubAction
  | _ => Option.none

end RunnerType

/-- What carries an action out. -/
inductive Runner where
  | builtin
  | container (image : String) (command : Option String)
  | githubAction (uses : String)
deriving DecidableEq, Inhabited

namespace Runner

def type : Runner → RunnerType
  | builtin => .builtin
  | container .. => .container
  | githubAction .. => .githubAction

end Runner

structure Action where
  id : String
  name : String
  category : String
  scope : Scope
  rules : List Rule
  inputs : List Artifact
  outputs : List Artifact
  access : Access
  runner : Runner
deriving DecidableEq, Inhabited

end Workplan
