import Workplan.File.Access

/-!
# What can go wrong with a catalog

The causes for which a catalog or a module list is refused, and the message of each.
-/

namespace Workplan
namespace Catalog

inductive Named where
  | action
  | workflow
  | stage
deriving DecidableEq

namespace Named

def word : Named → String
  | action => "action"
  | workflow => "workflow"
  | stage => "stage"

end Named

inductive RunnerFault where
  | blankImage
  | blankUses
deriving DecidableEq

namespace RunnerFault

def message : RunnerFault → String
  | blankImage => "container image cannot be empty"
  | blankUses => "github action reference cannot be empty"

end RunnerFault

/-- Why a catalog or a module list is refused. -/
inductive Error where
  | emptyName (kind : Named)
  | invalidId (id : String)
  | duplicateAction (id : String)
  | duplicateWorkflow (name : String)
  | duplicateStage (workflow stage : String)
  | unknownAction (workflow stage action : String)
  | invalidRunner (id : String) (fault : RunnerFault)
  | unreadable (path : String) (fault : FileFault)
  | malformed (path : String)
  | unsupportedFormat (path : String)
  | emptyModuleId (path : String) (index : Nat)
deriving DecidableEq

namespace Error

def message : Error → String
  | emptyName kind => kind.word ++ " name cannot be empty"
  | invalidId id => "invalid action id '" ++ id ++ "'"
  | duplicateAction id => "duplicate action id '" ++ id ++ "'"
  | duplicateWorkflow name => "duplicate workflow name '" ++ name ++ "'"
  | duplicateStage workflow stage =>
    "duplicate stage '" ++ stage ++ "' in workflow '" ++ workflow ++ "'"
  | unknownAction workflow stage action =>
    "workflow '" ++ workflow ++ "' stage '" ++ stage ++ "' references unknown action '" ++
      action ++ "'"
  | invalidRunner id fault => "action '" ++ id ++ "' has an invalid runner: " ++ fault.message
  | unreadable path fault => "failed to read '" ++ path ++ "': " ++ fault.message
  | malformed path => "failed to parse '" ++ path ++ "'"
  | unsupportedFormat path =>
    "unsupported catalog format for '" ++ path ++ "' (expected .yaml, .yml or .json)"
  | emptyModuleId path index =>
    "module #" ++ toString index ++ " in '" ++ path ++ "' has an empty id"

end Error
end Catalog
end Workplan
