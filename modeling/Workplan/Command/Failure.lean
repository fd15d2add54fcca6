import Workplan.Catalog.Diagnostic
import Workplan.Config
import Workplan.Plan.Basic

/-!
# Failures of commands

Why a command fails, and how that is reported. A failure that has a cause is reported by what
was being done; the cause is told on request.
-/

namespace Workplan
namespace Command

inductive Failure where
  | config (error : Config.Error)
  | noCatalog
  | catalogNotLoaded (error : Catalog.Error)
  | catalogNotValid (error : Catalog.Error)
  | brokenRules (count : Nat) (first : RulePlace)
  | modulesNotLoaded (path : String) (error : Catalog.Error)
  | unknownModule (id : String)
  | noPlan (error : Plan.Error)
  | rule (error : Rule.Error)
  | planNotWritten (path : String) (fault : FileFault)
  | completionsNotWritten (path : String) (fault : FileFault)

namespace Failure

def message : Failure → String
  | config e => e.message
  | noCatalog => "No catalog files given; pass --catalog or set \x60catalogs\x60 in .cidflow.yaml"
  | catalogNotLoaded _ => "Failed to load catalog"
  | catalogNotValid _ => "Catalog validation failed"
  | brokenRules count first =>
    toString count ++ " rule(s) do not compile, first at " ++ first.describe
  | modulesNotLoaded path _ => "Failed to load modules from: " ++ path
  | unknownModule id => "Module not found: " ++ id
  | noPlan _ => "Failed to generate plan"
  | rule e => e.message
  | planNotWritten path _ => "Failed to write plan to: " ++ path
  | completionsNotWritten path _ => "Failed to write completions to: " ++ path

/-- The message of the cause of a failure, if it has one beyond itself. -/
def cause? : Failure → Option String
  | catalogNotLoaded e => some e.message
  | catalogNotValid e => some e.message
  | modulesNotLoaded _ e => some e.message
  | noPlan e => some e.message
  | planNotWritten _ fault => some fault.message
  | completionsNotWritten _ fault => some fault.message
  | _ => none

/-- A text with every line four columns in. -/
def indent (s : String) : String :=
  "    " ++ String.ofList (s.toList.flatMap fun c =>
    if c = '\n' then ['\n', ' ', ' ', ' ', ' '] else [c])

def detail (f : Failure) : String :=
  match f.cause? with
  | some cause => f.message ++ "\n\nCaused by:\n" ++ indent cause
  | none => f.message

def report (f : Failure) (verbose : Bool) : String :=
  if verbose then f.message ++ "\n" ++ f.detail else f.message

end Failure
end Command
end Workplan
