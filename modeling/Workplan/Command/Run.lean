import Workplan.Catalog.Load
import Workplan.Command.Basic
import Workplan.Command.Failure
import Workplan.Json.Printer
import Workplan.Plan.Codec
import Workplan.Plan.Generate

/-!
# Running commands

What each command does with the files of a project and the environment of the program. A run
prints something and succeeds, or it fails.
-/

namespace Workplan
namespace Command

variable {m : Type → Type} [Monad m] [FileAccess m]

abbrev RunT (m : Type → Type) (α : Type) := ExceptT Failure m α

/-- Lets the errors of a computation be the causes of failures. -/
def orFail {ε α : Type} (failure : ε → Failure) (x : ExceptT ε m α) : RunT m α :=
  ExceptT.adapt failure x

def check {ε α : Type} (failure : ε → Failure) : Except ε α → RunT m α
  | .ok value => pure value
  | .error e => throw (failure e)

def discoverConfig (directory : String) : RunT m Config :=
  orFail .config (ExceptT.mk (Config.discover directory))

/-- The first of two lists that is not empty, if there is one. -/
def pathsOrElse (given configured : List String) : RunT m (List String) :=
  let paths := if given.isEmpty then configured else given
  if paths.isEmpty then throw .noCatalog else pure paths

def environment (processEnv : Bool) (env : Dictionary String) (more : List (String × String)) :
    Dictionary String :=
  (if processEnv then env else .empty).insertAll more

def makePlan (request : PlanRequest) (config : Config) (env : Dictionary String) : RunT m Plan := do
  let paths ← pathsOrElse request.catalogs config.catalogs
  let catalog ← orFail .catalogNotLoaded (Catalog.load paths)
  let modules ←
    match request.modules <|> config.modules with
    | some path => orFail (.modulesNotLoaded path) (Module.loadAll path)
    | none => pure []
  check .noPlan (catalog.plan
    ⟨modules, request.directory, environment request.processEnv env request.env⟩)

def render (format : PlanFormat) (p : Plan) : String :=
  match format with
  | .json => p.encode.indented 0
  | .text => p.listing

/-- Writes a text to a file, or prints it with a line feed. -/
def writeOutput (failure : String → FileFault → Failure) (output : Option String) (text : String) :
    RunT m String := do
  match output with
  | some path =>
    orFail (failure path) (ExceptT.mk (FileAccess.writeText path text))
    return ""
  | none => return text ++ "\n"

def runPlan (request : PlanRequest) (env : Dictionary String) : RunT m String := do
  let config ← discoverConfig request.directory
  let plan ← makePlan request config env
  writeOutput .planNotWritten request.output (render (request.format.getD config.format) plan)

def warning (d : Diagnostic) : String :=
  "warning: " ++ d.place.describe ++ ": \x60" ++ d.rule.expression ++ "\x60: " ++ d.error.message ++
    "\n"

def summary (c : Catalog) : String :=
  String.join (c.diagnostics.map warning) ++ "catalog ok: " ++ toString c.actions.length ++
    " actions, " ++ toString c.workflows.length ++ " workflows, " ++
    toString c.diagnostics.length ++ " rule warnings"

def runValidate (request : ValidateRequest) : RunT m String := do
  let config ← discoverConfig request.directory
  let paths ← pathsOrElse request.catalogs config.catalogs
  let catalog ← orFail .catalogNotValid (Catalog.load paths)
  match catalog.diagnostics with
  | d :: rest =>
    if request.strict then throw (.brokenRules (rest.length + 1) d.place)
    else return summary catalog ++ "\n"
  | [] => return summary catalog ++ "\n"

def evalContext (request : EvalRequest) (env : Dictionary String) : RunT m Rule.Context :=
  match request.module with
  | none => pure (Rule.projectContext request.directory env)
  | some (id, path) => do
    let modules ← orFail (.modulesNotLoaded path) (Module.loadAll path)
    match modules.find? (·.id == id) with
    | some found => return Rule.moduleContext request.directory env found
    | none => throw (.unknownModule id)

/-- Evaluates an expression. It is read before any file is. -/
def evaluate (request : EvalRequest) (env : Dictionary String) : RunT m Rule.Value := do
  let program ← check .rule (Rule.Program.compile request.expression)
  let context ← evalContext request (environment request.processEnv env [])
  let vars := request.vars.map fun (name, value) => (name, Rule.Value.str value)
  check .rule (program.run (context.insertAll vars))

def perform [CompletionGenerator m] (env : Dictionary String) : Command → RunT m String
  | plan request => runPlan request env
  | validate request => runValidate request
  | eval request => do return (← evaluate request env).display ++ "\n"
  | completions shell output => do
    writeOutput .completionsNotWritten output (← ExceptT.lift (CompletionGenerator.script shell))

structure Outcome where
  code : Nat
  output : String
  /-- The report of a failure. -/
  report : Option String

def usage : String :=
  "Usage: cidflow [OPTIONS] <COMMAND>\n\nCommands: " ++ ", ".intercalate names ++ "\n"

def version : String := "cidflow 0.1.0\n"

/-- The entry of the environment that asks for the causes of failures. -/
def verboseVariable : String := "CIDFLOW_VERBOSE"

def run [CompletionGenerator m] (env : Dictionary String) (arguments : List String) : m Outcome :=
  match read arguments with
  | .error .help => pure ⟨0, usage, none⟩
  | .error .version => pure ⟨0, version, none⟩
  | .error .refused => pure ⟨2, "", some usage⟩
  | .ok command => do
    match ← (perform env command).run with
    | .ok output => return ⟨0, output, none⟩
    | .error failure =>
      return ⟨1, "", some (failure.report (env.contains verboseVariable))⟩

end Command
end Workplan
