import Workplan.Command.Argument
import Workplan.Config

/-!
# Commands

What the program can be asked to do, and how the arguments of a command line say so.
-/

namespace Workplan

inductive Shell where
  | bash
  | zsh
  | fish
  | powerShell
deriving DecidableEq

namespace Shell

def ofName? (s : String) : Option Shell :=
  if s == "bash" then some bash
  else if s == "zsh" then some zsh
  else if s == "fish" then some fish
  else if s == "power-shell" then some powerShell
  else none

end Shell

/-- The scripts by which shells complete commands. The program does not write them; they come from
a generator that the surroundings of a run bring along. -/
class CompletionGenerator (m : Type → Type) where
  script : Shell → m String

/-- A state brings no generator along, so its scripts are empty. -/
instance {σ : Type} : CompletionGenerator (StateM σ) where
  script _ := return ""

structure PlanRequest where
  /-- The files of the catalog; without any, those of the configuration. -/
  catalogs : List String
  modules : Option String
  directory : String
  /-- Entries that are added to the environment. -/
  env : List (String × String)
  /-- Whether rules see the environment of the program. -/
  processEnv : Bool
  format : Option PlanFormat
  output : Option String

structure ValidateRequest where
  catalogs : List String
  directory : String
  /-- Whether rules that cannot be read are errors. -/
  strict : Bool

structure EvalRequest where
  expression : String
  directory : String
  /-- Variables that are set to texts. -/
  vars : List (String × String)
  /-- The id of a module and the file that lists it, if the expression is about a module. -/
  module : Option (String × String)
  processEnv : Bool

inductive Command where
  | plan (request : PlanRequest)
  | validate (request : ValidateRequest)
  | eval (request : EvalRequest)
  | completions (shell : Shell) (output : Option String)

namespace Command

/-- Splits a text at its first equals sign, in front of which there has to be something. -/
def keyValue? (s : String) : Option (String × String) :=
  let key := s.toList.takeWhile (· != '=')
  match s.toList.dropWhile (· != '=') with
  | _ :: value => if key.isEmpty then none else some (String.ofList key, String.ofList value)
  | [] => none

def isPath (s : String) : Bool := !s.isEmpty

def isKeyValue (s : String) : Bool := (keyValue? s).isSome

def commonOptions : List CommandOption :=
  [{ long := "verbose", short := some 'v', kind := .flag },
    { long := "help", short := some 'h', kind := .help }]

def directoryOption : CommandOption :=
  { long := "project-dir", short := some 'd', kind := .single, accepts := isPath }

def catalogOption : CommandOption :=
  { long := "catalog", short := some 'c', kind := .repeated, accepts := isPath }

def outputOption : CommandOption :=
  { long := "output", short := some 'o', kind := .single, accepts := isPath }

def hideEnvOption : CommandOption :=
  { long := "no-process-env", short := none, kind := .flag }

def planOptions : List CommandOption :=
  [catalogOption, directoryOption, hideEnvOption, outputOption,
    { long := "modules", short := some 'm', kind := .single, accepts := isPath },
    { long := "env", short := some 'e', kind := .repeated, accepts := isKeyValue },
    { long := "format", short := some 'f', kind := .single,
      accepts := fun s => (PlanFormat.ofName? s).isSome }] ++ commonOptions

def validateOptions : List CommandOption :=
  [catalogOption, directoryOption, { long := "strict", short := none, kind := .flag }] ++
    commonOptions

def evalOptions : List CommandOption :=
  [directoryOption, hideEnvOption,
    { long := "var", short := none, kind := .repeated, accepts := isKeyValue },
    { long := "module", short := none, kind := .single },
    { long := "modules", short := none, kind := .single, accepts := isPath }] ++ commonOptions

def names : List String :=
  ["plan", "validate", "eval", "completions", "help"]

def outerGrammar : Grammar where
  options := { long := "version", short := some 'V', kind := .version } :: commonOptions
  operand := none
  commands := names

def grammar (name : String) : Grammar :=
  if name == "plan" then ⟨planOptions, none, []⟩
  else if name == "validate" then ⟨validateOptions, none, []⟩
  else if name == "eval" then ⟨evalOptions, some fun _ => true, []⟩
  else ⟨outputOption :: commonOptions, some fun s => (Shell.ofName? s).isSome, []⟩

def pairs (g : Given) (long : String) : List (String × String) :=
  (g.all long).filterMap keyValue?

def directory (g : Given) : String :=
  (g.one? directoryOption.long).getD "."

def planRequest (g : Given) : PlanRequest where
  catalogs := g.all catalogOption.long
  modules := g.one? "modules"
  directory := directory g
  env := pairs g "env"
  processEnv := !g.flag hideEnvOption.long
  format := (g.one? "format").bind PlanFormat.ofName?
  output := g.one? outputOption.long

def validateRequest (g : Given) : ValidateRequest where
  catalogs := g.all catalogOption.long
  directory := directory g
  strict := g.flag "strict"

/-- The request to evaluate. A module needs the file that lists it. -/
def evalRequest? (g : Given) : Option EvalRequest :=
  let request (expression : String) (module : Option (String × String)) : EvalRequest :=
    { expression, directory := directory g, vars := pairs g "var", module
      processEnv := !g.flag hideEnvOption.long }
  match g.operand, g.one? "module", g.one? "modules" with
  | some expression, none, _ => some (request expression none)
  | some expression, some id, some file => some (request expression (some (id, file)))
  | _, _, _ => none

def ofGiven? (name : String) (g : Given) : Option Command :=
  if name == "plan" then some (plan (planRequest g))
  else if name == "validate" then some (validate (validateRequest g))
  else if name == "eval" then (evalRequest? g).map eval
  else (g.operand.bind Shell.ofName?).map (completions · (g.one? outputOption.long))

def isHelpTopic : List String → Bool
  | [] => true
  | [name] => names.contains name
  | _ => false

def readFor (name : String) (arguments : List String) : Except Stop Command :=
  if name == "help" then .error (if isHelpTopic arguments then .help else .refused)
  else
    match (grammar name).read .any arguments .nothing with
    | .error stop => .error stop
    | .ok (g, _) =>
      match ofGiven? name g with
      | some command => .ok command
      | none => .error .refused

def read (arguments : List String) : Except Stop Command :=
  match outerGrammar.read .any arguments .nothing with
  | .error stop => .error stop
  | .ok (g, rest) =>
    match g.command with
    | some name => readFor name rest
    | none => .error .refused

end Command
end Workplan
