import Workplan.Document.Record
import Workplan.Document.Shape
import Workplan.File.Access
import Workplan.Path
import Workplan.Yaml.Reader

/-!
# The configuration of a project

A project may have a file with settings for the command line. Paths in it are seen from the
directory of the file. A project without the file has the default settings.
-/

namespace Workplan

inductive PlanFormat where
  | json
  | text
deriving DecidableEq, Inhabited

namespace PlanFormat

def name : PlanFormat → String
  | json => "json"
  | text => "text"

def ofName? (s : String) : Option PlanFormat :=
  if s == "json" then some json else if s == "text" then some text else none

end PlanFormat

structure Config where
  logLevel : String
  /-- The files of the catalog, merged in order. -/
  catalogs : List String
  /-- The file that lists the modules. -/
  modules : Option String
  format : PlanFormat
deriving Inhabited

namespace Config

def default : Config := ⟨"warn", [], none, .json⟩

inductive Error where
  | unreadable (path : String) (fault : FileFault)
  | malformed (path : String)
deriving DecidableEq

namespace Error

def message : Error → String
  | unreadable path fault => "failed to read config '" ++ path ++ "': " ++ fault.message
  | malformed path => "invalid config '" ++ path ++ "'"

end Error

def shape : Shape := .plainRecord ["log_level", "catalogs", "modules", "format"]

def decode (d : Document) : Option Config := do
  match ← d.fields? shape.names with
  | [logLevel, catalogs, modules, format] =>
    return {
      logLevel := ← Document.orElse default.logLevel Document.text? logLevel
      catalogs := ← Document.orElse [] (Document.listOf Document.text?) catalogs
      modules := ← Document.orElse none Document.optionalText? modules
      format := ← Document.orElse .json (fun d => d.choice?.bind PlanFormat.ofName?) format }
  | _ => none

/-- The settings with their paths seen from a directory. -/
def resolve (directory : String) (c : Config) : Config :=
  { c with
    catalogs := c.catalogs.map (Path.join directory)
    modules := c.modules.map (Path.join directory) }

def parse (path text : String) : Except Error Config :=
  match (Yaml.read shape text).bind decode with
  | none => .error (.malformed path)
  | some c =>
    match Path.parent? path with
    | some directory => .ok (c.resolve directory)
    | none => .ok c

variable {m : Type → Type} [Monad m] [FileAccess m]

def load (path : String) : m (Except Error Config) := do
  match ← (FileAccess.readText path : m _) with
  | .error fault => return .error (.unreadable path fault)
  | .ok text => return parse path text

def fileName : String := ".cidflow.yaml"

def discover (directory : String) : m (Except Error Config) := do
  let path := Path.join directory fileName
  if ← (FileAccess.isFile path : m _) then load path else return .ok default

end Config
end Workplan
