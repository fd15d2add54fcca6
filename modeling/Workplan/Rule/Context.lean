import Workplan.Catalog.Module
import Workplan.Path
import Workplan.Rule.Eval

/-!
# What rules see of a project

The context of a project holds what the environment says about repository and commit, the
directory of the project, and the environment itself. The context of a module adds the facts
about the module.
-/

namespace Workplan
namespace Rule

/-- The environment entries that rules see as variables of their own. -/
def repositoryVariables : List String :=
  ["NCI_REPOSITORY_KIND", "NCI_REPOSITORY_REMOTE", "NCI_REPOSITORY_HOST_TYPE",
    "NCI_REPOSITORY_HOST_SERVER", "NCI_COMMIT_REF_TYPE", "NCI_COMMIT_REF_NAME",
    "NCI_COMMIT_REF_SLUG", "NCI_COMMIT_HASH", "NCI_PIPELINE_TRIGGER"]

def trimSlashes (s : List Char) : List Char :=
  ((s.dropWhile (· == '/')).reverse.dropWhile (· == '/')).reverse

/-- A file of a module in its one spelling: below the project directory, with plain slashes
between its parts and none at its ends. -/
def normalizeFile (projectDir file : String) : String :=
  let relative := (Path.stripBase? projectDir file).getD file
  String.ofList (trimSlashes (relative.toList.map fun c => if c = '\\' then '/' else c))

def normalizeFiles (projectDir : String) (files : List String) : List String :=
  files.map (normalizeFile projectDir)

def projectEntries (projectDir : String) (env : Dictionary String) : List (String × Value) :=
  repositoryVariables.map (fun name => (name, .str ((env.get? name).getD ""))) ++
    [("PROJECT_DIR", .str projectDir), ("ENV", .map env)]

def projectContext (projectDir : String) (env : Dictionary String) : Context :=
  Dictionary.ofList (projectEntries projectDir env)

def moduleEntries (projectDir : String) (m : Module) : List (String × Value) :=
  [("MODULE_ID", .str m.id), ("MODULE_NAME", .str m.name), ("MODULE_SLUG", .str m.slug),
    ("MODULE_BUILD_SYSTEM", .str m.buildSystem),
    ("MODULE_BUILD_SYSTEM_SYNTAX", .str m.buildSystemSyntax),
    ("MODULE_LANGUAGE", .map m.language),
    ("MODULE_FILES", .list ((normalizeFiles projectDir m.files).map .str))]

def moduleContext (projectDir : String) (env : Dictionary String) (m : Module) : Context :=
  (projectContext projectDir env).insertAll (moduleEntries projectDir m)

end Rule
end Workplan
