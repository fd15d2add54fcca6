import Workplan.Json.Reader
import Workplan.Path
import Workplan.Text.Lowercase
import Workplan.Yaml.Reader

/-!
# Formats of data files

The extension of a file says its format, in capitals or not.
-/

namespace Workplan

inductive FileFormat where
  | yaml
  | json
deriving DecidableEq

namespace FileFormat

def name : FileFormat → String
  | yaml => "yaml"
  | json => "json"

def ofExtension? (extension : String) : Option FileFormat :=
  if extension == "yaml" || extension == "yml" then some yaml
  else if extension == "json" then some json
  else none

def ofPath? (path : String) : Option FileFormat :=
  match Path.extension? path with
  | some extension => ofExtension? (String.ofList (Text.lowercase extension))
  | none => none

/-- Reads a text of a format, as far as a shape looks at it. -/
def read (shape : Shape) : FileFormat → String → Option Document
  | yaml => Yaml.read shape
  | json => Json.read

end FileFormat
end Workplan
