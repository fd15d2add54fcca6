import Workplan.Catalog.Codec
import Workplan.Catalog.Module
import Workplan.File.Format

/-!
# Catalogs and modules from files

A data file is read in the format that its name says. A catalog may come from several files,
merged in order; only the merged definitions are checked.
-/

namespace Workplan

variable {m : Type → Type} [Monad m] [FileAccess m]

abbrev LoadT (m : Type → Type) (α : Type) := ExceptT Catalog.Error m α

/-- Reads a text of a format. The origin is the path that an error names. -/
def parseText {α : Type} (shape : Shape) (decode : Document → Option α) (format : FileFormat)
    (origin text : String) : Except Catalog.Error α :=
  match (format.read shape text).bind decode with
  | some value => .ok value
  | none => .error (.malformed origin)

/-- Reads a data file. The format is settled before the file is touched. -/
def loadFile {α : Type} (shape : Shape) (decode : Document → Option α) (path : String) :
    LoadT m α :=
  match FileFormat.ofPath? path with
  | none => throw (.unsupportedFormat path)
  | some format => do
    match ← (FileAccess.readText path : m _) with
    | .error fault => throw (.unreadable path fault)
    | .ok text => ExceptT.mk (pure (parseText shape decode format path text))

namespace Definitions

/-- The origin of a text that is no file. -/
def inlineOrigin : String := "<inline>"

def parse (format : FileFormat) (text : String) : Except Catalog.Error Definitions :=
  parseText shape decode format inlineOrigin text

/-- Reads the definitions of a file, which are not checked. -/
def load (path : String) : LoadT m Definitions :=
  loadFile shape decode path

def mergeAll (sources : List Definitions) : Definitions :=
  sources.foldl merge empty

end Definitions

namespace Catalog

def load (paths : List String) : LoadT m Catalog := do
  let sources ← paths.mapM Definitions.load
  ExceptT.mk (pure (build (.mergeAll sources)))

end Catalog

namespace Module

def blankId? (modules : List Module) : Option Nat :=
  modules.findIdx? fun module => Text.isBlank module.id

/-- Checks that modules have ids, and gives slugs to those without one. -/
def complete (path : String) (modules : List Module) : Except Catalog.Error (List Module) :=
  match blankId? modules with
  | some index => .error (.emptyModuleId path index)
  | none => .ok (modules.map ensureSlug)

def loadAll (path : String) : LoadT m (List Module) := do
  let modules ← loadFile (.list shape) (Document.listOf decode) path
  ExceptT.mk (pure (complete path modules))

end Module
end Workplan
