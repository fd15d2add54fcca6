import Workplan.Dictionary
import Workplan.Document.Record
import Workplan.Document.Shape
import Workplan.Text.Slug

/-!
# Modules of a project

The units of a project that were detected in its repository. Plans fan out over them.
-/

namespace Workplan

structure Module where
  id : String
  name : String
  slug : String
  buildSystem : String
  buildSystemSyntax : String
  /-- Versions by language. -/
  language : Dictionary String
  files : List String
deriving DecidableEq, Inhabited

namespace Module

/-- A module whose slug comes from its name and of which nothing else is known. -/
def named (id name buildSystem : String) : Module where
  id
  name
  slug := Text.slug name
  buildSystem
  buildSystemSyntax := ""
  language := .empty
  files := []

def ensureSlug (m : Module) : Module :=
  if m.slug.isEmpty then { m with slug := Text.slug m.name } else m

/-- Versions by language, of which the last one of a language stays. -/
def decodeLanguage (d : Document) : Option (Dictionary String) := do
  let entries ← d.table?
  let texts ← entries.mapM fun entry => entry.2.text?.map (entry.1, ·)
  return .ofList texts

def shape : Shape :=
  .plainRecord ["id", "name", "slug", "build_system", "build_system_syntax", "language", "files"]

def decode (d : Document) : Option Module := do
  match ← d.fields? shape.names with
  | [id, name, slug, buildSystem, buildSystemSyntax, language, files] =>
    return {
      id := ← Document.required Document.text? id
      name := ← Document.required Document.text? name
      slug := ← Document.orElse "" Document.text? slug
      buildSystem := ← Document.orElse "" Document.text? buildSystem
      buildSystemSyntax := ← Document.orElse "" Document.text? buildSystemSyntax
      language := ← Document.orElse .empty decodeLanguage language
      files := ← Document.orElse [] (Document.listOf Document.text?) files }
  | _ => none

def encode (m : Module) : Json :=
  .object [("id", .text m.id), ("name", .text m.name), ("slug", .text m.slug),
    ("build_system", .text m.buildSystem), ("build_system_syntax", .text m.buildSystemSyntax),
    ("language", .object (m.language.toList.map fun entry => (entry.1, .text entry.2))),
    ("files", .ofTexts m.files)]

end Module
end Workplan
