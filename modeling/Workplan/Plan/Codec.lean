import Workplan.Catalog.Codec
import Workplan.Plan.Basic

/-!
# Plans in data files

How plans are read from documents and written as Json.
-/

namespace Workplan

open Document (required orElse listOf)

namespace Dependency

def decode (d : Document) : Option Dependency := do
  match ← d.fields? ["id", "action"] with
  | [id, action] =>
    return { id := ← required Document.text? id, action := ← required Document.text? action }
  | _ => none

def encode (d : Dependency) : Json :=
  .object [("id", .text d.id), ("action", .text d.action)]

end Dependency

namespace Step

def fieldNames : List String :=
  ["id", "name", "stage", "scope", "action", "module", "run_after", "order", "config"]

def decode (d : Document) : Option Step := do
  match ← d.fields? fieldNames with
  | [id, name, stage, scope, action, module, runAfter, order, config] =>
    return {
      id := ← required Document.text? id
      name := ← required Document.text? name
      stage := ← required Document.text? stage
      scope := ← required Scope.decode scope
      action := ← required Document.text? action
      module := ← orElse none Document.optionalText? module
      runAfter := ← orElse [] (listOf Dependency.decode) runAfter
      order := ← orElse 0 Document.natural? order
      config := ← orElse .null Payload.decode config }
  | _ => none

def encode (s : Step) : Json :=
  .object ([("id", .text s.id), ("name", .text s.name), ("stage", .text s.stage),
    ("scope", .text s.scope.name), ("action", .text s.action)] ++
    optionalMember "module" s.module ++
    [("run_after", .array (s.runAfter.map Dependency.encode)), ("order", .ofNat s.order)] ++
    s.config.encodeMember)

end Step

namespace Plan

def decode (d : Document) : Option Plan := do
  match ← d.fields? ["name", "stages", "steps"] with
  | [name, stages, steps] =>
    return {
      name := ← required Document.text? name
      stages := ← required (listOf Document.text?) stages
      steps := ← required (listOf Step.decode) steps }
  | _ => none

def encode (p : Plan) : Json :=
  .object [("name", .text p.name), ("stages", .ofTexts p.stages),
    ("steps", .array (p.steps.map Step.encode))]

end Plan
end Workplan
