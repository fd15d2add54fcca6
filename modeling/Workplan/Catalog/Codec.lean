import Workplan.Catalog.Basic
import Workplan.Document.Shape

/-!
# Actions and workflows in data files

How the parts of a catalog are read from documents and written as Json. What is written is read
back as it was; absent texts and empty configurations are left out.
-/

namespace Workplan

open Document (required orElse listOf)

def optionalMember (key : String) : Option String → List (String × Json)
  | some s => [(key, .text s)]
  | none => []

namespace Artifact

def shape : Shape := .plainRecord ["type", "format"]

def decode (d : Document) : Option Artifact := do
  match ← d.fields? shape.names with
  | [type, format] =>
    return { type := ← required Document.text? type, format := ← required Document.text? format }
  | _ => none

def encode (a : Artifact) : Json :=
  .object [("type", .text a.type), ("format", .text a.format)]

def listShape : Shape := .record [("artifacts", .list shape)]

def decodeList (d : Document) : Option (List Artifact) := do
  match ← d.fields? listShape.names with
  | [artifacts] => orElse [] (listOf decode) artifacts
  | _ => none

def encodeList (artifacts : List Artifact) : Json :=
  .object [("artifacts", .array (artifacts.map encode))]

end Artifact

namespace EnvironmentAccess

def shape : Shape := .plainRecord ["name", "description", "pattern", "secret"]

def decode (d : Document) : Option EnvironmentAccess := do
  match ← d.fields? shape.names with
  | [name, description, pattern, secret] =>
    return {
      name := ← required Document.text? name
      description := ← orElse none Document.optionalText? description
      pattern := ← orElse false Document.bool? pattern
      secret := ← orElse false Document.bool? secret }
  | _ => none

def encode (a : EnvironmentAccess) : Json :=
  .object ([("name", .text a.name)] ++ optionalMember "description" a.description ++
    [("pattern", .bool a.pattern), ("secret", .bool a.secret)])

end EnvironmentAccess

namespace ExecutableAccess

def shape : Shape := .plainRecord ["name", "constraint"]

def decode (d : Document) : Option ExecutableAccess := do
  match ← d.fields? shape.names with
  | [name, constraint] =>
    return {
      name := ← required Document.text? name
      constraint := ← orElse none Document.optionalText? constraint }
  | _ => none

def encode (a : ExecutableAccess) : Json :=
  .object ([("name", .text a.name)] ++ optionalMember "constraint" a.constraint)

end ExecutableAccess

namespace NetworkAccess

def shape : Shape := .plainRecord ["host"]

def decode (d : Document) : Option NetworkAccess := do
  match ← d.fields? shape.names with
  | [host] => return { host := ← required Document.text? host }
  | _ => none

def encode (a : NetworkAccess) : Json :=
  .object [("host", .text a.host)]

end NetworkAccess

namespace Access

def shape : Shape :=
  .record [("environment", .list EnvironmentAccess.shape),
    ("executables", .list ExecutableAccess.shape), ("network", .list NetworkAccess.shape)]

def decode (d : Document) : Option Access := do
  match ← d.fields? shape.names with
  | [environment, executables, network] =>
    return {
      environment := ← orElse [] (listOf EnvironmentAccess.decode) environment
      executables := ← orElse [] (listOf ExecutableAccess.decode) executables
      network := ← orElse [] (listOf NetworkAccess.decode) network }
  | _ => Option.none

def encode (a : Access) : Json :=
  .object [("environment", .array (a.environment.map EnvironmentAccess.encode)),
    ("executables", .array (a.executables.map ExecutableAccess.encode)),
    ("network", .array (a.network.map NetworkAccess.encode))]

end Access

namespace Runner

def typeKey : String := "type"

def ofFields? (type : RunnerType) (fields : (names : List String) → Option (List (Option Content))) :
    Option Runner :=
  match type with
  | .builtin => some .builtin
  | .container =>
    match fields ["image", "command"] with
    | some [some image, command] =>
      match image.text?, (command.map Content.optionalText?).getD (some none) with
      | some image, some command => some (.container image command)
      | _, _ => none
    | _ => none
  | .githubAction =>
    match fields ["uses"] with
    | some [some uses] => uses.text?.map .githubAction
    | _ => none

/-- The contents of the entries that do not say the kind, and the documents of those that do. -/
def splitEntries? : List (Document × Document) →
    Option (List Document × List (Content × Content))
  | [] => some ([], [])
  | (key, value) :: rest =>
    match key.content?, splitEntries? rest with
    | some k, some (types, entries) =>
      if k.text? == some typeKey then some (value :: types, entries)
      else
        match value.content? with
        | some v => some (types, (k, v) :: entries)
        | none => none
    | _, _ => none

/-- Reads a runner: its kind under the key `type`, or in front of its fields. -/
def decode : Document → Option Runner
  | .mapping style entries =>
    if style = .labelled then none
    else
      match splitEntries? entries with
      | some ([type], entries) => do
        let type ← RunnerType.ofName? (← type.text?)
        ofFields? type (Content.fieldsOfEntries? · entries)
      | _ => none
  | .sequence style (type :: rest) =>
    if style = .labelled then none
    else do
      let type ← RunnerType.ofName? (← type.text?)
      let items ← Document.contentAll? rest
      if type = .builtin && !items.isEmpty then none
      else ofFields? type (Content.fieldsOfItems? · items)
  | _ => none

def encode (r : Runner) : Json :=
  .object ((typeKey, .text r.type.name) ::
    match r with
    | .builtin => []
    | .container image command => ("image", .text image) :: optionalMember "command" command
    | .githubAction uses => [("uses", .text uses)])

end Runner

namespace Action

def shape : Shape :=
  .record [("id", .whole), ("name", .whole), ("category", .whole), ("scope", .whole),
    ("rules", .whole), ("input", Artifact.listShape), ("output", Artifact.listShape),
    ("access", Access.shape), ("runner", .whole)]

def decode (d : Document) : Option Action := do
  match ← d.fields? shape.names with
  | [id, name, category, scope, rules, input, output, access, runner] =>
    return {
      id := ← required Document.text? id
      name := ← required Document.text? name
      category := ← orElse "" Document.text? category
      scope := ← orElse .project Scope.decode scope
      rules := ← orElse [] (listOf Rule.decode) rules
      inputs := ← orElse [] Artifact.decodeList input
      outputs := ← orElse [] Artifact.decodeList output
      access := ← orElse .none Access.decode access
      runner := ← orElse .builtin Runner.decode runner }
  | _ => none

def encode (a : Action) : Json :=
  .object [("id", .text a.id), ("name", .text a.name), ("category", .text a.category),
    ("scope", .text a.scope.name), ("rules", Rule.encodeAll a.rules),
    ("input", Artifact.encodeList a.inputs), ("output", Artifact.encodeList a.outputs),
    ("access", a.access.encode), ("runner", a.runner.encode)]

end Action

namespace Payload

/-- The member that holds a configuration; one that says nothing is left out. -/
def encodeMember (p : Payload) : List (String × Json) :=
  if p.isNull then [] else [("config", p.value)]

end Payload

namespace Reference

def shape : Shape := .plainRecord ["id", "rules", "config"]

def decode (d : Document) : Option Reference := do
  match ← d.fields? shape.names with
  | [id, rules, config] =>
    return {
      id := ← required Document.text? id
      rules := ← orElse [] (listOf Rule.decode) rules
      config := ← orElse .null Payload.decode config }
  | _ => none

def encode (r : Reference) : Json :=
  .object ([("id", .text r.id), ("rules", Rule.encodeAll r.rules)] ++ r.config.encodeMember)

end Reference

namespace Stage

def shape : Shape :=
  .record [("name", .whole), ("rules", .whole), ("actions", .list Reference.shape)]

def decode (d : Document) : Option Stage := do
  match ← d.fields? shape.names with
  | [name, rules, actions] =>
    return {
      name := ← required Document.text? name
      rules := ← orElse [] (listOf Rule.decode) rules
      actions := ← orElse [] (listOf Reference.decode) actions }
  | _ => none

def encode (s : Stage) : Json :=
  .object [("name", .text s.name), ("rules", Rule.encodeAll s.rules),
    ("actions", .array (s.actions.map Reference.encode))]

end Stage

namespace Workflow

def shape : Shape :=
  .record [("name", .whole), ("rules", .whole), ("stages", .list Stage.shape)]

def decode (d : Document) : Option Workflow := do
  match ← d.fields? shape.names with
  | [name, rules, stages] =>
    return {
      name := ← required Document.text? name
      rules := ← orElse [] (listOf Rule.decode) rules
      stages := ← orElse [] (listOf Stage.decode) stages }
  | _ => none

def encode (w : Workflow) : Json :=
  .object [("name", .text w.name), ("rules", Rule.encodeAll w.rules),
    ("stages", .array (w.stages.map Stage.encode))]

end Workflow

namespace Definitions

def shape : Shape :=
  .record [("actions", .list Action.shape), ("workflows", .list Workflow.shape)]

def decode (d : Document) : Option Definitions := do
  match ← d.fields? shape.names with
  | [actions, workflows] =>
    return {
      actions := ← orElse [] (listOf Action.decode) actions
      workflows := ← orElse [] (listOf Workflow.decode) workflows }
  | _ => none

def encode (d : Definitions) : Json :=
  .object [("actions", .array (d.actions.map Action.encode)),
    ("workflows", .array (d.workflows.map Workflow.encode))]

end Definitions
end Workplan
