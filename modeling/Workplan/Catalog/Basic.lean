import Workplan.Catalog.Action
import Workplan.Catalog.Error
import Workplan.Catalog.Workflow
import Workplan.Dictionary
import Workplan.Text.Blank

/-!
# Catalogs

A catalog is a list of actions and a list of workflows over them. Definitions come from several
sources: merging replaces an earlier definition in its place. A catalog is built from merged
definitions by checking every entry in turn, and an index of the actions is filled on the way. A
built catalog has distinct ids and names, every reference in it names one of its actions, and an
action is looked up in the index.
-/

namespace Workplan

/-- The definitions of actions and workflows, not yet checked. -/
structure Definitions where
  actions : List Action
  workflows : List Workflow
deriving Inhabited

namespace Definitions

def empty : Definitions := ⟨[], []⟩

/-- Replaces the first item with the key of `item`, or adds `item` at the end. -/
def upsert {α : Type} (key : α → String) (item : α) : List α → List α
  | [] => [item]
  | other :: rest =>
    if key other = key item then item :: rest else other :: upsert key item rest

def mergeBy {α : Type} (key : α → String) (items others : List α) : List α :=
  others.foldl (fun items item => upsert key item items) items

def merge (d other : Definitions) : Definitions where
  actions := mergeBy Action.id d.actions other.actions
  workflows := mergeBy Workflow.name d.workflows other.workflows

def addAction (d : Definitions) (a : Action) : Definitions :=
  { d with actions := d.actions ++ [a] }

def addWorkflow (d : Definitions) (w : Workflow) : Definitions :=
  { d with workflows := d.workflows ++ [w] }

end Definitions

def isIdStart (c : Char) : Bool :=
  c.isAlphanum

def isIdChar (c : Char) : Bool :=
  c.isAlphanum || ['.', '_', '-', '/', ':', '@'].contains c

def isActionId (s : String) : Bool :=
  match s.toList with
  | [] => false
  | c :: rest => isIdStart c && rest.all isIdChar

def Runner.fault? : Runner → Option Catalog.RunnerFault
  | builtin => none
  | container image _ => if Text.isBlank image then some .blankImage else none
  | githubAction uses => if Text.isBlank uses then some .blankUses else none

def Action.check (a : Action) : Except Catalog.Error Unit :=
  if !isActionId a.id then .error (.invalidId a.id)
  else if Text.isBlank a.name then .error (.emptyName .action)
  else
    match a.runner.fault? with
    | some fault => .error (.invalidRunner a.id fault)
    | none => .ok ()

def Stage.check (s : Stage) : Except Catalog.Error Unit :=
  if Text.isBlank s.name then .error (.emptyName .stage) else .ok ()

/-- Checks the stages of a workflow; `seen` holds the names of the stages before. -/
def Workflow.checkStages (workflow : String) : (seen : List String) → List Stage →
    Except Catalog.Error Unit
  | _, [] => .ok ()
  | seen, s :: rest =>
    match s.check with
    | .error e => .error e
    | .ok () =>
      if seen.contains s.name then .error (.duplicateStage workflow s.name)
      else checkStages workflow (s.name :: seen) rest

def Workflow.check (w : Workflow) : Except Catalog.Error Unit :=
  if Text.isBlank w.name then .error (.emptyName .workflow)
  else checkStages w.name [] w.stages

namespace Definitions

/-- Checks actions in order and fills the index of their ids; `index` holds the positions of the
actions before, and the next one stands at `position`. -/
def indexActions : (index : Dictionary Nat) → (position : Nat) → List Action →
    Except Catalog.Error (Dictionary Nat)
  | index, _, [] => .ok index
  | index, position, a :: rest =>
    match a.check with
    | .error e => .error e
    | .ok () =>
      if index.contains a.id then .error (.duplicateAction a.id)
      else indexActions (index.insert a.id position) (position + 1) rest

def checkReferences (index : Dictionary Nat) (workflow : String) :
    List (String × Reference) → Except Catalog.Error Unit
  | [] => .ok ()
  | (stage, r) :: rest =>
    if index.contains r.id then checkReferences index workflow rest
    else .error (.unknownAction workflow stage r.id)

/-- Checks workflows in order; `seen` holds the names of the workflows before. -/
def checkWorkflows (index : Dictionary Nat) : (seen : List String) → List Workflow →
    Except Catalog.Error Unit
  | _, [] => .ok ()
  | seen, w :: rest =>
    match w.check with
    | .error e => .error e
    | .ok () =>
      if seen.contains w.name then .error (.duplicateWorkflow w.name)
      else
        match checkReferences index w.name w.references with
        | .error e => .error e
        | .ok () => checkWorkflows index (w.name :: seen) rest

/-- Checks the actions, then the workflows, and gives the index of the actions. -/
def check (d : Definitions) : Except Catalog.Error (Dictionary Nat) :=
  match indexActions .empty 0 d.actions with
  | .error e => .error e
  | .ok index =>
    match checkWorkflows index [] d.workflows with
    | .error e => .error e
    | .ok () => .ok index

end Definitions

/-- Definitions that passed every check. -/
structure Catalog where
  definitions : Definitions
  /-- The position of each action by its id. -/
  index : Dictionary Nat
  checked : definitions.check = .ok index

namespace Catalog

def build (d : Definitions) : Except Error Catalog :=
  match h : d.check with
  | .ok index => .ok ⟨d, index, h⟩
  | .error e => .error e

def actions (c : Catalog) : List Action := c.definitions.actions

def workflows (c : Catalog) : List Workflow := c.definitions.workflows

def action? (c : Catalog) (id : String) : Option Action :=
  (c.index.get? id).bind fun position => c.actions[position]?

def runner? (c : Catalog) (id : String) : Option Runner :=
  (c.action? id).map Action.runner

def actionsOfType (c : Catalog) (type : RunnerType) : List Action :=
  c.actions.filter (·.runner.type = type)

def workflow? (c : Catalog) (name : String) : Option Workflow :=
  c.workflows.find? (·.name == name)

end Catalog
end Workplan
