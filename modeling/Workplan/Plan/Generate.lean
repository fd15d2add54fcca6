import Workplan.Plan.Sort
import Workplan.Rule.Context

/-!
# Making plans

The first workflow whose rules match the project is planned. Its matching stages place actions;
an action for the project gives at most one step, an action for modules one step for each module
that its rules match. A step waits for the project steps that produce what its action takes.
-/

namespace Workplan

structure Project where
  modules : List Module
  directory : String
  env : Dictionary String

namespace Project

def context (p : Project) : Rule.Context :=
  Rule.projectContext p.directory p.env

def moduleContext (p : Project) (m : Module) : Rule.Context :=
  Rule.moduleContext p.directory p.env m

def moduleContexts (p : Project) : List (Module × Rule.Context) :=
  p.modules.map fun m => (m, p.moduleContext m)

end Project

/-- The first workflow of a catalog that applies to a project. -/
def Catalog.selectWorkflow? (c : Catalog) (project : Rule.Context) : Option Workflow :=
  c.workflows.find? fun w => Rule.anyMatch w.rules project

structure Placement where
  stage : String
  reference : Reference
  action : Action
  /-- The rules of the reference and of the action, in this order. -/
  rules : RuleSet

namespace Placement

def ofWorkflow (c : Catalog) (w : Workflow) (project : Rule.Context) : List Placement :=
  (w.stages.filter fun s => Rule.anyMatch s.rules project).flatMap fun s =>
    s.actions.filterMap fun r =>
      (c.action? r.id).map fun a => ⟨s.name, r, a, RuleSet.compile (r.rules ++ a.rules)⟩

def matchesProject (p : Placement) (project : Rule.Context) (modules : List Rule.Context) : Bool :=
  if p.rules.usesModuleVariables then p.rules.anyMatchAcross project modules
  else p.rules.anyMatch project

def targets (p : Placement) (project : Rule.Context) (modules : List (Module × Rule.Context)) :
    List (Option Module) :=
  match p.action.scope with
  | .project => if p.matchesProject project (modules.map Prod.snd) then [none] else []
  | .module => (modules.filter fun m => p.rules.anyMatch m.2).map fun m => some m.1

end Placement

/-! ## Who produces what -/

/-- For artifacts, the indices of the placements that produce them for the whole project. -/
structure Producers where
  entries : List (Artifact × List Nat)

namespace Producers

def get (producers : Producers) (a : Artifact) : List Nat :=
  (producers.entries.lookup a).getD []

def note (index : Nat) (a : Artifact) : List (Artifact × List Nat) → List (Artifact × List Nat)
  | [] => [(a, [index])]
  | (other, indices) :: rest =>
    if a = other then
      (other, if indices.contains index then indices else indices ++ [index]) :: rest
    else (other, indices) :: note index a rest

/-- Notes what a placement produces, if it is for the whole project. -/
def noteAll (producers : Producers) (index : Nat) (p : Placement) : Producers :=
  match p.action.scope with
  | .project => ⟨p.action.outputs.foldl (fun entries a => note index a entries) producers.entries⟩
  | .module => producers

def ofPlacements (placements : List Placement) : Producers :=
  placements.zipIdx.foldl (fun producers p => producers.noteAll p.2 p.1) ⟨[]⟩

end Producers

/-! ## Emission -/

/-- A step that is going to be: what is placed, and for which module, if for one. -/
structure Emission where
  placement : Placement
  target : Option Module

namespace Emission

def stepName (e : Emission) : String :=
  match e.target with
  | some m => e.placement.action.name ++ "-" ++ m.slug
  | none => e.placement.action.name

def idAt (position : Nat) : String :=
  toString position

def newStep (e : Emission) (position : Nat) : Step where
  id := idAt position
  name := e.stepName
  stage := e.placement.stage
  scope := if e.target.isSome then .module else .project
  action := e.placement.action.id
  module := e.target.map Module.id
  runAfter := []
  order := 0
  config := e.placement.reference.config

end Emission

def insertAscending (n : Nat) : List Nat → List Nat
  | [] => [n]
  | m :: rest =>
    if n < m then n :: m :: rest
    else if n = m then m :: rest
    else m :: insertAscending n rest

def ascending (numbers : List Nat) : List Nat :=
  numbers.foldr insertAscending []

namespace Placement

def emissions (p : Placement) (project : Rule.Context) (modules : List (Module × Rule.Context)) :
    List Emission :=
  (p.targets project modules).map fun t => ⟨p, t⟩

/-- What each placement emits, with its positions, which are counted on from `position`. -/
def emit (project : Rule.Context) (modules : List (Module × Rule.Context)) :
    (position : Nat) → List Placement → List (List (Emission × Nat))
  | _, [] => []
  | position, p :: rest =>
    let emitted := p.emissions project modules
    emitted.zipIdx position :: emit project modules (position + emitted.length) rest

def positions (groups : List (List (Emission × Nat))) : Array (List Nat) :=
  (groups.map fun group => group.map Prod.snd).toArray

def newSteps (groups : List (List (Emission × Nat))) : Array Step :=
  (groups.flatten.map fun e => e.1.newStep e.2).toArray

/-- The positions that the producers of what a placement takes emitted, in ascending order. -/
def predecessors (p : Placement) (producers : Producers) (emitted : Array (List Nat)) : List Nat :=
  ascending (p.action.inputs.flatMap fun a =>
    (producers.get a).flatMap fun index => emitted[index]?.getD [])

/-- What the step at a position waits for: its predecessors, but not itself. -/
def waits (steps : Array Step) (predecessors : List Nat) (position : Nat) : List Dependency :=
  (predecessors.filter (· != position)).filterMap fun predecessor =>
    steps[predecessor]?.map fun s => ⟨s.id, s.action⟩

def steps (placements : List Placement) (project : Rule.Context)
    (modules : List (Module × Rule.Context)) : List Step :=
  let groups := emit project modules 0 placements
  let emitted := positions groups
  let steps := newSteps groups
  let producers := Producers.ofPlacements placements
  (placements.zip groups).flatMap fun (p, group) =>
    let predecessors := p.predecessors producers emitted
    group.map fun (e, position) =>
      { e.newStep position with runAfter := waits steps predecessors position }

end Placement

namespace Catalog

def steps (c : Catalog) (w : Workflow) (p : Project) : List Step :=
  Placement.steps (Placement.ofWorkflow c w p.context) p.context p.moduleContexts

def plan (c : Catalog) (p : Project) : Except Plan.Error Plan :=
  match c.selectWorkflow? p.context with
  | none => .error .noSuitableWorkflow
  | some w =>
    let steps := c.steps w p
    match Step.sort steps with
    | .ok sorted => .ok ⟨w.name, (steps.map Step.stage).eraseDups, sorted⟩
    | .error e => .error e

end Catalog
end Workplan
