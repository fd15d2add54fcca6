import Workplan.Proofs.Plan.Prescription

/-!
# What a plan is made of

A plan is made of the name of the selected workflow and, for each of its tasks, of a draft: the
step for the task, and the artifacts that its action takes and gives. Whatever has the same
outline has the same plan.
-/

namespace Workplan

variable {c : Catalog} {w : Workflow} {p : Project}

/-- A step without number and waits, with what its action takes and gives. -/
structure Draft where
  step : Step
  inputs : List Artifact
  outputs : List Artifact

namespace Draft

/-- Whether the first draft gives, for the whole project, what the second one takes. -/
def feeds (producer consumer : Draft) : Bool :=
  producer.step.scope = .project && producer.outputs.any fun a => consumer.inputs.contains a

/-- The step of a draft at its number among all drafts: it waits for the others that feed it. -/
def toStep (d : Draft) (drafts : List Draft) (number : Nat) : Step :=
  { d.step with
    id := toString number
    runAfter := (drafts.zipIdx.filter fun other => other.2 != number && other.1.feeds d).map
      fun other => ⟨toString other.2, other.1.step.action⟩ }

end Draft

def Task.draft (t : Task) : Draft :=
  ⟨t.step 0, t.action.inputs, t.action.outputs⟩

structure Outline where
  name : String
  drafts : List Draft

namespace Outline

def steps (o : Outline) : List Step :=
  o.drafts.mapIdx fun number d => d.toStep o.drafts number

def plan (o : Outline) : Except Plan.Error Plan :=
  match Step.sort o.steps with
  | .ok sorted => .ok ⟨o.name, (o.steps.map Step.stage).eraseDups, sorted⟩
  | .error e => .error e

end Outline

namespace Catalog

def outline (c : Catalog) (w : Workflow) (p : Project) : Outline :=
  ⟨w.name, (Task.ofWorkflow c p w).map Task.draft⟩

def outline? (c : Catalog) (p : Project) : Option Outline :=
  (c.selectWorkflow? p.context).map fun w => c.outline w p

/-- The step of an emission is that of the draft of its task. -/
theorem toStep_draft {e : Emission} (h : e ∈ c.emissions w p) (v : Nat) :
    e.toStep (c.emissions w p) v = e.task.draft.toStep (c.outline w p).drafts v := by
  have hnew : e.newStep v = e.task.step v := Emission.bare_toStep h v 0
  rw [Emission.toStep, hnew, Draft.toStep, outline, ← Emission.map_task_emissions, List.map_map,
    List.zipIdx_map, List.filter_map, List.map_map, Emission.dependencies]
  rfl

theorem steps_eq_outline : c.steps w p = (c.outline w p).steps := by
  refine List.ext_getElem? fun v => ?_
  rw [getElem?_steps, Outline.steps, List.getElem?_mapIdx, outline, ← Emission.map_task_emissions,
    List.map_map, List.getElem?_map, Option.map_map]
  refine Option.map_congr fun e he => ?_
  rw [toStep_draft (List.mem_of_getElem? he), outline, ← Emission.map_task_emissions, List.map_map]
  rfl

theorem plan_eq_outline :
    c.plan p = ((c.outline? p).map Outline.plan).getD (.error .noSuitableWorkflow) := by
  unfold Catalog.plan outline?
  cases c.selectWorkflow? p.context with
  | none => rfl
  | some w =>
      simp only [steps_eq_outline]
      rfl

end Catalog
end Workplan
