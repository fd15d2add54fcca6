import Workplan.Proofs.Plan.Execution

/-!
# What a workflow prescribes

A workflow is read stage by stage and reference by reference, and each rule is tried on its own:
that gives a list of tasks. The steps of a plan, put back into the order of their numbers, are
these tasks, one step for each and no others.
-/

namespace Workplan

variable {c : Catalog} {p : Project} {plan : Plan} {w : Workflow} {order : List Nat}

/-- What a workflow prescribes to be done once. -/
structure Task where
  stage : String
  reference : Reference
  action : Action
  module : Option Module

namespace Task

/-- The tasks of a reference. An action for the project gives one task if its rules admit the
project, an action for modules one for each module that some rule matches. -/
def ofReference (c : Catalog) (p : Project) (stage : String) (r : Reference) : List Task :=
  match c.action? r.id with
  | none => []
  | some a =>
    match a.scope with
    | .project =>
      if Rule.Admits (r.rules ++ a.rules) p.context (p.modules.map p.moduleContext) then
        [⟨stage, r, a, none⟩]
      else []
    | .module =>
      (p.modules.filter fun m => Rule.anyMatch (r.rules ++ a.rules) (p.moduleContext m)).map
        fun m => ⟨stage, r, a, some m⟩

def ofStage (c : Catalog) (p : Project) (s : Stage) : List Task :=
  if Rule.anyMatch s.rules p.context then s.actions.flatMap (ofReference c p s.name) else []

def ofWorkflow (c : Catalog) (p : Project) (w : Workflow) : List Task :=
  w.stages.flatMap (ofStage c p)

def step (t : Task) (number : Nat) : Step where
  id := toString number
  name :=
    match t.module with
    | none => t.action.name
    | some m => t.action.name ++ "-" ++ m.slug
  stage := t.stage
  scope := t.action.scope
  action := t.action.id
  module := t.module.map Module.id
  runAfter := []
  order := 0
  config := t.reference.config

end Task

/-- The step without what it waits for and without its place. -/
def Step.bare (s : Step) : Step :=
  { s with runAfter := [], order := 0 }

def Plan.byNumber (plan : Plan) : List Step :=
  (List.range plan.size).filterMap fun number => plan.step? (toString number)

/-! ## Emissions are tasks -/

namespace Emission

def task (e : Emission) : Task :=
  ⟨e.placement.stage, e.placement.reference, e.placement.action, e.target⟩

/-- The emissions of a placed reference do what the reference prescribes. -/
theorem map_task_placement (stage : String) (r : Reference) {a : Action}
    (ha : c.action? r.id = some a) :
    ((Placement.mk stage r a (.compile (r.rules ++ a.rules))).emissions p.context
        p.moduleContexts).map task = Task.ofReference c p stage r := by
  have hproject : (Placement.mk stage r a (.compile (r.rules ++ a.rules))).matchesProject p.context
      (p.modules.map p.moduleContext) = true ↔
        Rule.Admits (r.rules ++ a.rules) p.context (p.modules.map p.moduleContext) :=
    Placement.matchesProject_iff rfl _
  simp only [Task.ofReference, ha, Placement.emissions, Placement.targets, List.map_map]
  cases a.scope with
  | project =>
      rw [p.map_snd_moduleContexts]
      by_cases hadmits : Rule.Admits (r.rules ++ a.rules) p.context (p.modules.map p.moduleContext)
      · simp [hproject.mpr hadmits, hadmits, task]
      · simp [hadmits, Bool.eq_false_iff.mpr (mt hproject.mp hadmits)]
  | module =>
      simp [Project.moduleContexts, List.filter_map, Function.comp_def, RuleSet.anyMatch_compile,
        task]

theorem map_task_emissions : (c.emissions w p).map task = Task.ofWorkflow c p w := by
  simp only [Catalog.emissions, ofPlacements, Placement.ofWorkflow, List.map_flatMap,
    List.flatMap_assoc, Task.ofWorkflow]
  induction w.stages with
  | nil => rfl
  | cons stage rest ih =>
      rw [List.filter_cons, List.flatMap_cons, ← ih, Task.ofStage]
      split
      · rw [List.flatMap_cons, List.filterMap_eq_flatMap_toList, List.flatMap_assoc]
        congr 1
        refine List.flatMap_congr fun r _ => ?_
        cases ha : c.action? r.id with
        | none => simp [Task.ofReference, ha]
        | some a =>
            rw [← map_task_placement stage.name r ha]
            simp
      · rfl

/-- The step of an emission is, but for waits and place, the step of its task. -/
theorem bare_toStep {e : Emission} (h : e ∈ c.emissions w p) (v place : Nat) :
    ((e.toStep (c.emissions w p) v).placedAt place).bare = e.task.step v := by
  have hscope : (e.newStep v).scope = e.placement.action.scope := scope_toStep_of_mem h v
  have hbare : ((e.toStep (c.emissions w p) v).placedAt place).bare = (e.newStep v).bare := rfl
  rw [hbare]
  cases htarget : e.target with
  | none =>
      have hproject : e.placement.action.scope = .project := by
        simpa [newStep, htarget] using hscope.symm
      simp [Step.bare, newStep, stepName, Task.step, task, idAt, htarget, hproject]
  | some m =>
      have hmodule : e.placement.action.scope = .module := by
        simpa [newStep, htarget] using hscope.symm
      simp [Step.bare, newStep, stepName, Task.step, task, idAt, htarget, hmodule]

end Emission

/-! ## Plans hold the tasks -/

theorem filterMap_range_getElem? {α β : Type} (items : List α) (f : Nat → α → β) :
    (List.range items.length).filterMap (fun v => items[v]?.map (f v)) = items.mapIdx f := by
  induction items generalizing f with
  | nil => rfl
  | cons a rest ih =>
      simp only [List.length_cons, List.range_succ_eq_map, List.filterMap_cons,
        List.getElem?_cons_zero, Option.map_some, List.filterMap_map, Function.comp_def,
        List.getElem?_cons_succ, List.mapIdx_cons]
      rw [← ih]

namespace Catalog.Makes

variable (h : c.Makes p w order plan)

include h

theorem byNumber_eq :
    plan.byNumber = (c.emissions w p).mapIdx fun v e =>
      (e.toStep (c.emissions w p) v).placedAt (order.idxOf v) := by
  rw [Plan.byNumber, h.size_eq, ← filterMap_range_getElem?]
  refine List.filterMap_congr fun v hv => ?_
  have he := List.getElem?_eq_getElem (List.mem_range.mp hv)
  rw [he]
  exact h.step?_eq_some_iff.mpr ⟨h.mem_steps_iff.mpr ⟨v, _, he, rfl⟩, rfl⟩

theorem byNumber_perm : plan.byNumber.Perm plan.steps := by
  have hids : plan.byNumber.map Step.id = (List.range (c.emissions w p).length).map toString := by
    rw [h.byNumber_eq]
    refine List.ext_getElem? fun v => ?_
    cases he : (c.emissions w p)[v]? with
    | none => simp [List.getElem?_eq_none_iff.mp he]
    | some e =>
        have hv := (List.getElem?_eq_some_iff.mp he).1
        simp [he, List.getElem?_range hv, Emission.toStep, Emission.newStep, Emission.idAt]
  have hnodup : (plan.byNumber.map Step.id).Nodup := by
    rw [hids]
    exact List.Nodup.map (fun u v => Emission.idAt_inj.mp) List.nodup_range
  refine (List.perm_ext_iff_of_nodup hnodup.of_map h.nodup_ids.of_map).mpr fun s => ?_
  rw [h.mem_steps_iff, h.byNumber_eq, List.mem_iff_getElem?]
  simp only [List.getElem?_mapIdx, Option.map_eq_some_iff]
  exact exists_congr fun v => exists_congr fun e => and_congr_right fun _ => eq_comm

/-- By number and without waits and places, the steps are those of the tasks. -/
theorem map_bare_byNumber :
    plan.byNumber.map Step.bare = (Task.ofWorkflow c p w).mapIdx fun number t => t.step number := by
  rw [h.byNumber_eq, ← Emission.map_task_emissions]
  refine List.ext_getElem? fun v => ?_
  cases he : (c.emissions w p)[v]? with
  | none => simp [he]
  | some e => simp [he, Emission.bare_toStep (List.mem_of_getElem? he)]

end Catalog.Makes

/-- The plan holds exactly the tasks of `w`, the first workflow of the catalog that applies. -/
structure Plan.Prescribed (c : Catalog) (p : Project) (w : Workflow) (plan : Plan) : Prop where
  selected : ∃ before after, c.workflows = before ++ w :: after ∧
    Rule.anyMatch w.rules p.context = true ∧
    ∀ other ∈ before, Rule.anyMatch other.rules p.context = false
  resolved : ∀ stage ∈ w.stages, ∀ r ∈ stage.actions, (c.action? r.id).isSome = true
  name : plan.name = w.name
  perm : plan.byNumber.Perm plan.steps
  tasks : plan.byNumber.map Step.bare =
    (Task.ofWorkflow c p w).mapIdx fun number t => t.step number

theorem plan_prescribed (h : c.plan p = .ok plan) : ∃ w, plan.Prescribed c p w := by
  obtain ⟨w, order, hmakes⟩ := Catalog.exists_makes h
  obtain ⟨hmatch, before, after, hworkflows, hbefore⟩ :=
    List.find?_eq_some_iff_append.mp hmakes.selected
  have hmem : w ∈ c.workflows := hworkflows ▸ List.mem_append_right _ List.mem_cons_self
  refine ⟨w, ⟨before, after, hworkflows, hmatch, ?_⟩, ?_, hmakes.name, hmakes.byNumber_perm,
    hmakes.map_bare_byNumber⟩
  · intro other hother
    simpa using hbefore other hother
  · intro stage hstage r hr
    exact c.isSome_action? hmem hstage hr

/-- The build is admitted by its own rules, the checkout by a rule that one module matches, and
the tests are left out for one module. -/
theorem Delivery.prescribed_delivery : ∃ plan w,
    Delivery.catalog.plan Delivery.project = .ok plan ∧
      plan.Prescribed Delivery.catalog Delivery.project w := by
  obtain ⟨plan, hplan, -⟩ := Delivery.exists_plan
  obtain ⟨w, hw⟩ := plan_prescribed hplan
  exact ⟨plan, w, hplan, hw⟩

end Workplan
