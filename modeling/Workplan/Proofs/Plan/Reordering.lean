import Workplan.Proofs.Plan.Prescription
import Workplan.Proofs.Plan.Thinning
import Workplan.Proofs.Plan.Wiring
import Mathlib.Data.List.Perm.Basic

/-!
# Modules in another order

In which order modules are listed decides which numbers and places steps get, but not what is
done. A gate for the project looks for any module that it matches, so the same is emitted for the
project, in the same order. All that steps wait for is among this, and what is emitted for modules
is emitted in another order only.
-/

namespace Workplan

variable {c : Catalog} {p : Project} {w : Workflow} {plan : Plan} {order : List Nat}
  {modules others : List Module}

/-- What a step does, and the actions that it waits for, in order. -/
structure Work where
  name : String
  stage : String
  scope : Scope
  action : String
  module : Option String
  config : Payload
  waits : List String

def Step.work (s : Step) : Work :=
  ⟨s.name, s.stage, s.scope, s.action, s.module, s.config, s.runAfter.map Dependency.action⟩

/-- Plans of one name and stages whose steps do the same work, each as often as in the other. -/
structure Plan.SameWork (plan other : Plan) : Prop where
  name : plan.name = other.name
  stages : plan.stages = other.stages
  steps : (plan.steps.map Step.work).Perm (other.steps.map Step.work)

/-! ## What is emitted -/

namespace Placement

variable {placement : Placement} {project : Rule.Context}
  {modules others : List (Module × Rule.Context)}

theorem matchesProject_perm {modules others : List Rule.Context} (h : modules.Perm others) :
    placement.matchesProject project modules = placement.matchesProject project others := by
  simp only [matchesProject, RuleSet.anyMatchAcross, h.any_eq]

theorem emissions_eq_of_project (h : modules.Perm others)
    (hscope : placement.action.scope = .project) :
    placement.emissions project modules = placement.emissions project others := by
  simp only [emissions, targets, hscope, matchesProject_perm (h.map Prod.snd)]

theorem emissions_perm (h : modules.Perm others) :
    (placement.emissions project modules).Perm (placement.emissions project others) := by
  cases hscope : placement.action.scope with
  | project => rw [emissions_eq_of_project h hscope]
  | module =>
      simp only [emissions, targets, hscope]
      exact ((h.filter _).map _).map _

end Placement

def Emission.forProject (e : Emission) : Bool :=
  e.placement.action.scope = .project

namespace Catalog

theorem emissions_perm (c : Catalog) (w : Workflow) (p : Project) (h : modules.Perm others) :
    (c.emissions w (p.withModules modules)).Perm (c.emissions w (p.withModules others)) :=
  List.Perm.flatMap_left _ fun _ _ => Placement.emissions_perm (h.map _)

/-- The same is emitted for the project, in the same order. -/
theorem filter_forProject_eq (h : modules.Perm others) :
    (c.emissions w (p.withModules modules)).filter Emission.forProject =
      (c.emissions w (p.withModules others)).filter Emission.forProject := by
  simp only [emissions, Emission.ofPlacements, List.filter_flatMap, Project.context_withModules,
    Project.moduleContexts_withModules]
  apply List.flatMap_congr
  intro placement _
  cases hscope : placement.action.scope with
  | project => rw [Placement.emissions_eq_of_project (h.map _) hscope]
  | module =>
      have hnone : ∀ modules, (placement.emissions p.context modules).filter Emission.forProject =
          [] := by
        intro modules
        apply List.filter_eq_nil_iff.mpr
        intro e he
        simp [Emission.forProject, Placement.placement_of_mem_emissions he, hscope]
      rw [hnone, hnone]

/-- Each placement emits as much as before, so stages are met in the same order. -/
theorem map_stage_emissions (h : modules.Perm others) :
    (c.emissions w (p.withModules modules)).map (·.placement.stage) =
      (c.emissions w (p.withModules others)).map (·.placement.stage) := by
  simp only [emissions, Emission.ofPlacements, List.map_flatMap, Project.context_withModules,
    Project.moduleContexts_withModules]
  apply List.flatMap_congr
  intro placement _
  have hstage : ∀ modules, (placement.emissions p.context modules).map (·.placement.stage) =
      List.replicate (placement.emissions p.context modules).length placement.stage := by
    intro modules
    simp [Placement.emissions, Function.comp_def]
  rw [hstage, hstage, (Placement.emissions_perm (h.map _)).length_eq]

end Catalog

/-! ## What is done -/

namespace Emission

variable {emissions others : List Emission} {e : Emission} {v : Nat}

def work (e : Emission) (waits : List String) : Work :=
  { (e.newStep 0).work with waits }

def workAt (emissions : List Emission) (x : Emission × Nat) : Work :=
  x.1.work ((dependencies emissions x.1 x.2).map Dependency.action)

/-- The work of what is emitted for a module, which waits for all that feeds it. -/
def moduleWork (emissions : List Emission) (e : Emission) : Work :=
  e.work ((emissions.filter (·.feeds e)).map (·.placement.action.id))

theorem exists_thins (emissions : List Emission) :
    ∃ number, Thins emissions (emissions.filter forProject)
      (fun v => emissions[v]?.any forProject) number := by
  obtain ⟨number, hmono, hkept⟩ := exists_numbering emissions fun x => x.1.forProject
  rw [map_fst_filter_zipIdx] at hkept
  refine ⟨number, hmono, (filter_zipIdx_getElem? _ _).trans hkept, fun v e he hscope => ?_⟩
  simp [he, forProject, hscope]

theorem map_workAt_project (emissions : List Emission) :
    (emissions.zipIdx.filter fun x => x.1.forProject).map (workAt emissions) =
      (emissions.filter forProject).zipIdx.map (workAt (emissions.filter forProject)) := by
  obtain ⟨number, hthins⟩ := exists_thins emissions
  rw [← filter_zipIdx_getElem?, hthins.kept, List.map_map]
  apply List.map_congr_left
  intro x _
  rw [Function.comp_apply, workAt, workAt, hthins.dependencies_number, dependencies, List.map_map,
    List.map_map]
  rfl

/-- All that a step for a module waits for is among what is emitted for the project. -/
theorem map_action_of_module (hv : emissions[v]? = some e)
    (hscope : e.placement.action.scope = .module) :
    (dependencies emissions e v).map Dependency.action =
      ((emissions.filter forProject).filter (·.feeds e)).map (·.placement.action.id) := by
  have hfeeding : (emissions.filter forProject).filter (·.feeds e) =
      emissions.filter (·.feeds e) := by
    rw [List.filter_filter]
    apply List.filter_congr
    intro f _
    cases hfeeds : f.feeds e with
    | false => rfl
    | true => simp [forProject, (feeds_iff.mp hfeeds).1]
  rw [dependencies_of_module hv hscope, hfeeding, ← map_fst_filter_zipIdx emissions (·.feeds e),
    List.map_map, List.map_map]
  rfl

theorem map_workAt_module (emissions : List Emission) :
    (emissions.zipIdx.filter fun x => !x.1.forProject).map (workAt emissions) =
      (emissions.filter fun e => !e.forProject).map
        (moduleWork (emissions.filter forProject)) := by
  rw [← map_fst_filter_zipIdx emissions (fun e => !e.forProject), List.map_map]
  apply List.map_congr_left
  intro x hx
  obtain ⟨hmem, hmodule⟩ := List.mem_filter.mp hx
  have hscope : x.1.placement.action.scope = .module := by
    cases hscope : x.1.placement.action.scope with
    | project => simp [forProject, hscope] at hmodule
    | module => rfl
  rw [workAt, map_action_of_module (List.mem_zipIdx_iff_getElem?.mp hmem) hscope]
  rfl

/-- Where the same is emitted, and for the project in the same order, the same work is done. -/
theorem map_workAt_perm (h : emissions.Perm others)
    (hproject : emissions.filter forProject = others.filter forProject) :
    (emissions.zipIdx.map (workAt emissions)).Perm (others.zipIdx.map (workAt others)) := by
  -- the work for the project and that for modules, apart
  have hsplit : ∀ emissions : List Emission, (emissions.zipIdx.map (workAt emissions)).Perm
      ((emissions.filter forProject).zipIdx.map (workAt (emissions.filter forProject)) ++
        (emissions.filter fun e => !e.forProject).map
          (moduleWork (emissions.filter forProject))) := by
    intro emissions
    rw [← map_workAt_project, ← map_workAt_module, ← List.map_append]
    exact (List.filter_append_perm _ _).symm.map _
  have hmodules : ((emissions.filter fun e => !e.forProject).map
      (moduleWork (emissions.filter forProject))).Perm
        ((others.filter fun e => !e.forProject).map (moduleWork (others.filter forProject))) := by
    rw [hproject]
    exact (h.filter _).map _
  apply (hsplit emissions).trans
  rw [hproject] at hmodules ⊢
  exact (hmodules.append_left _).trans (hsplit others).symm

end Emission

namespace Catalog

theorem Makes.map_work_perm (h : c.Makes p w order plan) :
    (plan.steps.map Step.work).Perm
      ((c.emissions w p).zipIdx.map (Emission.workAt (c.emissions w p))) := by
  have hworks : plan.byNumber.map Step.work =
      (c.emissions w p).zipIdx.map (Emission.workAt (c.emissions w p)) := by
    rw [h.byNumber_eq, List.mapIdx_eq_zipIdx_map, List.map_map]
    rfl
  rw [← hworks]
  exact h.byNumber_perm.symm.map Step.work

end Catalog

/-- In whatever order modules are listed, there is a plan for the same work, or none for the same
reason. -/
theorem plan_perm (c : Catalog) (p : Project) (modules others : List Module)
    (h : modules.Perm others) :
    Plan.Alike Plan.SameWork (c.plan (p.withModules modules)) (c.plan (p.withModules others)) := by
  apply Catalog.plan_alike
  · intro w _
    obtain ⟨number, hthins⟩ := Emission.exists_thins (c.emissions w (p.withModules modules))
    obtain ⟨other, hother⟩ := Emission.exists_thins (c.emissions w (p.withModules others))
    rw [← Catalog.filter_forProject_eq h] at hother
    exact hthins.exists_cycle_iff.trans hother.exists_cycle_iff.symm
  · intro plan other hplan hother
    obtain ⟨w, order, hp⟩ := Catalog.exists_makes hplan
    obtain ⟨w', otherOrder, hq⟩ := Catalog.exists_makes hother
    obtain rfl : w = w' := Option.some.inj (hp.selected.symm.trans hq.selected)
    refine ⟨hp.name.trans hq.name.symm, ?_, ?_⟩
    · rw [hp.stages, hq.stages, Catalog.map_stage_steps, Catalog.map_stage_steps,
        Catalog.map_stage_emissions h]
    · have hworks := Emission.map_workAt_perm (Catalog.emissions_perm c w p h)
        (Catalog.filter_forProject_eq h)
      exact hp.map_work_perm.trans (hworks.trans hq.map_work_perm.symm)

/-- The tests change places, and what they wait for stays. -/
theorem Delivery.plan_reversed : project.modules.Perm project.modules.reverse ∧
    ∃ plan other,
      catalog.plan (project.withModules project.modules) = .ok plan ∧
      catalog.plan (project.withModules project.modules.reverse) = .ok other ∧
      plan.steps.map Step.module = [none, none, none, some "m1", some "m3"] ∧
      other.steps.map Step.module = [none, none, none, some "m3", some "m1"] ∧
      plan.SameWork other := by
  have hperm : project.modules.Perm project.modules.reverse := (List.reverse_perm _).symm
  obtain ⟨plan, hplan, hmodules⟩ : ∃ plan,
      catalog.plan (project.withModules project.modules) = .ok plan ∧
        plan.steps.map Step.module = [none, none, none, some "m1", some "m3"] :=
    exists_ok_of_toOption (by decide +kernel)
  obtain ⟨other, hother, hotherModules⟩ : ∃ other,
      catalog.plan (project.withModules project.modules.reverse) = .ok other ∧
        other.steps.map Step.module = [none, none, none, some "m3", some "m1"] :=
    exists_ok_of_toOption (by decide +kernel)
  have halike := plan_perm catalog project project.modules project.modules.reverse hperm
  refine ⟨hperm, plan, other, hplan, hother, hmodules, hotherModules, ?_⟩
  rw [hplan, hother] at halike
  cases halike with
  | plan hsame => exact hsame

end Workplan
