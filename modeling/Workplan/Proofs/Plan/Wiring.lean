import Workplan.Proofs.Plan.Execution

/-!
# Who waits for whom

A step waits for exactly the other steps for the whole project whose actions give an artifact
that its own action takes. Nothing else is ever waited for: no step for a module, and nothing
that the plan does not hold.
-/

namespace Workplan

variable {c : Catalog} {p : Project} {plan : Plan} {w : Workflow} {order : List Nat}

/-- The selected workflow has a stage of this name that applies to the project and places an
action of this id there whose rules let the project with its modules pass. -/
def Catalog.PlacesForProject (c : Catalog) (p : Project) (stageName actionId : String) : Prop :=
  ∃ w, c.selectWorkflow? p.context = some w ∧
    ∃ stage ∈ w.stages, stage.name = stageName ∧ Rule.anyMatch stage.rules p.context = true ∧
      ∃ r ∈ stage.actions, ∃ a, c.action? r.id = some a ∧ a.id = actionId ∧ a.scope = .project ∧
        Rule.Admits (r.rules ++ a.rules) p.context (p.modules.map p.moduleContext)

/-- The steps of a plan wait for each other as the artifacts of their actions say. -/
structure Plan.Wired (c : Catalog) (p : Project) (plan : Plan) : Prop where
  action : ∀ s ∈ plan.steps, ∃ a, c.action? s.action = some a
  waits : ∀ s ∈ plan.steps, ∀ t ∈ plan.steps, s.dependsOn t.id = true ↔
    t ≠ s ∧ t.scope = .project ∧ ∃ a b, c.action? t.action = some a ∧
      c.action? s.action = some b ∧ ∃ artifact ∈ a.outputs, artifact ∈ b.inputs
  /-- Each entry names a step for the project, from a stage and an action that apply. -/
  placed : ∀ s ∈ plan.steps, ∀ d ∈ s.runAfter, ∃ t ∈ plan.steps, t.id = d.id ∧
    t.scope = .project ∧ c.PlacesForProject p t.stage t.action
  /-- The steps for modules of one action, however often it is placed, wait for the same. -/
  instances : ∀ s ∈ plan.steps, ∀ t ∈ plan.steps, s.scope = .module → t.scope = .module →
    s.action = t.action → s.runAfter = t.runAfter

namespace Emission

variable {emissions : List Emission}

/-- The step of an action for modules waits for all that feeds it. -/
theorem dependencies_of_module {e : Emission} {v : Nat} (hv : emissions[v]? = some e)
    (hscope : e.placement.action.scope = .module) :
    dependencies emissions e v = (emissions.zipIdx.filter (·.1.feeds e)).map fun f =>
      ⟨idAt f.2, f.1.placement.action.id⟩ := by
  unfold dependencies
  congr 1
  refine List.filter_congr fun x hx => ?_
  have hx := List.mem_zipIdx_iff_getElem?.mp hx
  have hself : x.2 = v → x.1.feeds e = false := by
    intro heq
    obtain rfl : x.1 = e := Option.some.inj (hx.symm.trans (heq ▸ hv))
    simp [feeds, hscope]
  by_cases heq : x.2 = v
  · simp [hself heq]
  · simp [heq]

end Emission

namespace Catalog.Makes

variable (h : c.Makes p w order plan)

include h

theorem placesForProject {v : Nat} {e : Emission} (he : (c.emissions w p)[v]? = some e)
    (hscope : e.placement.action.scope = .project) :
    c.PlacesForProject p e.placement.stage e.placement.action.id := by
  obtain ⟨hplacement, htarget⟩ := Emission.mem_emissions_iff.mp (List.mem_of_getElem? he)
  obtain ⟨stage, hstage, hmatch, r, hr, a, ha, hplaced⟩ := Placement.mem_ofWorkflow_iff.mp hplacement
  have hpasses : e.placement.matchesProject p.context (p.moduleContexts.map Prod.snd) = true := by
    simp only [Placement.targets, hscope] at htarget
    apply Classical.byContradiction
    intro hnot
    simp [hnot] at htarget
  rw [Placement.matchesProject_iff (by rw [hplaced])] at hpasses
  rw [hplaced] at hscope ⊢
  refine ⟨w, h.selected, stage, hstage, rfl, hmatch, r, hr, a, ha, rfl, hscope, ?_⟩
  rwa [p.map_snd_moduleContexts] at hpasses

/-- The emission behind a step, with its action as the catalog has it. -/
theorem exists_emission {s : Step} (hs : s ∈ plan.steps) :
    ∃ (v : Nat) (e : Emission), (c.emissions w p)[v]? = some e ∧
      s = (e.toStep (c.emissions w p) v).placedAt (order.idxOf v) ∧
      c.action? s.action = some e.placement.action ∧ s.scope = e.placement.action.scope := by
  obtain ⟨v, e, he, rfl⟩ := h.mem_steps_iff.mp hs
  have hmem := List.mem_of_getElem? he
  have hscope := Emission.scope_toStep_of_mem hmem v
  exact ⟨v, e, he, rfl, Emission.action?_of_mem hmem, hscope⟩

theorem dependsOn_iff {s t : Step} (hs : s ∈ plan.steps) (ht : t ∈ plan.steps) :
    s.dependsOn t.id = true ↔
      t ≠ s ∧ t.scope = .project ∧ ∃ a b, c.action? t.action = some a ∧
        c.action? s.action = some b ∧ ∃ artifact ∈ a.outputs, artifact ∈ b.inputs := by
  obtain ⟨v, e, he, hsv, hea, -⟩ := h.exists_emission hs
  obtain ⟨u, f, hf, htu, hfa, hscope⟩ := h.exists_emission ht
  have hne : u ≠ v ↔ t ≠ s := by
    refine not_congr ⟨?_, ?_⟩
    · intro huv
      subst huv
      obtain rfl := Option.some.inj (hf.symm.trans he)
      rw [hsv, htu]
    · intro hts
      have hid : t.id = s.id := congrArg Step.id hts
      rw [hsv, htu] at hid
      exact Emission.idAt_inj.mp hid
  have hwaits : s.dependsOn t.id = true ↔
      u ≠ v ∧ ∃ f : Emission, (c.emissions w p)[u]? = some f ∧ f.feeds e = true := by
    rw [hsv, htu]
    exact Emission.dependsOn_toStep_iff
  rw [hwaits, hne, hscope, hea, hfa]
  refine and_congr_right fun _ => ?_
  simp [hf, Emission.feeds_iff]

theorem runAfter_eq_of_module {s t : Step} (hs : s ∈ plan.steps) (ht : t ∈ plan.steps)
    (hsm : s.scope = .module) (htm : t.scope = .module) (haction : s.action = t.action) :
    s.runAfter = t.runAfter := by
  obtain ⟨v, e, he, hsv, hea, hse⟩ := h.exists_emission hs
  obtain ⟨u, f, hf, htu, hfa, htf⟩ := h.exists_emission ht
  have hsame : e.placement.action = f.placement.action :=
    Option.some.inj (hea.symm.trans (haction ▸ hfa))
  have hfeeds : ∀ producer : Emission, producer.feeds e = producer.feeds f := by
    intro producer
    simp only [Emission.feeds, hsame]
  rw [hsv, htu, Step.placedAt_runAfter, Step.placedAt_runAfter, Emission.toStep, Emission.toStep,
    Emission.dependencies_of_module he (hse ▸ hsm), Emission.dependencies_of_module hf (htf ▸ htm)]
  simp only [hfeeds]

end Catalog.Makes

theorem plan_wired (h : c.plan p = .ok plan) : plan.Wired c p := by
  obtain ⟨w, order, hmakes⟩ := Catalog.exists_makes h
  refine ⟨?_, fun s hs t ht => hmakes.dependsOn_iff hs ht, ?_,
    fun s hs t ht => hmakes.runAfter_eq_of_module hs ht⟩
  · intro s hs
    obtain ⟨v, e, -, -, ha, -⟩ := hmakes.exists_emission hs
    exact ⟨_, ha⟩
  · intro s hs d hd
    obtain ⟨v, e, -, rfl⟩ := hmakes.mem_steps_iff.mp hs
    obtain ⟨u, f, hf, -, hfeeds, rfl⟩ := Emission.mem_dependencies.mp hd
    have hscope := (Emission.feeds_iff.mp hfeeds).1
    have hplaces := hmakes.placesForProject hf hscope
    refine ⟨_, hmakes.mem_steps_iff.mpr ⟨u, f, hf, rfl⟩, rfl, ?_, hplaces⟩
    rw [Step.placedAt_scope, Emission.scope_toStep_of_mem (List.mem_of_getElem? hf), hscope]

/-- Deploying and testing wait for the build, not for the stage that is left out. -/
theorem Delivery.wired_delivery : ∃ plan, Delivery.catalog.plan Delivery.project = .ok plan ∧
    (plan.steps.map fun s => (s.id, s.runAfter.map Dependency.id)) =
      [("4", []), ("1", ["4"]), ("0", ["1"]), ("2", ["1"]), ("3", ["1"])] ∧
    plan.Wired Delivery.catalog Delivery.project := by
  obtain ⟨plan, hplan, hsteps⟩ := Delivery.exists_plan
  exact ⟨plan, hplan, hsteps, plan_wired hplan⟩

end Workplan
