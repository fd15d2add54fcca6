import Workplan.Proofs.Catalog.Validity
import Workplan.Proofs.Plan.Producers
import Workplan.Proofs.Plan.Sort
import Workplan.Proofs.Precedence.Numbering
import Workplan.Proofs.Rule.Gate
import Mathlib.Data.List.Nodup
import Std.Data.String.ToNat

/-!
# Emitted steps

What is emitted for a project are steps numbered by their positions. Each waits for exactly the
emissions at other positions that feed it, in ascending order, and is for a module exactly if its
action is run for modules. A plan holds these steps and no others, each one in the place that
sorting gave to its position.
-/

namespace Workplan

variable {c : Catalog} {w : Workflow} {project : Rule.Context} {p : Project} {plan : Plan}
  {order : List Nat}

theorem Project.map_snd_moduleContexts (p : Project) :
    p.moduleContexts.map Prod.snd = p.modules.map p.moduleContext := by
  simp [moduleContexts, Function.comp_def]

namespace Placement

theorem mem_ofWorkflow_iff {placement : Placement} :
    placement ∈ ofWorkflow c w project ↔
      ∃ stage ∈ w.stages, Rule.anyMatch stage.rules project = true ∧
        ∃ r ∈ stage.actions, ∃ a, c.action? r.id = some a ∧
          placement = ⟨stage.name, r, a, .compile (r.rules ++ a.rules)⟩ := by
  simp only [ofWorkflow, List.mem_flatMap, List.mem_filter, List.mem_filterMap,
    Option.map_eq_some_iff, and_assoc, eq_comm (a := placement)]

theorem action?_of_mem {placement : Placement} (h : placement ∈ ofWorkflow c w project) :
    c.action? placement.action.id = some placement.action := by
  obtain ⟨stage, -, -, r, -, a, ha, rfl⟩ := mem_ofWorkflow_iff.mp h
  rw [(c.action?_eq_some_iff.mp ha).2, ha]

/-- A placement for the project passes exactly if its rules, read one by one, let it pass. -/
theorem matchesProject_iff {placement : Placement} {rules : List Rule}
    (hrules : placement.rules = .compile rules) (modules : List Rule.Context) :
    placement.matchesProject project modules = true ↔ Rule.Admits rules project modules := by
  rw [matchesProject, hrules]
  split
  · exact RuleSet.anyMatchAcross_compile
  · next huses => exact RuleSet.anyMatch_compile_iff_admits (by simpa using huses)

theorem isSome_of_mem_targets {placement : Placement} {modules : List (Module × Rule.Context)}
    {target : Option Module} (h : target ∈ placement.targets project modules) :
    target.isSome = true ↔ placement.action.scope = .module := by
  unfold targets at h
  split at h
  · next hscope =>
    have hnone : target = none := by
      split at h
      · simpa using h
      · simp at h
    simp [hnone, hscope]
  · next hscope =>
    obtain ⟨m, -, rfl⟩ := List.mem_map.mp h
    simp [hscope]

end Placement

def Catalog.emissions (c : Catalog) (w : Workflow) (p : Project) : List Emission :=
  Emission.ofPlacements (Placement.ofWorkflow c w p.context) p.context p.moduleContexts

namespace Emission

variable {emissions : List Emission} {e f : Emission} {u v : Nat} {d : Dependency}

theorem mem_emissions_iff :
    e ∈ c.emissions w p ↔ e.placement ∈ Placement.ofWorkflow c w p.context ∧
      e.target ∈ e.placement.targets p.context p.moduleContexts := by
  simp only [Catalog.emissions, ofPlacements, Placement.emissions, List.mem_flatMap, List.mem_map]
  constructor
  · intro h
    obtain ⟨placement, hplacement, target, htarget, rfl⟩ := h
    exact ⟨hplacement, htarget⟩
  · intro h
    exact ⟨e.placement, h.1, e.target, h.2, rfl⟩

theorem action?_of_mem (h : e ∈ c.emissions w p) :
    c.action? e.placement.action.id = some e.placement.action :=
  Placement.action?_of_mem (mem_emissions_iff.mp h).1

/-! ## Steps from emissions -/

/-- Whether the first emission produces for the whole project what the second one takes. -/
def feeds (producer consumer : Emission) : Bool :=
  producer.placement.action.scope = .project &&
    producer.placement.action.outputs.any fun a => consumer.placement.action.inputs.contains a

/-- What the emission at a position waits for, read off the emissions themselves. -/
def dependencies (emissions : List Emission) (e : Emission) (position : Nat) : List Dependency :=
  (emissions.zipIdx.filter fun f => f.2 != position && f.1.feeds e).map fun f =>
    ⟨idAt f.2, f.1.placement.action.id⟩

def toStep (e : Emission) (emissions : List Emission) (position : Nat) : Step :=
  { e.newStep position with runAfter := dependencies emissions e position }

theorem feeds_iff :
    f.feeds e = true ↔ f.placement.action.scope = .project ∧
      ∃ a ∈ f.placement.action.outputs, a ∈ e.placement.action.inputs := by
  simp [feeds]

/-- The predecessors that are looked up are the positions that feed an emission. -/
theorem predecessors_eq (placements : List Placement) (modules : List (Module × Rule.Context)) :
    e.placement.predecessors (.ofPlacements placements)
        (Placement.positions (Placement.emit project modules 0 placements)) =
      ((ofPlacements placements project modules).zipIdx.filter (·.1.feeds e)).map Prod.snd := by
  -- both lists ascend, so it is enough that they hold the same positions
  have hnumbers := pairwise_snd_filter_zipIdx (ofPlacements placements project modules) (·.1.feeds e)
  refine List.Perm.eq_of_pairwise (fun u v _ _ huv hvu => absurd huv (Nat.lt_asymm hvu))
    (pairwise_ascending _) hnumbers ?_
  refine (List.perm_ext_iff_of_nodup ((pairwise_ascending _).imp Nat.ne_of_lt)
    (hnumbers.imp Nat.ne_of_lt)).mpr fun u => ?_
  refine Placement.mem_predecessors.trans ?_
  simp [List.mem_zipIdx_iff_getElem?, feeds_iff]

/-- Looking up predecessors and their steps gives what is read off the emissions. -/
theorem waits_eq (placements : List Placement) (modules : List (Module × Rule.Context)) :
    Placement.waits (Placement.newSteps (Placement.emit project modules 0 placements))
        (e.placement.predecessors (.ofPlacements placements)
          (Placement.positions (Placement.emit project modules 0 placements))) v =
      dependencies (ofPlacements placements project modules) e v := by
  rw [predecessors_eq, Placement.newSteps, Placement.flatten_emit, Placement.waits, dependencies,
    List.filter_map, List.filterMap_map, List.filter_filter]
  refine List.filterMap_eq_map_iff_forall_eq_some.mpr fun x hx => ?_
  have hx := List.mem_zipIdx_iff_getElem?.mp (List.mem_filter.mp hx).1
  simp [List.getElem?_zipIdx, hx, newStep]

theorem mem_dependencies :
    d ∈ dependencies emissions e v ↔
      ∃ u f, emissions[u]? = some f ∧ u ≠ v ∧ f.feeds e = true ∧
        d = ⟨idAt u, f.placement.action.id⟩ := by
  simp only [dependencies, List.mem_map, List.mem_filter, Prod.exists,
    List.mk_mem_zipIdx_iff_getElem?, Bool.and_eq_true, bne_iff_ne]
  constructor
  · intro h
    obtain ⟨f, u, ⟨hf, hne, hfeeds⟩, rfl⟩ := h
    exact ⟨u, f, hf, hne, hfeeds, rfl⟩
  · intro h
    obtain ⟨u, f, hf, hne, hfeeds, rfl⟩ := h
    exact ⟨f, u, ⟨hf, hne, hfeeds⟩, rfl⟩

/-- The ids that a step waits for stand in the order of emission. -/
theorem dependencies_ascending (emissions : List Emission) (e : Emission) (v : Nat) :
    ∃ positions : List Nat, positions.Pairwise (· < ·) ∧
      (dependencies emissions e v).map Dependency.id = positions.map idAt := by
  refine ⟨(emissions.zipIdx.filter fun f => f.2 != v && f.1.feeds e).map Prod.snd, ?_, ?_⟩
  · exact pairwise_snd_filter_zipIdx emissions _
  · simp [dependencies, Function.comp_def]

theorem idAt_inj : idAt u = idAt v ↔ u = v :=
  Nat.repr_inj

/-- A step waits for the one emitted at another position exactly if that one feeds it. -/
theorem dependsOn_toStep_iff :
    (e.toStep emissions v).dependsOn (idAt u) = true ↔
      u ≠ v ∧ ∃ f, emissions[u]? = some f ∧ f.feeds e = true := by
  simp only [Step.dependsOn_iff, toStep, mem_dependencies]
  constructor
  · intro h
    obtain ⟨d, ⟨x, f, hf, hne, hfeeds, rfl⟩, hid⟩ := h
    obtain rfl := idAt_inj.mp hid
    exact ⟨hne, f, hf, hfeeds⟩
  · intro ⟨hne, f, hf, hfeeds⟩
    exact ⟨_, ⟨u, f, hf, hne, hfeeds, rfl⟩, rfl⟩

theorem scope_toStep : (e.toStep emissions v).scope = .module ↔ e.target.isSome = true := by
  cases htarget : e.target <;> simp [toStep, newStep, htarget]

/-- The scope of a step is that of its action. -/
theorem scope_toStep_of_mem (h : e ∈ c.emissions w p) (v : Nat) :
    (e.toStep (c.emissions w p) v).scope = e.placement.action.scope := by
  have htarget := Placement.isSome_of_mem_targets (mem_emissions_iff.mp h).2
  cases hscope : e.placement.action.scope <;> simp [toStep, newStep, hscope, htarget]

end Emission

/-- Each emission gives the step of its position. -/
theorem Placement.steps_eq (placements : List Placement) (project : Rule.Context)
    (modules : List (Module × Rule.Context)) :
    Placement.steps placements project modules =
      (Emission.ofPlacements placements project modules).mapIdx fun v e =>
        e.toStep (Emission.ofPlacements placements project modules) v := by
  rw [List.mapIdx_eq_zipIdx_map]
  simp only [Emission.toStep, ← Emission.waits_eq]
  exact flatMap_zip_emit fun q x => { x.1.newStep x.2 with
    runAfter := waits _ (q.predecessors (.ofPlacements placements) _) x.2 }

/-! ## The plan made of them -/

namespace Catalog

theorem getElem?_steps (v : Nat) :
    (c.steps w p)[v]? = (c.emissions w p)[v]?.map fun e => e.toStep (c.emissions w p) v := by
  rw [Catalog.steps, Placement.steps_eq]
  exact List.getElem?_mapIdx

theorem length_steps : (c.steps w p).length = (c.emissions w p).length := by
  rw [Catalog.steps, Placement.steps_eq]
  exact List.length_mapIdx

theorem map_stage_steps (c : Catalog) (w : Workflow) (p : Project) :
    (c.steps w p).map Step.stage = (c.emissions w p).map (·.placement.stage) := by
  apply List.ext_getElem?
  intro v
  rw [List.getElem?_map, getElem?_steps, List.getElem?_map, Option.map_map]
  rfl

/-- `plan` holds the steps of the workflow `w`, arranged by the order `order` of positions. -/
structure Makes (c : Catalog) (p : Project) (w : Workflow) (order : List Nat) (plan : Plan) :
    Prop where
  selected : c.selectWorkflow? p.context = some w
  arranges : Step.Arranges (c.steps w p) order
  name : plan.name = w.name
  stages : plan.stages = ((c.steps w p).map Step.stage).eraseDups
  steps : plan.steps = Step.arranged (c.steps w p) order

/-- A plan holds the steps as the precedence among them arranges them. -/
theorem exists_makes_arrange (h : c.plan p = .ok plan) :
    ∃ w g, Step.precedence (c.steps w p) = .ok g ∧ c.Makes p w g.arrange plan := by
  unfold Catalog.plan at h
  split at h
  · cases h
  · next w hw =>
    cases hsort : Step.sort (c.steps w p) with
    | error e => simp [hsort] at h
    | ok sorted =>
        obtain ⟨hids, g, hg, hcycle, rfl⟩ := Step.sort_eq_ok.mp hsort
        have hwellFormed := Step.precedence_wellFormed hids hg
        have hwellFounded := Precedence.wellFounded_before hwellFormed hcycle
        have hkeeps := (Precedence.arrange_least hwellFormed hwellFounded).1
        simp only [hsort, Except.ok.injEq] at h
        subst h
        exact ⟨w, g, hg, hw, (Step.keeps_precedence_iff hids hg).mp hkeeps, rfl, rfl, rfl⟩

theorem exists_makes (h : c.plan p = .ok plan) : ∃ w order, c.Makes p w order plan := by
  obtain ⟨w, g, -, hmakes⟩ := exists_makes_arrange h
  exact ⟨w, g.arrange, hmakes⟩

namespace Makes

variable (h : c.Makes p w order plan)

include h

theorem perm : order.Perm (List.range (c.emissions w p).length) :=
  Catalog.length_steps ▸ h.arranges.perm

theorem nodup_order : order.Nodup :=
  h.perm.nodup_iff.mpr List.nodup_range

theorem lt_length {v : Nat} (hv : v ∈ order) : v < (c.emissions w p).length :=
  List.mem_range.mp (h.perm.mem_iff.mp hv)

/-- The steps of the plan are the emitted ones, each in the place of its position. -/
theorem mem_steps_iff {s : Step} :
    s ∈ plan.steps ↔ ∃ (v : Nat) (e : Emission), (c.emissions w p)[v]? = some e ∧
      s = (e.toStep (c.emissions w p) v).placedAt (order.idxOf v) := by
  rw [h.steps, Step.mem_arranged_iff h.arranges.perm]
  simp only [Catalog.getElem?_steps, Option.map_eq_some_iff]
  constructor
  · intro hs
    obtain ⟨v, t, ⟨e, he, rfl⟩, rfl⟩ := hs
    exact ⟨v, e, he, rfl⟩
  · intro hs
    obtain ⟨v, e, he, rfl⟩ := hs
    exact ⟨v, _, ⟨e, he, rfl⟩, rfl⟩

theorem getElem?_steps (place : Nat) :
    plan.steps[place]? = order[place]?.bind fun v => (c.emissions w p)[v]?.map fun e =>
      (e.toStep (c.emissions w p) v).placedAt place := by
  rw [h.steps, Step.getElem?_arranged h.arranges.perm]
  simp [Catalog.getElem?_steps, Function.comp_def]

theorem map_id : plan.steps.map Step.id = order.map Emission.idAt := by
  refine List.ext_getElem? fun place => ?_
  rw [List.getElem?_map, List.getElem?_map, h.getElem?_steps]
  cases hv : order[place]? with
  | none => rfl
  | some v =>
      have hlt := h.lt_length (List.mem_of_getElem? hv)
      simp [List.getElem?_eq_getElem hlt, Emission.toStep, Emission.newStep]

theorem nodup_ids : (plan.steps.map Step.id).Nodup := by
  rw [h.map_id]
  exact List.Nodup.map (fun u v => Emission.idAt_inj.mp) h.nodup_order

theorem step?_eq_some_iff {id : String} {s : Step} :
    plan.step? id = some s ↔ s ∈ plan.steps ∧ s.id = id :=
  find?_key_eq_some_iff h.nodup_ids

end Makes
end Catalog
end Workplan
