import Workplan.Proofs.Plan.Execution
import Workplan.Proofs.Plan.Thinning

/-!
# One more module

Where no action for the project looks at modules, a module that is put among the others adds its
own steps to a plan and disturbs nothing else. Its steps feed nothing, so they can be left out of
the plan, and what remains is the plan without the module. All that stands behind its steps moves,
though: ids count steps in the order of emission, places in the order in which they run.
-/

namespace Workplan

variable {c : Catalog} {p q : Project} {w : Workflow} {plan other : Plan} {order : List Nat}

/-! ## Which module a step is for -/

/-- What a placement emits, with the place among the modules of the one that it is for. -/
def Placement.located (placement : Placement) (project : Rule.Context)
    (modules : List (Module × Rule.Context)) : List (Emission × Option Nat) :=
  match placement.action.scope with
  | .project => (placement.emissions project modules).map fun e => (e, none)
  | .module =>
    (modules.zipIdx.filter fun m => placement.rules.anyMatch m.1.2).map fun m =>
      (⟨placement, some m.1.1⟩, some m.2)

namespace Catalog

def located (c : Catalog) (w : Workflow) (p : Project) : List (Emission × Option Nat) :=
  (Placement.ofWorkflow c w p.context).flatMap fun placement =>
    placement.located p.context p.moduleContexts

/-- The place, among the modules of a project, of the one that a step of its plan is for. -/
def owner? (c : Catalog) (p : Project) (s : Step) : Option Nat := do
  let w ← c.selectWorkflow? p.context
  let number ← s.id.toNat?
  let emitted ← (c.located w p)[number]?
  emitted.2

def emittedFor (c : Catalog) (p : Project) (place : Nat) (s : Step) : Bool :=
  c.owner? p s == some place

end Catalog

namespace Placement

variable {placement : Placement} {project : Rule.Context} {modules : List (Module × Rule.Context)}
  {x : Emission × Option Nat}

theorem map_fst_located :
    (placement.located project modules).map Prod.fst = placement.emissions project modules := by
  unfold located
  split
  · simp [Function.comp_def]
  · next hscope =>
    simp only [emissions, targets, hscope, ← map_fst_filter_zipIdx modules, List.map_map]
    rfl

theorem snd_of_mem_located (hx : x ∈ placement.located project modules)
    (hscope : placement.action.scope = .project) : x.2 = none := by
  simp only [located, hscope] at hx
  obtain ⟨e, -, rfl⟩ := List.mem_map.mp hx
  rfl

theorem target_of_mem_located (hx : x ∈ placement.located project modules) :
    x.1.placement = placement ∧
      x.1.target = x.2.bind fun place => modules[place]?.map Prod.fst := by
  unfold located at hx
  split at hx
  · next hscope =>
    obtain ⟨e, he, rfl⟩ := List.mem_map.mp hx
    obtain ⟨target, htarget, rfl⟩ := List.mem_map.mp he
    have hnone := isSome_of_mem_targets htarget
    refine ⟨rfl, ?_⟩
    simpa [hscope] using hnone
  · obtain ⟨m, hm, rfl⟩ := List.mem_map.mp hx
    have hplace := List.mem_zipIdx_iff_getElem?.mp (List.mem_filter.mp hm).1
    exact ⟨rfl, by simp [hplace]⟩

end Placement

namespace Catalog

theorem map_fst_located (c : Catalog) (w : Workflow) (p : Project) :
    (c.located w p).map Prod.fst = c.emissions w p := by
  simp only [located, emissions, Emission.ofPlacements, List.map_flatMap,
    Placement.map_fst_located]

theorem getElem?_emissions (v : Nat) :
    (c.emissions w p)[v]? = (c.located w p)[v]?.map Prod.fst := by
  rw [← map_fst_located, List.getElem?_map]

theorem target_of_mem_located {x : Emission × Option Nat} (hx : x ∈ c.located w p) :
    x.1.target = x.2.bind fun place => p.modules[place]? := by
  obtain ⟨placement, -, hx⟩ := List.mem_flatMap.mp hx
  rw [(Placement.target_of_mem_located hx).2]
  simp [Project.moduleContexts, Function.comp_def]

namespace Makes

variable (h : c.Makes p w order plan)

include h

theorem owner?_eq {v : Nat} {x : Emission × Option Nat} (hx : (c.located w p)[v]? = some x)
    {s : Step} (hs : s.id = Emission.idAt v) : c.owner? p s = x.2 := by
  have hnumber : s.id.toNat? = some v := hs ▸ Nat.toNat?_repr v
  simp [owner?, h.selected, hnumber, hx]

theorem module_eq {s : Step} (hs : s ∈ plan.steps) :
    s.module = (c.owner? p s).bind fun place => p.modules[place]?.map Module.id := by
  obtain ⟨v, e, he, rfl⟩ := h.mem_steps_iff.mp hs
  rw [getElem?_emissions] at he
  obtain ⟨x, hx, rfl⟩ := Option.map_eq_some_iff.mp he
  rw [h.owner?_eq hx rfl]
  show x.1.target.map Module.id = _
  rw [target_of_mem_located (List.mem_of_getElem? hx), Option.map_bind]
  rfl

end Makes
end Catalog

/-! ## Without the module -/

/-- No action for the project that the selected workflow refers to has a rule that can be read
and mentions a variable of a module. -/
def Catalog.GatesIgnoreModules (c : Catalog) (project : Rule.Context) : Prop :=
  ∀ w ∈ c.selectWorkflow? project, ∀ stage ∈ w.stages, ∀ r ∈ stage.actions,
    ∀ a ∈ c.action? r.id, a.scope = .project →
      ∀ rule ∈ r.rules ++ a.rules, rule.usesModuleVariables = false

namespace Placement

variable {placement : Placement} {project : Rule.Context}

theorem matchesProject_eq (h : placement.rules.usesModuleVariables = false)
    (modules : List Rule.Context) :
    placement.matchesProject project modules = placement.rules.anyMatch project := by
  simp [matchesProject, h]

/-- Less what is emitted for a module, a placement emits what it emits without the module. -/
theorem map_fst_filter_located (project : Rule.Context)
    (before after : List (Module × Rule.Context)) (m : Module × Rule.Context)
    (hrules : placement.action.scope = .project → placement.rules.usesModuleVariables = false) :
    ((placement.located project (before ++ m :: after)).filter (·.2 != some before.length)).map
        Prod.fst = placement.emissions project (before ++ after) := by
  cases hscope : placement.action.scope with
  | project =>
      have hkept : (none != some before.length) = true := rfl
      simp [located, emissions, targets, hscope, matchesProject_eq (hrules hscope), List.filter_map,
        Function.comp_def, hkept]
  | module =>
      have hplace : ∀ m : (Module × Rule.Context) × Nat,
          (some m.2 != some before.length) = (m.2 != before.length) := fun _ => rfl
      rw [emissions, targets, hscope]
      simp only [located, hscope, List.filter_map, List.map_map, Function.comp_def, hplace]
      rw [← map_fst_filter_zipIdx_ne_length before after m, List.filter_map, List.map_map,
        List.filter_filter, List.filter_filter]
      simp only [Function.comp_def, Bool.and_comm]

end Placement

namespace Catalog

section Insertion

variable {before after : List Module}

theorem GatesIgnoreModules.usesModuleVariables_eq {ctx : Rule.Context} {placement : Placement}
    (h : c.GatesIgnoreModules ctx) (hw : c.selectWorkflow? ctx = some w)
    (hplacement : placement ∈ Placement.ofWorkflow c w ctx)
    (hscope : placement.action.scope = .project) :
    placement.rules.usesModuleVariables = false := by
  obtain ⟨stage, hstage, -, r, hr, a, ha, rfl⟩ := Placement.mem_ofWorkflow_iff.mp hplacement
  rw [RuleSet.usesModuleVariables_compile, List.any_eq_false]
  intro rule hrule
  simp [h w hw stage hstage r hr a ha hscope rule hrule]

theorem map_fst_filter_located (hw : c.selectWorkflow? p.context = some w)
    (h : c.GatesIgnoreModules p.context) (m : Module) :
    ((c.located w (p.withModules (before ++ m :: after))).filter
        (·.2 != some before.length)).map Prod.fst =
      c.emissions w (p.withModules (before ++ after)) := by
  simp only [located, emissions, Emission.ofPlacements, List.filter_flatMap, List.map_flatMap,
    Project.context_withModules, Project.moduleContexts_withModules]
  apply List.flatMap_congr
  intro placement hplacement
  have hsplit := Placement.map_fst_filter_located p.context
    (before.map fun m => (m, p.moduleContext m)) (after.map fun m => (m, p.moduleContext m))
    (m, p.moduleContext m) (h.usesModuleVariables_eq hw hplacement)
  simpa using hsplit

/-- Whether what is emitted at a position is not for the module at a place. -/
def keeps (c : Catalog) (w : Workflow) (p : Project) (place position : Nat) : Bool :=
  (c.located w p)[position]?.any (·.2 != some place)

theorem map_fst_filter_keeps (c : Catalog) (w : Workflow) (p : Project) (place : Nat) :
    ((c.emissions w p).zipIdx.filter fun x => c.keeps w p place x.2).map Prod.fst =
      ((c.located w p).filter (·.2 != some place)).map Prod.fst := by
  have hkeeps := filter_zipIdx_getElem? (c.located w p) (·.2 != some place)
  rw [← map_fst_filter_zipIdx (c.located w p), ← hkeeps, ← map_fst_located, List.zipIdx_map,
    List.filter_map, List.map_map, List.map_map]
  rfl

theorem exists_thins (hw : c.selectWorkflow? p.context = some w)
    (h : c.GatesIgnoreModules p.context) (m : Module) :
    ∃ number, Emission.Thins (c.emissions w (p.withModules (before ++ m :: after)))
      (c.emissions w (p.withModules (before ++ after)))
      (c.keeps w (p.withModules (before ++ m :: after)) before.length) number := by
  obtain ⟨number, hmono, hkept⟩ :=
    exists_numbering (c.emissions w (p.withModules (before ++ m :: after)))
      fun x => c.keeps w (p.withModules (before ++ m :: after)) before.length x.2
  rw [map_fst_filter_keeps, map_fst_filter_located hw h] at hkept
  refine ⟨number, hmono, hkept, fun v e he hscope => ?_⟩
  rw [getElem?_emissions] at he
  obtain ⟨x, hx, rfl⟩ := Option.map_eq_some_iff.mp he
  obtain ⟨placement, -, hmem⟩ := List.mem_flatMap.mp (List.mem_of_getElem? hx)
  have hplacement := (Placement.target_of_mem_located hmem).1
  have hnone := Placement.snd_of_mem_located hmem (hplacement ▸ hscope)
  simp [keeps, hx, hnone]

end Insertion
end Catalog

/-! ## Renumbered steps -/

/-- A correspondence of the steps of a plan with steps of another one that keeps their order. The
step of number `n` corresponds to the one of number `number n`, the step at the place `k` to the
one at the place `place k`. -/
structure Renumbering where
  number : Nat → Nat
  place : Nat → Nat
  number_mono : StrictMono number
  place_mono : StrictMono place

def Renumbering.id (r : Renumbering) (id : String) : String :=
  (id.toNat?.map fun n => toString (r.number n)).getD id

/-- The step with the ids, its own and those that it waits for, and with the place of the steps
that correspond. -/
def Step.renumbered (s : Step) (r : Renumbering) : Step :=
  { s with
    id := r.id s.id
    runAfter := s.runAfter.map fun d => { d with id := r.id d.id }
    order := r.place s.order }

theorem Renumbering.id_idAt (r : Renumbering) (v : Nat) :
    r.id (Emission.idAt v) = Emission.idAt (r.number v) := by
  simp [Renumbering.id, Emission.idAt, Nat.toNat?_repr]

/-- The step of an emission that is kept is the one that it gave before, renumbered. -/
theorem Emission.Thins.toStep_number {larger smaller : List Emission} {keep : Nat → Bool}
    {r : Renumbering} (h : Thins larger smaller keep r.number) (e : Emission) (v place : Nat) :
    (e.toStep larger (r.number v)).placedAt (r.place place) =
      ((e.toStep smaller v).placedAt place).renumbered r := by
  have hwaits : dependencies larger e (r.number v) =
      (dependencies smaller e v).map fun d => { d with id := r.id d.id } := by
    rw [h.dependencies_number, dependencies, List.map_map]
    apply List.map_congr_left
    intro f _
    rw [Function.comp_apply, r.id_idAt]
  have hid := r.id_idAt v
  simp only [toStep, hwaits, Step.renumbered, Step.placedAt, newStep, hid]

/-! ## Plans with and without the module -/

/-- `other` holds the steps of `plan`, renumbered and in the same sequence, and otherwise steps for
a module `m` only, which are those that `added` picks. -/
structure Plan.Within (plan other : Plan) (added : Step → Bool) (m : Module) : Prop where
  name : other.name = plan.name
  rest : ∃ r : Renumbering, (other.steps.filter fun s => !added s) = plan.steps.map (·.renumbered r)
  added : ∀ s ∈ other.steps, added s = true → s.module = some m.id

def Catalog.stepAt? (c : Catalog) (w : Workflow) (p : Project) (position place : Nat) :
    Option Step :=
  (c.emissions w p)[position]?.map fun e =>
    (e.toStep (c.emissions w p) position).placedAt place

namespace Catalog

variable {large : List Nat} {k : Nat} {r : Renumbering}

theorem Makes.map_some_steps (h : c.Makes p w order plan) :
    plan.steps.map some = order.zipIdx.map fun x => c.stepAt? w p x.1 x.2 := by
  apply List.ext_getElem?
  intro place
  rw [List.getElem?_map, h.getElem?_steps]
  cases hv : order[place]? with
  | none => simp [List.getElem?_zipIdx, hv]
  | some v =>
      have hlt := h.lt_length (List.mem_of_getElem? hv)
      simp [List.getElem?_zipIdx, hv, hlt, stepAt?]

theorem stepAt?_number (h : Emission.Thins (c.emissions w q) (c.emissions w p) (c.keeps w q k)
    r.number) {v : Nat} (hv : v < (c.emissions w p).length) (place : Nat) :
    c.stepAt? w q (r.number v) (r.place place) = (c.stepAt? w p v place).map (·.renumbered r) := by
  have he := List.getElem?_eq_getElem hv
  simp [stepAt?, h.getElem?_number he, hv, h.toStep_number]

theorem Makes.any_stepAt? (h : c.Makes q w order plan) (v place : Nat) :
    (c.stepAt? w q v place).any (fun s => !c.emittedFor q k s) = c.keeps w q k v := by
  rw [stepAt?, keeps, getElem?_emissions]
  cases hx : (c.located w q)[v]? with
  | none => rfl
  | some x =>
      have howner := h.owner?_eq hx (s := (x.1.toStep (c.emissions w q) v).placedAt place) rfl
      simp [emittedFor, howner, bne]

/-- The steps that are not emitted for the module are those of the plan without the module. -/
theorem Makes.filter_steps (hp : c.Makes p w order plan) (hq : c.Makes q w large other)
    (h : Emission.Thins (c.emissions w q) (c.emissions w p) (c.keeps w q k) r.number)
    (hplaces : (large.zipIdx.filter fun x => c.keeps w q k x.1) =
      order.zipIdx.map fun x => (r.number x.1, r.place x.2)) :
    (other.steps.filter fun s => !c.emittedFor q k s) = plan.steps.map (·.renumbered r) := by
  -- every position and place of an order has a step, which is what `some` says here
  have hsome : Function.Injective (List.map (some : Step → Option Step)) :=
    List.map_injective_iff.mpr fun s t => Option.some.inj
  apply hsome
  calc (other.steps.filter fun s => !c.emittedFor q k s).map some
      = (other.steps.map some).filter (·.any fun s => !c.emittedFor q k s) := by
        rw [List.filter_map]
        rfl
    _ = (large.zipIdx.filter fun x => c.keeps w q k x.1).map fun x => c.stepAt? w q x.1 x.2 := by
        rw [hq.map_some_steps, List.filter_map]
        simp only [Function.comp_def, hq.any_stepAt?]
    _ = order.zipIdx.map fun x => c.stepAt? w q (r.number x.1) (r.place x.2) := by
        rw [hplaces, List.map_map]
        rfl
    _ = order.zipIdx.map fun x => (c.stepAt? w p x.1 x.2).map (·.renumbered r) := by
        apply List.map_congr_left
        intro x hx
        have hmem := List.mem_of_getElem? (List.mem_zipIdx_iff_getElem?.mp hx)
        exact stepAt?_number h (hp.lt_length hmem) x.2
    _ = (plan.steps.map (·.renumbered r)).map some := by
        have hmapped := congrArg (List.map (Option.map fun s => s.renumbered r)) hp.map_some_steps
        simpa [Function.comp_def] using hmapped.symm

end Catalog

/-- A module that is put between others adds its own steps to a plan, and none of the others
changes but in ids and places. -/
theorem plan_insert (c : Catalog) (p : Project) (before after : List Module) (m : Module)
    (h : c.GatesIgnoreModules p.context) :
    Plan.Alike
      (fun plan other => plan.Within other
        (c.emittedFor (p.withModules (before ++ m :: after)) before.length) m)
      (c.plan (p.withModules (before ++ after)))
      (c.plan (p.withModules (before ++ m :: after))) := by
  apply Catalog.plan_alike
  · intro w hw
    obtain ⟨number, hthins⟩ := Catalog.exists_thins hw h m
    exact hthins.exists_cycle_iff.symm
  · intro plan other hplan hother
    obtain ⟨w, smaller, hsmaller, hp⟩ := Catalog.exists_makes_arrange hplan
    obtain ⟨w', larger, hlarger, hq⟩ := Catalog.exists_makes_arrange hother
    obtain rfl : w = w' := Option.some.inj (hp.selected.symm.trans hq.selected)
    obtain ⟨number, hthins⟩ := Catalog.exists_thins hp.selected h m
    -- what the module adds comes before nothing, so the rest is arranged as it is alone
    have harrange := (Catalog.thins_precedence hthins hlarger hsmaller).filter_arrange
      (Step.precedence_wellFormed Catalog.nodup_ids_steps hlarger)
      (Step.precedence_wellFormed Catalog.nodup_ids_steps hsmaller)
    obtain ⟨place, hmono, hplaces⟩ := exists_places harrange
    refine ⟨hq.name.trans hp.name.symm, ⟨⟨number, place, hthins.mono, hmono⟩, ?_⟩, ?_⟩
    · exact hp.filter_steps hq hthins hplaces
    · intro s hs hadded
      have howner : c.owner? (p.withModules (before ++ m :: after)) s = some before.length := by
        simpa [Catalog.emittedFor] using hadded
      simp [hq.module_eq hs, howner]

namespace Delivery

/-- A delivery that tests first what is built last, and whose gates do not look at modules. -/
def tested : Catalog :=
  .ofValid ⟨[action "test" .module ["MODULE_NAME != \"docs\""] ["image"] ["report"],
      action "deploy" .project [] ["image", "report"] [],
      action "build" .project ["not false"] ["source"] ["image"]],
    [⟨"release", [], [
      ⟨"check", [], [reference "test" []]⟩,
      ⟨"ship", [], [reference "deploy" [], reference "build" []]⟩]⟩]⟩ (by decide +kernel)

def cli : Module :=
  .named "m4" "cli" "cargo"

def grown : Project :=
  project.withModules (project.modules.take 1 ++ cli :: project.modules.drop 1)

/-- The test of the new module has the number 1 and comes third, so that the number 1 becomes 2 and
the place 1 stays. -/
theorem plan_grown : tested.GatesIgnoreModules project.context ∧
    ∃ plan other,
      tested.plan (project.withModules (project.modules.take 1 ++ project.modules.drop 1)) =
        .ok plan ∧
      tested.plan grown = .ok other ∧
      plan.steps.map Step.id = ["3", "0", "1", "2"] ∧
      other.steps.map Step.id = ["4", "0", "1", "2", "3"] ∧
      plan.Within other (tested.emittedFor grown 1) cli := by
  have hgates : tested.GatesIgnoreModules project.context := by
    unfold Catalog.GatesIgnoreModules
    decide +kernel
  obtain ⟨plan, hplan, hids⟩ : ∃ plan,
      tested.plan (project.withModules (project.modules.take 1 ++ project.modules.drop 1)) =
        .ok plan ∧ plan.steps.map Step.id = ["3", "0", "1", "2"] :=
    exists_ok_of_toOption (by decide +kernel)
  obtain ⟨other, hother, hotherIds⟩ : ∃ other, tested.plan grown = .ok other ∧
      other.steps.map Step.id = ["4", "0", "1", "2", "3"] :=
    exists_ok_of_toOption (by decide +kernel)
  have halike : Plan.Alike
      (fun plan other => plan.Within other (tested.emittedFor grown 1) cli)
      (tested.plan (project.withModules (project.modules.take 1 ++ project.modules.drop 1)))
      (tested.plan grown) :=
    plan_insert tested project (project.modules.take 1) (project.modules.drop 1) cli hgates
  refine ⟨hgates, plan, other, hplan, hother, hids, hotherIds, ?_⟩
  rw [hplan, hother] at halike
  cases halike with
  | plan hwithin => exact hwithin

end Delivery

end Workplan
