import Workplan.Proofs.Plan.Outline
import Workplan.Proofs.Plan.Stages

/-!
# Workflows that list producers first

Where no task takes what a later one gives, the order of the workflow can be carried out as it
stands. Sorting then moves nothing: it gives the first of all orders of the positions that respect
who waits for whom, and no order of positions comes before the one in which they are counted. So
the numbers of the steps are their places, and the steps of a stage stand next to each other.
-/

namespace Workplan

open Relation (TransGen)

variable {c : Catalog} {p : Project} {plan : Plan} {w : Workflow} {order : List Nat}

/-- No task takes what a later one gives for the whole project. -/
def Task.ProducersFirst (tasks : List Task) : Prop :=
  tasks.Pairwise fun earlier later => later.draft.feeds earlier.draft = false

instance (tasks : List Task) : Decidable (Task.ProducersFirst tasks) :=
  inferInstanceAs (Decidable (tasks.Pairwise fun earlier later =>
    later.draft.feeds earlier.draft = false))

/-- Each step comes after all the steps that it waits for. -/
def Step.InOrder (steps : List Step) : Prop :=
  ∀ u v, Precedes steps u v → u < v

/-- The steps of a plan are the tasks of its workflow in the order of the workflow, and those of a
stage are a block. -/
structure Plan.KeepsOrder (c : Catalog) (p : Project) (w : Workflow) (plan : Plan) : Prop where
  tasks : plan.steps.map Step.bare =
    (Task.ofWorkflow c p w).mapIdx fun number t => t.step number
  numbers : ∀ s ∈ plan.steps, s.id = toString s.order
  stages : plan.stages.Nodup
  occupied : ∀ stage ∈ plan.stages, plan.stepsInStage stage ≠ []
  blocks : plan.steps = plan.stages.flatMap plan.stepsInStage

/-! ## Orders of positions -/

theorem idxOf_range {v n : Nat} (h : v < n) : (List.range n).idxOf v = v := by
  have hlt : v < (List.range n).length := by simpa using h
  simpa using List.nodup_range.idxOf_getElem v hlt

/-- Ascending numbers come before all other orders of them. -/
theorem not_lex_of_pairwise_lt {numbers : List Nat} (hperm : order.Perm numbers)
    (h : numbers.Pairwise (· < ·)) : ¬ List.Lex (· < ·) order numbers := by
  induction numbers generalizing order with
  | nil =>
      intro hlex
      cases hlex
  | cons n rest ih =>
      obtain ⟨hall, hrest⟩ := List.pairwise_cons.mp h
      intro hlex
      cases hlex with
      | nil => simpa using hperm.length_eq
      | @rel m _ _ _ hlt =>
          have hm : m ∈ n :: rest := hperm.mem_iff.mp List.mem_cons_self
          rcases List.mem_cons.mp hm with heq | hm
          · omega
          · exact Nat.lt_asymm hlt (hall m hm)
      | cons hlex => exact ih hperm.cons_inv hrest hlex

/-! ## Sorting what is in order -/

namespace Step

variable {steps : List Step}

theorem InOrder.arranges (h : InOrder steps) : Arranges steps (List.range steps.length) where
  perm := .refl _
  waits := by
    intro v p s t hs ht hwaits
    have hv := (List.getElem?_eq_some_iff.mp hs).1
    have hp := (List.getElem?_eq_some_iff.mp ht).1
    rw [idxOf_range hp, idxOf_range hv]
    exact h p v ⟨s, t, hs, ht, hwaits⟩

theorem InOrder.lt_of_transGen (h : InOrder steps) {u v : Nat}
    (hway : TransGen (Precedes steps) u v) : u < v := by
  induction hway with
  | single huv => exact h _ _ huv
  | tail _ huv ih => exact ih.trans (h _ _ huv)

/-- Sorting leaves steps where they are if each comes after all that it waits for. -/
theorem sort_of_inOrder (hids : (steps.map Step.id).Nodup) (hresolved : Resolved steps)
    (h : InOrder steps) : sort steps = .ok (arranged steps (List.range steps.length)) := by
  rcases sort_of_resolved hids hresolved with ⟨v, s, -, hcycle, -⟩ | ⟨-, sorted, hsort⟩
  · exact absurd (h.lt_of_transGen hcycle) (Nat.lt_irrefl v)
  · obtain ⟨-, -, order, harranges, hleast, rfl⟩ := sort_arranges hsort
    rcases hleast _ h.arranges with rfl | hlex
    · exact hsort
    · exact absurd hlex (not_lex_of_pairwise_lt harranges.perm List.pairwise_lt_range)

end Step

/-! ## Emission in order -/

namespace Catalog

theorem inOrder_steps_iff :
    Step.InOrder (c.steps w p) ↔ Task.ProducersFirst (Task.ofWorkflow c p w) := by
  rw [Step.InOrder, precedes_steps_eq, Task.ProducersFirst, ← Emission.map_task_emissions,
    List.pairwise_map, List.pairwise_iff_getElem]
  constructor
  · intro h u v hu hv huv
    rw [Bool.eq_false_iff]
    intro hfeeds
    have hvu := h v u
      ⟨huv.ne', _, _, List.getElem?_eq_getElem hv, List.getElem?_eq_getElem hu, hfeeds⟩
    omega
  · intro h u v ⟨hne, f, e, hf, he, hfeeds⟩
    obtain ⟨hu, rfl⟩ := List.getElem?_eq_some_iff.mp hf
    obtain ⟨hv, rfl⟩ := List.getElem?_eq_some_iff.mp he
    rcases Nat.lt_or_gt_of_ne hne with hlt | hlt
    · exact hlt
    · exact absurd hfeeds (Bool.eq_false_iff.mp (h v u hv hu hlt))

theorem exists_makes_of_inOrder (hw : c.selectWorkflow? p.context = some w)
    (h : Step.InOrder (c.steps w p)) :
    ∃ plan, c.plan p = .ok plan ∧ c.Makes p w (List.range (c.emissions w p).length) plan := by
  have hsort := Step.sort_of_inOrder nodup_ids_steps resolved_steps h
  rw [← length_steps]
  refine ⟨⟨w.name, ((c.steps w p).map Step.stage).eraseDups,
    Step.arranged (c.steps w p) (List.range (c.steps w p).length)⟩,
    ?_, hw, h.arranges, rfl, rfl, rfl⟩
  rw [Catalog.plan, hw]
  simp only [hsort]

namespace Makes

/-- The numbers are the places exactly if nothing is moved. -/
theorem numbers_iff (h : c.Makes p w order plan) :
    (∀ s ∈ plan.steps, s.id = toString s.order) ↔ order = List.range (c.emissions w p).length := by
  constructor
  · intro hnumbers
    refine List.ext_getElem (by simpa using h.perm.length_eq) fun place hplace _ => ?_
    have hv := List.getElem?_eq_getElem hplace
    have he := List.getElem?_eq_getElem (h.lt_length (List.mem_of_getElem? hv))
    have hs := h.getElem?_steps place
    rw [hv, Option.bind_some, he, Option.map_some] at hs
    have hid := hnumbers _ (List.mem_of_getElem? hs)
    rw [List.getElem_range]
    exact Emission.idAt_inj.mp hid
  · rintro rfl s hs
    obtain ⟨v, e, he, rfl⟩ := h.mem_steps_iff.mp hs
    rw [Step.placedAt_order, idxOf_range (List.getElem?_eq_some_iff.mp he).1]
    rfl

theorem inOrder (h : c.Makes p w (List.range (c.emissions w p).length) plan) :
    Step.InOrder (c.steps w p) := by
  intro u v ⟨s, t, hs, ht, hwaits⟩
  have hlt := h.arranges.waits v u s t hs ht hwaits
  have hv := (List.getElem?_eq_some_iff.mp hs).1
  have hu := (List.getElem?_eq_some_iff.mp ht).1
  rw [length_steps] at hu hv
  rwa [idxOf_range hu, idxOf_range hv] at hlt

theorem byNumber_eq_steps (h : c.Makes p w (List.range (c.emissions w p).length) plan) :
    plan.byNumber = plan.steps := by
  rw [h.byNumber_eq]
  refine List.ext_getElem? fun place => ?_
  rw [List.getElem?_mapIdx, h.getElem?_steps]
  by_cases hplace : place < (c.emissions w p).length
  · simp [hplace, idxOf_range hplace]
  · simp [hplace]

theorem occupied (h : c.Makes p w order plan) {stage : String} (hstage : stage ∈ plan.stages) :
    plan.stepsInStage stage ≠ [] := by
  obtain ⟨s, hs, rfl⟩ := (h.mem_stages_iff_exists stage).mp hstage
  exact List.ne_nil_of_mem (List.mem_filter.mpr ⟨hs, beq_self_eq_true _⟩)

/-- Steps that stand in the order of their tasks stand stage by stage. -/
theorem blocks (h : c.Makes p w order plan)
    (htasks : plan.steps.map Step.stage = (Task.ofWorkflow c p w).map Task.stage) :
    plan.steps = plan.stages.flatMap plan.stepsInStage := by
  have hnames := c.valid.distinctStages w h.mem_workflows
  rw [h.stages_eq]
  refine eq_flatMap_filter (fun s => (Task.ofStage c p s).map Task.stage)
    (hnames.sublist (List.filter_sublist.map _)) ?_ ?_
  · intro s _ name hname
    obtain ⟨t, ht, rfl⟩ := List.mem_map.mp hname
    exact Task.stage_of_mem_ofStage ht
  · rw [htasks, Task.ofWorkflow, List.map_flatMap]
    -- stages without tasks add nothing
    induction w.stages with
    | nil => rfl
    | cons s rest ih =>
        rw [List.flatMap_cons, ih, List.filter_cons]
        cases htask : Task.ofStage c p s <;> simp [htask]

theorem keepsOrder (h : c.Makes p w (List.range (c.emissions w p).length) plan) :
    plan.KeepsOrder c p w := by
  have htasks := h.map_bare_byNumber
  rw [h.byNumber_eq_steps] at htasks
  refine ⟨htasks, h.numbers_iff.mpr rfl, h.nodup_stages, fun _ => h.occupied, h.blocks ?_⟩
  have hbare : plan.steps.map Step.stage = (plan.steps.map Step.bare).map Step.stage := by
    rw [List.map_map]
    rfl
  rw [hbare, htasks]
  refine List.ext_getElem? fun number => ?_
  rw [List.getElem?_map, List.getElem?_mapIdx, Option.map_map, List.getElem?_map]
  rfl

end Makes
end Catalog

/-- A workflow that lists producers first is planned in its order, and no other one is. -/
theorem plan_keepsOrder_iff (hw : c.selectWorkflow? p.context = some w) :
    (Step.InOrder (c.steps w p) ↔ Task.ProducersFirst (Task.ofWorkflow c p w)) ∧
      (Step.InOrder (c.steps w p) ↔ ∃ plan, c.plan p = .ok plan ∧ plan.KeepsOrder c p w) := by
  refine ⟨Catalog.inOrder_steps_iff, ?_, ?_⟩
  · intro h
    obtain ⟨plan, hplan, hmakes⟩ := Catalog.exists_makes_of_inOrder hw h
    exact ⟨plan, hplan, hmakes.keepsOrder⟩
  · intro ⟨plan, hplan, hkeeps⟩
    obtain ⟨other, order, hmakes⟩ := Catalog.exists_makes hplan
    obtain rfl := Option.some.inj (hw.symm.trans hmakes.selected)
    obtain rfl := hmakes.numbers_iff.mp hkeeps.numbers
    exact hmakes.inOrder

namespace Delivery

def straight : Workflow :=
  ⟨"release", [], [
    ⟨"make", [], [reference "checkout" ["MODULE_NAME == \"docs\""], reference "build" []]⟩,
    ⟨"seal", [⟨"1 == 2"⟩], [reference "sign" []]⟩,
    ⟨"check", [], [reference "test" []]⟩,
    ⟨"ship", [], [reference "deploy" []]⟩]⟩

def straightened : Catalog :=
  .ofValid { definitions with workflows := [straight] } (by decide +kernel)

/-- The tests of two modules stand between the build and the deployment. The stage that is left
out has no block. -/
theorem keepsOrder_straightened : ∃ plan,
    straightened.selectWorkflow? project.context = some straight ∧
      Step.InOrder (straightened.steps straight project) ∧
      straightened.plan project = .ok plan ∧ plan.KeepsOrder straightened project straight ∧
      (plan.stages.map fun stage => (stage, (plan.stepsInStage stage).map Step.id)) =
        [("make", ["0", "1"]), ("check", ["2", "3"]), ("ship", ["4"])] := by
  have hselected : straightened.selectWorkflow? project.context = some straight := rfl
  have hfirst : Task.ProducersFirst (Task.ofWorkflow straightened project straight) := by
    decide +kernel
  obtain ⟨hiff, hplanned⟩ := plan_keepsOrder_iff hselected
  have horder := hiff.mpr hfirst
  obtain ⟨plan, hplan, hkeeps⟩ := hplanned.mp horder
  obtain ⟨other, hother, hblocks⟩ : ∃ plan, straightened.plan project = .ok plan ∧
      (plan.stages.map fun stage => (stage, (plan.stepsInStage stage).map Step.id)) =
        [("make", ["0", "1"]), ("check", ["2", "3"]), ("ship", ["4"])] :=
    exists_ok_of_toOption (by decide +kernel)
  obtain rfl := Except.ok.inj (hplan.symm.trans hother)
  exact ⟨plan, hselected, horder, hplan, hkeeps, hblocks⟩

end Delivery

end Workplan
