import Workplan.Proofs.Plan.Failure
import Workplan.Proofs.Plan.Prescription
import Mathlib.Data.List.NodupEquivFin

/-!
# Cycles of steps and cycles of actions

Who waits for whom among steps is read off their actions. Along a cycle of steps each action takes
what the one before it gives. So if different actions are on no cycle, all steps of a cycle are
runs of one action, which takes what it gives itself. A step never waits for itself, but two steps
of such an action wait for each other. Planning fails for a cycle then exactly if the workflow has
such an action carried out twice.
-/

namespace Workplan

open Relation (ReflTransGen TransGen)

variable {c : Catalog} {p : Project} {w : Workflow} {a b : Action} {u v : Nat}

/-- An action for the whole project that takes an artifact which it gives itself. -/
structure Action.FeedsItself (a : Action) : Prop where
  scope : a.scope = .project
  artifact : ∃ artifact ∈ a.outputs, artifact ∈ a.inputs

/-- Two different actions for the whole project, the first of which takes an artifact that the
second one gives. -/
structure Catalog.TakesFrom (c : Catalog) (a b : Action) : Prop where
  consumer : a ∈ c.actions ∧ a.scope = .project
  producer : b ∈ c.actions ∧ b.scope = .project
  different : a.id ≠ b.id
  artifact : ∃ artifact ∈ b.outputs, artifact ∈ a.inputs

namespace Catalog

/-- A rank of actions that falls along what they take excludes cycles. -/
theorem acyclic_of_rank (rank : Action → Nat) (h : ∀ a b, c.TakesFrom a b → rank b < rank a) :
    ¬ TransGen c.TakesFrom a a := by
  have hfalls : ∀ b, TransGen c.TakesFrom a b → rank b < rank a := by
    intro b hab
    induction hab with
    | single hab => exact h _ _ hab
    | tail _ hbc ih => exact (h _ _ hbc).trans ih
  intro hcycle
  exact Nat.lt_irrefl _ (hfalls a hcycle)

end Catalog

/-! ## Along a way of steps -/

namespace Emission

variable {e f : Emission}

theorem mem_actions (h : e ∈ c.emissions w p) : e.placement.action ∈ c.actions :=
  (c.action?_eq_some_iff.mp (action?_of_mem h)).1

theorem takesFrom_or_eq (he : e ∈ c.emissions w p) (hf : f ∈ c.emissions w p)
    (hscope : e.placement.action.scope = .project) (hfeeds : f.feeds e = true) :
    c.TakesFrom e.placement.action f.placement.action ∨
      e.placement.action = f.placement.action ∧ e.placement.action.FeedsItself := by
  obtain ⟨hproducer, hartifact⟩ := feeds_iff.mp hfeeds
  by_cases hid : e.placement.action.id = f.placement.action.id
  · have hsame : e.placement.action = f.placement.action :=
      Option.some.inj ((action?_of_mem he).symm.trans (hid ▸ action?_of_mem hf))
    exact .inr ⟨hsame, hscope, by rwa [← hsame] at hartifact⟩
  · exact .inl ⟨⟨mem_actions he, hscope⟩, ⟨mem_actions hf, hproducer⟩, hid, hartifact⟩

/-- Back along a way to something for the project, actions take from actions. -/
theorem exists_takesFrom (h : ReflTransGen (Precedes (c.emissions w p)) u v)
    (he : (c.emissions w p)[v]? = some e) (hscope : e.placement.action.scope = .project) :
    ∃ f, (c.emissions w p)[u]? = some f ∧ f.placement.action.scope = .project ∧
      ReflTransGen c.TakesFrom e.placement.action f.placement.action := by
  induction h using ReflTransGen.head_induction_on with
  | refl => exact ⟨e, he, hscope, .refl⟩
  | head hux _ ih =>
      obtain ⟨g, hg, hgscope, hway⟩ := ih
      obtain ⟨-, f, x, hf, hx, hfeeds⟩ := hux
      obtain rfl := Option.some.inj (hx.symm.trans hg)
      refine ⟨f, hf, (feeds_iff.mp hfeeds).1, ?_⟩
      -- a step of one's own action adds nothing to the way of actions
      rcases takesFrom_or_eq (List.mem_of_getElem? hg) (List.mem_of_getElem? hf) hgscope hfeeds with
        htakes | ⟨hsame, -⟩
      · exact hway.tail htakes
      · exact hsame ▸ hway

/-- A cycle of emissions leads through a cycle of actions, or begins with two emissions of one
action that feeds itself. -/
theorem exists_selfFeeding_of_cycle (h : ∀ a, ¬ TransGen c.TakesFrom a a)
    (hcycle : TransGen (Precedes (c.emissions w p)) v v) :
    ∃ u e f, u ≠ v ∧ (c.emissions w p)[u]? = some e ∧ (c.emissions w p)[v]? = some f ∧
      e.placement.action = f.placement.action ∧ e.placement.action.FeedsItself := by
  obtain ⟨u, hvu, huv⟩ := TransGen.head'_iff.mp hcycle
  obtain ⟨hne, f, e, hf, he, hfeeds⟩ := hvu
  have hproducer := (feeds_iff.mp hfeeds).1
  obtain ⟨x, hx, hscope, hway⟩ := exists_takesFrom huv hf hproducer
  obtain rfl := Option.some.inj (hx.symm.trans he)
  rcases takesFrom_or_eq (List.mem_of_getElem? he) (List.mem_of_getElem? hf) hscope hfeeds with
    htakes | ⟨hsame, hself⟩
  · exact absurd (TransGen.tail' hway htakes) (h _)
  · exact ⟨u, x, f, hne.symm, he, hf, hsame, hself⟩

theorem cycle_of_selfFeeding {emissions : List Emission} (hne : u ≠ v)
    (he : emissions[u]? = some e) (hf : emissions[v]? = some f)
    (hsame : e.placement.action = f.placement.action) (hself : e.placement.action.FeedsItself) :
    TransGen (Precedes emissions) v v := by
  have hfeeds : e.feeds f = true := feeds_iff.mpr ⟨hself.scope, hsame ▸ hself.artifact⟩
  have hback : f.feeds e = true := feeds_iff.mpr ⟨hsame ▸ hself.scope, hsame ▸ hself.artifact⟩
  exact .head ⟨hne.symm, f, e, hf, he, hback⟩ (.single ⟨hne, e, f, he, hf, hfeeds⟩)

end Emission

/-! ## Tasks of one action -/

theorem duplicate_iff_getElem? {α : Type} {items : List α} {a : α} :
    items.Duplicate a ↔
      ∃ (u v : Nat), u ≠ v ∧ items[u]? = some a ∧ items[v]? = some a := by
  rw [List.duplicate_iff_exists_distinct_get]
  constructor
  · intro ⟨u, v, hlt, hu, hv⟩
    exact ⟨u, v, Nat.ne_of_lt hlt, by simp [hu], by simp [hv]⟩
  · intro ⟨u, v, hne, hu, hv⟩
    obtain ⟨hul, hu⟩ := List.getElem?_eq_some_iff.mp hu
    obtain ⟨hvl, hv⟩ := List.getElem?_eq_some_iff.mp hv
    rcases Nat.lt_or_gt_of_ne hne with hlt | hlt
    · exact ⟨⟨u, hul⟩, ⟨v, hvl⟩, hlt, hu.symm, hv.symm⟩
    · exact ⟨⟨v, hvl⟩, ⟨u, hul⟩, hlt, hv.symm, hu.symm⟩

theorem map_action_tasks :
    (Task.ofWorkflow c p w).map Task.action = (c.emissions w p).map (·.placement.action) := by
  rw [← Emission.map_task_emissions, List.map_map]
  rfl

theorem exists_cycle_iff_duplicate (h : ∀ a, ¬ TransGen c.TakesFrom a a) :
    (∃ v, TransGen (Emission.Precedes (c.emissions w p)) v v) ↔
      ∃ a : Action, a.FeedsItself ∧ ((Task.ofWorkflow c p w).map Task.action).Duplicate a := by
  simp only [map_action_tasks, duplicate_iff_getElem?, List.getElem?_map, Option.map_eq_some_iff]
  constructor
  · intro ⟨v, hv⟩
    obtain ⟨u, e, f, hne, he, hf, hsame, hself⟩ := Emission.exists_selfFeeding_of_cycle h hv
    exact ⟨_, hself, u, v, hne, ⟨e, he, rfl⟩, f, hf, hsame.symm⟩
  · intro ⟨a, hself, u, v, hne, ⟨e, he, hea⟩, f, hf, hfa⟩
    exact ⟨v, Emission.cycle_of_selfFeeding hne he hf (hea.trans hfa.symm) (hea ▸ hself)⟩

/-- Where different actions are on no cycle, planning fails for a cycle exactly if an action that
feeds itself is to be carried out twice. Even then no step waits for itself. -/
theorem plan_cyclic_iff_duplicate (h : ∀ a, ¬ TransGen c.TakesFrom a a) :
    ((∃ id, c.plan p = .error (.cyclicDependency id)) ↔
      ∃ w, c.selectWorkflow? p.context = some w ∧
        ∃ a : Action, a.FeedsItself ∧ ((Task.ofWorkflow c p w).map Task.action).Duplicate a) ∧
    ∀ w, ∀ s ∈ c.steps w p, s.dependsOn s.id = false := by
  constructor
  · cases hw : c.selectWorkflow? p.context with
    | none =>
        have hplan := Catalog.plan_eq_noSuitableWorkflow.mpr hw
        simp [hplan]
    | some w =>
        rw [Catalog.exists_cyclic_iff hw, exists_cycle_iff_duplicate h]
        simp
  · intro w s hs
    obtain ⟨v, e, -, rfl⟩ := Catalog.mem_steps_iff.mp hs
    rw [Bool.eq_false_iff]
    intro hself
    exact (Emission.dependsOn_toStep_iff.mp hself).1 rfl

namespace Delivery

def cache : Action :=
  action "cache" .project [] ["cache"] ["cache"]

/-- A workflow that reads the cache before it builds and, for tags, writes it at the end. -/
def caching : Workflow :=
  ⟨"caching", [], [
    ⟨"restore", [], [reference "cache" []]⟩,
    ⟨"work", [], [reference "build" []]⟩,
    ⟨"save", [⟨"NCI_COMMIT_REF_TYPE == \"tag\""⟩], [reference "cache" []]⟩]⟩

def cacher : Catalog :=
  .ofValid ⟨[cache, action "build" .project [] ["cache"] ["image"]], [caching]⟩ (by decide +kernel)

def tagged : Project :=
  { project with env := .ofList [("NCI_COMMIT_REF_TYPE", "tag")] }

/-- The catalog lists each action after those that it takes from. -/
theorem acyclic_cacher (a : Action) : ¬ TransGen cacher.TakesFrom a a := by
  have hlisted : ∀ a ∈ cacher.actions, ∀ b ∈ cacher.actions, a.id ≠ b.id →
      (∃ artifact ∈ b.outputs, artifact ∈ a.inputs) →
        cacher.actions.idxOf b < cacher.actions.idxOf a := by
    decide +kernel
  apply Catalog.acyclic_of_rank cacher.actions.idxOf
  intro a b h
  exact hlisted a h.consumer.1 b h.producer.1 h.different h.artifact

/-- One run of the action is planned, though it takes what it gives. Two runs are not. -/
theorem plan_cacher :
    (∀ a, ¬ TransGen cacher.TakesFrom a a) ∧
      (∀ id, cacher.plan project ≠ .error (.cyclicDependency id)) ∧
      ∃ id, cacher.plan tagged = .error (.cyclicDependency id) := by
  obtain ⟨honce, -⟩ := plan_cyclic_iff_duplicate (p := project) acyclic_cacher
  obtain ⟨htwice, -⟩ := plan_cyclic_iff_duplicate (p := tagged) acyclic_cacher
  refine ⟨acyclic_cacher, ?_, ?_⟩
  · intro id h
    obtain ⟨w, hw, a, -, hduplicate⟩ := honce.mp ⟨id, h⟩
    obtain rfl : caching = w := Option.some.inj hw
    have hnodup : ((Task.ofWorkflow cacher project caching).map Task.action).Nodup := by
      decide +kernel
    exact hduplicate.not_nodup hnodup
  · have hself : cache.FeedsItself :=
      ⟨rfl, _, List.mem_singleton_self _, List.mem_singleton_self _⟩
    have hduplicate :
        ((Task.ofWorkflow cacher tagged caching).map Task.action).Duplicate cache := by
      decide +kernel
    exact htwice.mpr ⟨caching, rfl, cache, hself, hduplicate⟩

/-- Different actions are on no cycle, and yet planning fails for one. -/
theorem not_only_different_actions :
    ¬ ∀ (c : Catalog) (p : Project), (∀ a, ¬ TransGen c.TakesFrom a a) →
      ∀ id, c.plan p ≠ .error (.cyclicDependency id) := by
  intro h
  have hfails : (cacher.plan tagged).toOption.isSome = false := by
    decide +kernel
  have hselected : cacher.selectWorkflow? tagged.context = some caching := rfl
  rcases Catalog.plan_of_selected hselected with ⟨id, hcycle⟩ | ⟨plan, hplan⟩
  · exact h cacher tagged acyclic_cacher id hcycle
  · rw [hplan] at hfails
    cases hfails

end Delivery

end Workplan
