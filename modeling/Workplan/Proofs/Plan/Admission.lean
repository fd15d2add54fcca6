import Workplan.Proofs.Plan.Failure
import Workplan.Proofs.Plan.Prescription
import Workplan.Proofs.Rule.Context

/-!
# Which actions for the project are planned

The gate of an action for the whole project runs each rule in one kind of context only. If there
are modules, that is as good as running every rule everywhere, so whatever matches the project is
planned. Without modules, what reads a variable of a module is not run at all.
-/

namespace Workplan

variable {c : Catalog} {p : Project} {w : Workflow} {plan : Plan} {order : List Nat}

/-- A list of rules matches the project or one of its modules, with every rule tried on each. -/
def Project.MatchedBy (p : Project) (rules : List Rule) : Prop :=
  Rule.anyMatch rules p.context = true ∨
    ∃ m ∈ p.modules, Rule.anyMatch rules (p.moduleContext m) = true

instance (p : Project) (rules : List Rule) : Decidable (p.MatchedBy rules) :=
  inferInstanceAs (Decidable (_ ∨ _))

theorem Project.admits_iff_matchedBy {rules : List Rule} (h : p.modules ≠ []) :
    Rule.Admits rules p.context (p.modules.map p.moduleContext) ↔ p.MatchedBy rules := by
  obtain ⟨first, hfirst⟩ := List.exists_mem_of_ne_nil p.modules h
  simp only [Rule.Admits, MatchedBy, Rule.anyMatch, Bool.or_eq_true, List.isEmpty_iff,
    List.any_eq_true, List.mem_map, exists_exists_and_eq_and]
  constructor
  · intro hadmits
    rcases hadmits with hempty | ⟨r, hr, -, hmatch⟩ | ⟨r, hr, -, m, hm, hmatch⟩
    · exact .inl (.inl hempty)
    · exact .inl (.inr ⟨r, hr, hmatch⟩)
    · exact .inr ⟨m, hm, .inr ⟨r, hr, hmatch⟩⟩
  · intro hmatches
    rcases hmatches with (hempty | ⟨r, hr, hmatch⟩) | ⟨m, hm, hempty | ⟨r, hr, hmatch⟩⟩
    · exact .inl hempty
    · cases huses : r.usesModuleVariables with
      | false => exact .inr (.inl ⟨r, hr, huses, hmatch⟩)
      | true =>
          -- not run on the project, but any module sees all that the project defines
          exact .inr (.inr ⟨r, hr, huses, first, hfirst, Rule.isMatch_moduleContext hmatch⟩)
    · exact .inl hempty
    · cases huses : r.usesModuleVariables with
      | false =>
          have hproject := (Rule.isMatch_moduleContext_eq huses).symm.trans hmatch
          exact .inr (.inl ⟨r, hr, huses, hproject⟩)
      | true => exact .inr (.inr ⟨r, hr, huses, m, hm, hmatch⟩)

/-- A set of rules that is split over a project and its modules decides as the plain reading. -/
theorem anyMatchAcross_iff_matchedBy (rules : List Rule) (p : Project) (h : p.modules ≠ []) :
    ((RuleSet.compile rules).anyMatchAcross p.context (p.modules.map p.moduleContext) = true ↔
      p.MatchedBy rules) ∧
    ∀ placement : Placement, placement.rules = .compile rules →
      (placement.matchesProject p.context (p.moduleContexts.map Prod.snd) = true ↔
        p.MatchedBy rules) := by
  refine ⟨RuleSet.anyMatchAcross_compile.trans (p.admits_iff_matchedBy h), ?_⟩
  intro placement hrules
  rw [p.map_snd_moduleContexts, Placement.matchesProject_iff hrules, p.admits_iff_matchedBy h]

/-- A rule that cannot be read, and one that matches the project without looking at the module
that it mentions. -/
def Delivery.gate : List Rule :=
  [⟨"("⟩, ⟨"PROJECT_DIR == \"/work\" || MODULE_NAME == \"app\""⟩]

/-- The second rule is run for the modules only, and matches all of them. -/
theorem Delivery.matchedBy_gate :
    project.modules ≠ [] ∧ project.MatchedBy gate ∧
      (RuleSet.compile gate).usesModuleVariables = true ∧
      (RuleSet.compile gate).anyMatchAcross project.context
        (project.modules.map project.moduleContext) = true ∧
      (Placement.mk "ship" (reference "build" []) (action "build" .project [] [] [])
        (.compile gate)).matchesProject project.context
          (project.moduleContexts.map Prod.snd) = true := by
  have hmodules : project.modules ≠ [] := by
    decide
  have hmatched : project.MatchedBy gate := by
    decide +kernel
  obtain ⟨hacross, hplacement⟩ := anyMatchAcross_iff_matchedBy gate project hmodules
  exact ⟨hmodules, hmatched, by decide +kernel, hacross.mpr hmatched,
    (hplacement _ rfl).mpr hmatched⟩

/-! ## Places of references -/

structure Workflow.Occurrence (w : Workflow) where
  before : List Stage
  stage : Stage
  after : List Stage
  stages : w.stages = before ++ stage :: after
  earlier : List Reference
  reference : Reference
  later : List Reference
  references : stage.actions = earlier ++ reference :: later

namespace Workflow.Occurrence

/-- The number of the tasks that stand before a reference. -/
def number (o : w.Occurrence) (c : Catalog) (p : Project) : Nat :=
  (o.before.flatMap (Task.ofStage c p)).length +
    (o.earlier.flatMap (Task.ofReference c p o.stage.name)).length

theorem getElem?_ofWorkflow {o : w.Occurrence} {t : Task}
    (hstage : Rule.anyMatch o.stage.rules p.context = true)
    (ht : Task.ofReference c p o.stage.name o.reference = [t]) :
    (Task.ofWorkflow c p w)[o.number c p]? = some t := by
  have htasks : Task.ofWorkflow c p w = o.before.flatMap (Task.ofStage c p) ++
      (o.earlier.flatMap (Task.ofReference c p o.stage.name) ++
        (t :: (o.later.flatMap (Task.ofReference c p o.stage.name) ++
          o.after.flatMap (Task.ofStage c p)))) := by
    rw [Task.ofWorkflow, o.stages, List.flatMap_append, List.flatMap_cons, Task.ofStage,
      if_pos hstage, o.references, List.flatMap_append, List.flatMap_cons, ht]
    simp
  rw [htasks, number, List.getElem?_append_right (Nat.le_add_right _ _), Nat.add_sub_cancel_left,
    List.getElem?_append_right le_rfl, Nat.sub_self]
  rfl

end Workflow.Occurrence

/-- A plan holds the step for each task, under the number of the task. -/
theorem Catalog.Makes.exists_step_of_task (h : c.Makes p w order plan) {v : Nat} {t : Task}
    (ht : (Task.ofWorkflow c p w)[v]? = some t) :
    ∃ s, plan.step? (toString v) = some s ∧ s.bare = t.step v := by
  rw [← Emission.map_task_emissions, List.getElem?_map, Option.map_eq_some_iff] at ht
  obtain ⟨e, he, rfl⟩ := ht
  refine ⟨_, h.step?_eq_some_iff.mpr ⟨h.mem_steps_iff.mpr ⟨v, e, he, rfl⟩, rfl⟩, ?_⟩
  exact Emission.bare_toStep (List.mem_of_getElem? he) v _

/-- An action for the project whose rules match the project is planned, for whatever modules. If
there are none, a rule has to match that mentions no variable of a module. -/
theorem plan_reaches (o : w.Occurrence) {a : Action}
    (hselected : c.selectWorkflow? p.context = some w)
    (hstage : Rule.anyMatch o.stage.rules p.context = true)
    (ha : c.action? o.reference.id = some a) (hscope : a.scope = .project)
    (hrules : Rule.anyMatch (o.reference.rules ++ a.rules) p.context = true)
    (hmodules : p.modules ≠ [] ∨ o.reference.rules ++ a.rules = [] ∨
      ∃ r ∈ o.reference.rules ++ a.rules,
        r.usesModuleVariables = false ∧ r.isMatch p.context = true) :
    (∃ id, c.plan p = .error (.cyclicDependency id)) ∨
      ∃ plan s, c.plan p = .ok plan ∧ plan.step? (toString (o.number c p)) = some s ∧
        s.bare = (Task.mk o.stage.name o.reference a none).step (o.number c p) := by
  have hadmits : Rule.Admits (o.reference.rules ++ a.rules) p.context
      (p.modules.map p.moduleContext) := by
    rcases hmodules with hmodules | hempty | hproject
    · exact (p.admits_iff_matchedBy hmodules).mpr (.inl hrules)
    · exact .inl hempty
    · exact .inr (.inl hproject)
  have htasks : Task.ofReference c p o.stage.name o.reference =
      [⟨o.stage.name, o.reference, a, none⟩] := by
    simp only [Task.ofReference, ha, hscope, if_pos hadmits]
  cases hplan : c.plan p with
  | error e =>
      rcases Catalog.plan_eq_error hplan with rfl | ⟨id, rfl⟩
      · rw [Catalog.plan_eq_noSuitableWorkflow, hselected] at hplan
        cases hplan
      · exact .inl ⟨id, rfl⟩
  | ok plan =>
      obtain ⟨other, order, hmakes⟩ := Catalog.exists_makes hplan
      obtain rfl : other = w := Option.some.inj (hmakes.selected.symm.trans hselected)
      obtain ⟨s, hs, hbare⟩ := hmakes.exists_step_of_task (o.getElem?_ofWorkflow hstage htasks)
      exact .inr ⟨plan, s, rfl, hs, hbare⟩

namespace Delivery

/-- An action whose rule matches every project, though it mentions a variable of a module. -/
def announce : Action :=
  action "announce" .project ["true || MODULE_NAME == \"docs\""] [] []

def announcement : Workflow :=
  ⟨"release", [], [⟨"ship", [], [reference "announce" []]⟩]⟩

def announcer : Catalog :=
  .ofValid ⟨[announce], [announcement]⟩ (by decide +kernel)

theorem announced : Rule.anyMatch announce.rules project.context = true ∧ project.modules ≠ [] ∧
    ∃ plan s, announcer.plan project = .ok plan ∧ plan.step? "0" = some s ∧
      s.stage = "ship" ∧ s.action = "ci/announce" ∧ s.module = none := by
  let o : announcement.Occurrence := ⟨[], _, [], rfl, [], _, [], rfl⟩
  have hselected : announcer.selectWorkflow? project.context = some announcement := rfl
  have haction : announcer.action? o.reference.id = some announce := rfl
  have hrules : Rule.anyMatch (o.reference.rules ++ announce.rules) project.context = true := by
    decide +kernel
  have hmodules : project.modules ≠ [] := by
    decide
  have hplanned : (announcer.plan project).toOption.isSome = true := by
    decide +kernel
  rcases plan_reaches o hselected rfl haction rfl hrules (.inl hmodules) with
    ⟨id, hcycle⟩ | ⟨plan, s, hplan, hs, hbare⟩
  · rw [hcycle] at hplanned
    cases hplanned
  · have hnumber : toString (o.number announcer project) = "0" := by
      decide +kernel
    rw [hnumber] at hs
    exact ⟨hrules, hmodules, plan, s, hplan, hs, congrArg Step.stage hbare,
      congrArg Step.action hbare, congrArg Step.module hbare⟩

/-- Without modules the action is left out, though its rule matches the project. -/
theorem not_announced :
    ¬ ∀ (c : Catalog) (p : Project) (w : Workflow) (stage : Stage) (r : Reference) (a : Action),
      c.selectWorkflow? p.context = some w → stage ∈ w.stages →
      Rule.anyMatch stage.rules p.context = true → r ∈ stage.actions →
      c.action? r.id = some a → a.scope = .project →
      Rule.anyMatch (r.rules ++ a.rules) p.context = true →
        (∃ id, c.plan p = .error (.cyclicDependency id)) ∨
          ∃ plan, c.plan p = .ok plan ∧
            ∃ s ∈ plan.steps, s.stage = stage.name ∧ s.action = a.id := by
  intro h
  let empty : Project := { project with modules := [] }
  have hrules : Rule.anyMatch ((reference "announce" []).rules ++ announce.rules) empty.context =
      true := by
    decide +kernel
  have hplan : (announcer.plan empty).toOption.map (fun plan => plan.steps.map Step.id) =
      some [] := by
    decide +kernel
  rcases h announcer empty announcement _ _ announce rfl List.mem_cons_self rfl List.mem_cons_self
    rfl rfl hrules with ⟨id, hcycle⟩ | ⟨plan, hok, s, hs, -⟩
  · rw [hcycle] at hplan
    cases hplan
  · rw [hok] at hplan
    have hnone : plan.steps = [] := by
      simpa [Except.toOption] using hplan
    rw [hnone] at hs
    cases hs

end Delivery

end Workplan
