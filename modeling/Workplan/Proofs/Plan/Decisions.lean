import Workplan.Proofs.Catalog.MapRules
import Workplan.Proofs.Plan.Outline

/-!
# Plans and the decisions of rules

A rule has a part in a plan by what it decides for the project and for each module, and by
whether it reads a variable of a module. Where exchanged rules decide for one project what the
rules decide for another, and the modules have the same ids and slugs, the plans are the same.
-/

namespace Workplan

variable {c : Catalog} {f : Rule → Rule} {p q : Project} {w : Workflow}

/-! ## The rules of a plan -/

namespace Catalog

/-- The rules that planning compiles: those of workflows, of which the first that matches is
selected, those of the stages of the selected workflow, and those of what its stages place. -/
inductive Compiles (c : Catalog) (p : Project) : Rule → Prop where
  | workflow {w : Workflow} {r : Rule} : w ∈ c.workflows → r ∈ w.rules → Compiles c p r
  | stage {w : Workflow} {s : Stage} {r : Rule} : c.selectWorkflow? p.context = some w →
      s ∈ w.stages → r ∈ s.rules → Compiles c p r
  | placement {w : Workflow} {placement : Placement} {r : Rule} :
      c.selectWorkflow? p.context = some w → placement ∈ Placement.ofWorkflow c w p.context →
        r ∈ placement.reference.rules ++ placement.action.rules → Compiles c p r

theorem mem_workflows_of_selected (h : c.selectWorkflow? p.context = some w) : w ∈ c.workflows :=
  List.mem_of_find?_eq_some h

/-- Planning compiles rules of the catalog only. -/
theorem Compiles.mem_rules {r : Rule} (h : c.Compiles p r) : r ∈ c.rules := by
  rw [Catalog.mem_rules]
  cases h with
  | workflow hw hr => exact .inr ⟨_, hw, .inl hr⟩
  | stage hselected hs hr =>
      exact .inr ⟨_, mem_workflows_of_selected hselected, .inr ⟨_, hs, .inl hr⟩⟩
  | placement hselected hplacement hr =>
      obtain ⟨s, hs, -, reference, hreference, a, ha, rfl⟩ :=
        Placement.mem_ofWorkflow_iff.mp hplacement
      rcases List.mem_append.mp hr with hr | hr
      · exact .inr ⟨_, mem_workflows_of_selected hselected,
          .inr ⟨s, hs, .inr ⟨reference, hreference, hr⟩⟩⟩
      · exact .inl ⟨a, (c.action?_eq_some_iff.mp ha).1, hr⟩

/-- The modules of two projects correspond, and the rules of a catalog decide for the first
project what the exchanged ones decide for the second. -/
structure DecidesAlike (c : Catalog) (f : Rule → Rule) (p q : Project) : Prop where
  uses : ∀ r ∈ c.rules, r.usesModuleVariables = (f r).usesModuleVariables
  project : ∀ r ∈ c.rules, r.isMatch p.context = (f r).isMatch q.context
  modules : List.Forall₂ (fun m n => m.id = n.id ∧ m.slug = n.slug ∧
    ∀ r ∈ c.rules, r.isMatch (p.moduleContext m) = (f r).isMatch (q.moduleContext n))
      p.modules q.modules

/-- The same of the rules that planning compiles for the first project. -/
structure PlansAlike (c : Catalog) (f : Rule → Rule) (p q : Project) : Prop where
  uses : ∀ r, c.Compiles p r → r.usesModuleVariables = (f r).usesModuleVariables
  project : ∀ r, c.Compiles p r → r.isMatch p.context = (f r).isMatch q.context
  modules : List.Forall₂ (fun m n => m.id = n.id ∧ m.slug = n.slug ∧
    ∀ r, c.Compiles p r → r.isMatch (p.moduleContext m) = (f r).isMatch (q.moduleContext n))
      p.modules q.modules

theorem DecidesAlike.plansAlike (h : c.DecidesAlike f p q) : c.PlansAlike f p q where
  uses r hr := h.uses r hr.mem_rules
  project r hr := h.project r hr.mem_rules
  modules := h.modules.imp fun _ _ hmn => ⟨hmn.1, hmn.2.1, fun r hr => hmn.2.2 r hr.mem_rules⟩

end Catalog

/-! ## Decisions -/

theorem Rule.anyMatch_map {rules : List Rule} {ctx other : Context}
    (h : ∀ r ∈ rules, r.isMatch ctx = (f r).isMatch other) :
    anyMatch rules ctx = anyMatch (rules.map f) other := by
  have hany : rules.any (·.isMatch ctx) = (rules.map f).any (·.isMatch other) := by
    rw [List.any_map, Bool.eq_iff_iff, List.any_eq_true, List.any_eq_true]
    refine exists_congr fun r => and_congr_right fun hr => ?_
    rw [h r hr, Function.comp_apply]
  rw [anyMatch, anyMatch, hany, List.isEmpty_map]

/-- What is picked from corresponding lists corresponds. -/
theorem map_filter_of_forall₂ {α β γ : Type} {as : List α} {bs : List β} {pick : α → Bool}
    {choose : β → Bool} {g : α → γ} {k : β → γ}
    (h : List.Forall₂ (fun a b => pick a = choose b ∧ g a = k b) as bs) :
    (as.filter pick).map g = (bs.filter choose).map k := by
  induction h with
  | nil => rfl
  | @cons a b _ _ hhead _ ih =>
      rw [List.filter_cons, List.filter_cons, hhead.1]
      split
      · rw [List.map_cons, List.map_cons, hhead.2, ih]
      · exact ih

namespace Catalog.PlansAlike

variable (h : c.PlansAlike f p q) {rules : List Rule}

include h

theorem anyMatch_project (hrules : ∀ r ∈ rules, c.Compiles p r) :
    Rule.anyMatch rules p.context = Rule.anyMatch (rules.map f) q.context :=
  Rule.anyMatch_map fun r hr => h.project r (hrules r hr)

theorem exists_module_iff {r : Rule} (hr : c.Compiles p r) :
    (∃ m ∈ p.modules, r.isMatch (p.moduleContext m) = true) ↔
      ∃ n ∈ q.modules, (f r).isMatch (q.moduleContext n) = true := by
  have hdecisions : p.modules.map (fun m => r.isMatch (p.moduleContext m)) =
      q.modules.map fun n => (f r).isMatch (q.moduleContext n) := by
    rw [← List.forall₂_eq_eq_eq, List.forall₂_map_left_iff, List.forall₂_map_right_iff]
    exact h.modules.imp fun m n hmn => hmn.2.2 r hr
  rw [← List.mem_map, ← List.mem_map, hdecisions]

theorem admits_iff (hrules : ∀ r ∈ rules, c.Compiles p r) :
    Rule.Admits rules p.context (p.modules.map p.moduleContext) ↔
      Rule.Admits (rules.map f) q.context (q.modules.map q.moduleContext) := by
  simp only [Rule.Admits, List.map_eq_nil_iff, List.mem_map, exists_exists_and_eq_and]
  refine or_congr_right (or_congr ?_ ?_)
  · refine exists_congr fun r => and_congr_right fun hr => ?_
    rw [h.uses r (hrules r hr), h.project r (hrules r hr)]
  · refine exists_congr fun r => and_congr_right fun hr => ?_
    rw [h.uses r (hrules r hr), h.exists_module_iff (hrules r hr)]

/-! ## Tasks -/

/-- A reference of a stage that applies prescribes tasks with the same drafts. -/
theorem map_draft_ofReference (hselected : c.selectWorkflow? p.context = some w) {s : Stage}
    (hs : s ∈ w.stages) (happlies : Rule.anyMatch s.rules p.context = true) {r : Reference}
    (hr : r ∈ s.actions) :
    (Task.ofReference c p s.name r).map Task.draft =
      (Task.ofReference (c.mapRules f) q s.name (r.mapRules f)).map Task.draft := by
  have hresolve : (c.mapRules f).action? (r.mapRules f).id = (c.action? r.id).map (·.mapRules f) :=
    action?_mapRules r.id
  cases ha : c.action? r.id with
  | none => simp [Task.ofReference, hresolve, ha]
  | some a =>
      have hplaced := Placement.mem_ofWorkflow_iff.mpr ⟨s, hs, happlies, r, hr, a, ha, rfl⟩
      have hall : ∀ rule ∈ r.rules ++ a.rules, c.Compiles p rule :=
        fun rule hrule => .placement hselected hplaced hrule
      have hmap : (r.mapRules f).rules ++ (a.mapRules f).rules = (r.rules ++ a.rules).map f :=
        List.map_append.symm
      have hscope : (a.mapRules f).scope = a.scope := rfl
      simp only [Task.ofReference, hresolve, ha, Option.map_some, hmap, hscope]
      cases a.scope with
      | project =>
          simp only [h.admits_iff hall]
          split <;> rfl
      | module =>
          simp only [List.map_map]
          refine map_filter_of_forall₂ (h.modules.imp fun m n hmn => ⟨?_, ?_⟩)
          · exact Rule.anyMatch_map fun rule hrule => hmn.2.2 rule (hall rule hrule)
          · simp [Task.draft, Task.step, Action.mapRules, Reference.mapRules, hmn.1, hmn.2.1]

theorem map_draft_ofStage (hselected : c.selectWorkflow? p.context = some w) {s : Stage}
    (hs : s ∈ w.stages) :
    (Task.ofStage c p s).map Task.draft =
      (Task.ofStage (c.mapRules f) q (s.mapRules f)).map Task.draft := by
  have hsame : Rule.anyMatch s.rules p.context = Rule.anyMatch (s.mapRules f).rules q.context :=
    h.anyMatch_project fun rule hrule => .stage hselected hs hrule
  rw [Task.ofStage, Task.ofStage, ← hsame]
  split
  · next happlies =>
    rw [List.map_flatMap, List.map_flatMap, Stage.mapRules, List.flatMap_map]
    exact List.flatMap_congr fun r hr => h.map_draft_ofReference hselected hs happlies hr
  · rfl

theorem outline_eq (hselected : c.selectWorkflow? p.context = some w) :
    c.outline w p = (c.mapRules f).outline (w.mapRules f) q := by
  have hdrafts : (Task.ofWorkflow c p w).map Task.draft =
      (Task.ofWorkflow (c.mapRules f) q (w.mapRules f)).map Task.draft := by
    rw [Task.ofWorkflow, Task.ofWorkflow, List.map_flatMap, List.map_flatMap, Workflow.mapRules,
      List.flatMap_map]
    exact List.flatMap_congr fun s hs => h.map_draft_ofStage hselected hs
  rw [outline, outline, hdrafts]
  rfl

theorem selectWorkflow?_eq :
    (c.mapRules f).selectWorkflow? q.context =
      (c.selectWorkflow? p.context).map (·.mapRules f) := by
  have hfind : c.workflows.find? (fun w => Rule.anyMatch w.rules p.context) =
      c.workflows.find? fun w => Rule.anyMatch (w.mapRules f).rules q.context := by
    rw [← List.head?_filter, ← List.head?_filter]
    congr 1
    exact List.filter_congr fun w hw => h.anyMatch_project fun rule hrule => .workflow hw hrule
  show _ = (c.workflows.find? fun w => Rule.anyMatch w.rules p.context).map _
  rw [hfind]
  exact List.find?_map

/-- Equal decisions give equal plans. -/
theorem plan_eq : c.plan p = (c.mapRules f).plan q := by
  have houtline : c.outline? p = (c.mapRules f).outline? q := by
    rw [outline?, outline?, h.selectWorkflow?_eq, Option.map_map]
    exact Option.map_congr fun w hw => h.outline_eq hw
  rw [plan_eq_outline, plan_eq_outline, houtline]

end Catalog.PlansAlike

namespace Catalog

theorem DecidesAlike.plan_eq (h : c.DecidesAlike f p q) : c.plan p = (c.mapRules f).plan q :=
  h.plansAlike.plan_eq

/-- Planning depends on no other rules than it compiles, whatever these are exchanged for. -/
theorem plan_mapRules_of_compiles (h : ∀ r, c.Compiles p r → f r = r) :
    (c.mapRules f).plan p = c.plan p := by
  have halike : c.PlansAlike f p p :=
    ⟨fun r hr => by rw [h r hr], fun r hr => by rw [h r hr],
      List.forall₂_same.mpr fun m _ => ⟨rfl, rfl, fun r hr => by rw [h r hr]⟩⟩
  exact halike.plan_eq.symm

end Catalog
end Workplan
