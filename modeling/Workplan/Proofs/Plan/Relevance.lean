import Workplan.Proofs.Catalog.Validity
import Workplan.Proofs.Plan.Outline
import Mathlib.Logic.Relation

/-!
# What a catalog has to do with a plan

A plan is made from the workflows up to the first one that applies to the project, and from what
steps show of the actions that this one refers to. Catalogs that agree on these have one plan,
whatever else they hold and in whatever order.
-/

namespace Workplan

open Relation (EqvGen)

variable {c d e : Catalog} {p : Project} {ctx : Rule.Context}

/-- The action with nothing but what plans are made from. -/
def Action.planned (a : Action) : Action :=
  { a with category := "", access := .none, runner := .builtin }

@[simp] theorem Action.id_planned (a : Action) : a.planned.id = a.id := rfl

namespace Catalog

/-- The workflows that are looked at to select one: those up to the first one that applies. -/
def considered (c : Catalog) (project : Rule.Context) : List Workflow :=
  c.workflows.takeWhile (fun w => !Rule.anyMatch w.rules project) ++
    (c.selectWorkflow? project).toList

def refers (c : Catalog) (project : Rule.Context) (id : String) : Bool :=
  (c.selectWorkflow? project).any fun w => w.references.any (·.2.id == id)

/-- Two catalogs agree on the workflows up to the one that is selected, and on what plans are made
from of the actions that this one refers to. -/
structure AgreesFor (c d : Catalog) (project : Rule.Context) : Prop where
  workflows : c.considered project = d.considered project
  actions : ∀ id, c.refers project id = true →
    (c.action? id).map Action.planned = (d.action? id).map Action.planned

/-- One change of a catalog that plans do not show. -/
inductive Revision (project : Rule.Context) : Catalog → Catalog → Prop where
  | reorder {c d : Catalog} (hactions : c.actions.Perm d.actions)
      (hworkflows : c.workflows = d.workflows) : Revision project c d
  | add {c d : Catalog} (a : Action) (before after : List Action)
      (hold : c.actions = before ++ after) (hnew : d.actions = before ++ a :: after)
      (hunused : c.refers project a.id = false) (hworkflows : c.workflows = d.workflows) :
      Revision project c d
  | redescribe {c d : Catalog} (f : Action → Action)
      (hplanned : ∀ a ∈ c.actions, (f a).planned = a.planned) (hnew : d.actions = c.actions.map f)
      (hworkflows : c.workflows = d.workflows) : Revision project c d
  | changeLater {c d : Catalog} (before after later : List Workflow) (w : Workflow)
      (hold : c.workflows = before ++ w :: after) (hnew : d.workflows = before ++ w :: later)
      (hmatch : Rule.anyMatch w.rules project = true) (hactions : c.actions = d.actions) :
      Revision project c d

/-! ## Selection -/

theorem selectWorkflow?_eq_find?_considered (c : Catalog) :
    c.selectWorkflow? ctx =
      (c.considered ctx).find? fun w => Rule.anyMatch w.rules ctx := by
  unfold considered selectWorkflow?
  induction c.workflows with
  | nil => rfl
  | cons w rest ih =>
      by_cases hw : Rule.anyMatch w.rules ctx = true
      · simp [hw]
      · rw [Bool.not_eq_true] at hw
        simpa [List.find?_cons, List.takeWhile_cons, hw] using ih

theorem refers_of_mem {w : Workflow} (hw : c.selectWorkflow? ctx = some w) {s : Stage}
    (hs : s ∈ w.stages) {r : Reference} (hr : r ∈ s.actions) : c.refers ctx r.id = true := by
  have hreference : (s.name, r) ∈ w.references :=
    List.mem_flatMap.mpr ⟨s, hs, List.mem_map_of_mem hr⟩
  rw [refers, hw, Option.any_some, List.any_eq_true]
  exact ⟨_, hreference, beq_self_eq_true _⟩

theorem considered_congr (h : c.workflows = d.workflows) :
    c.considered ctx = d.considered ctx := by
  rw [considered, considered, selectWorkflow?, selectWorkflow?, h]

theorem considered_of_append {before after : List Workflow} {w : Workflow}
    (h : c.workflows = before ++ w :: after) (hmatch : Rule.anyMatch w.rules ctx = true) :
    c.considered ctx =
      before.takeWhile (fun w => !Rule.anyMatch w.rules ctx) ++
        ((before ++ [w]).find? fun w => Rule.anyMatch w.rules ctx).toList := by
  rw [considered, selectWorkflow?, h]
  clear h
  induction before with
  | nil => simp [hmatch]
  | cons v rest ih =>
      cases hv : Rule.anyMatch v.rules ctx with
      | true => simp [hv]
      | false => simpa [hv] using ih

/-! ## Agreement -/

namespace AgreesFor

theorem selectWorkflow?_eq (h : c.AgreesFor d ctx) :
    c.selectWorkflow? ctx = d.selectWorkflow? ctx := by
  rw [selectWorkflow?_eq_find?_considered, selectWorkflow?_eq_find?_considered, h.workflows]

theorem refers_eq (h : c.AgreesFor d ctx) (id : String) :
    c.refers ctx id = d.refers ctx id := by
  rw [refers, refers, h.selectWorkflow?_eq]

theorem refl (c : Catalog) : c.AgreesFor c ctx :=
  ⟨rfl, fun _ _ => rfl⟩

theorem symm (h : c.AgreesFor d ctx) : d.AgreesFor c ctx :=
  ⟨h.workflows.symm, fun id hid => (h.actions id ((h.refers_eq id).trans hid)).symm⟩

theorem trans (h : c.AgreesFor d ctx) (hd : d.AgreesFor e ctx) :
    c.AgreesFor e ctx :=
  ⟨h.workflows.trans hd.workflows, fun id hid =>
    (h.actions id hid).trans (hd.actions id ((h.refers_eq id).symm.trans hid))⟩

end AgreesFor

theorem Revision.agreesFor (h : Revision ctx c d) : c.AgreesFor d ctx := by
  cases h with
  | reorder hactions hworkflows =>
      refine ⟨considered_congr hworkflows, fun id _ => ?_⟩
      have hlookup : c.action? id = d.action? id := by
        refine Option.ext fun a => ?_
        rw [c.action?_eq_some_iff, d.action?_eq_some_iff, hactions.mem_iff]
      rw [hlookup]
  | add a before after hold hnew hunused hworkflows =>
      refine ⟨considered_congr hworkflows, fun id hid => ?_⟩
      have hne : a.id ≠ id := by
        intro heq
        rw [heq, hid] at hunused
        cases hunused
      have hlookup : c.action? id = d.action? id := by
        rw [action?_eq_find?, action?_eq_find?, hold, hnew, List.find?_append, List.find?_append,
          List.find?_cons_of_neg (by simpa using hne)]
      rw [hlookup]
  | redescribe f hplanned hnew hworkflows =>
      refine ⟨considered_congr hworkflows, fun id _ => ?_⟩
      have hids : ∀ a ∈ c.actions, (f a).id = a.id := by
        intro a ha
        rw [← Action.id_planned, hplanned a ha, Action.id_planned]
      have hlookup : d.action? id = (c.action? id).map f := by
        rw [action?_eq_find?, action?_eq_find?, hnew, List.find?_map]
        congr 1
        rw [← List.head?_filter, ← List.head?_filter]
        congr 1
        refine List.filter_congr fun a ha => ?_
        rw [Function.comp_apply, hids a ha]
      rw [hlookup, Option.map_map]
      refine Option.map_congr fun a ha => ?_
      exact (hplanned a (c.action?_eq_some_iff.mp ha).1).symm
  | changeLater before after later w hold hnew hmatch hactions =>
      refine ⟨?_, fun id _ => ?_⟩
      · rw [considered_of_append hold hmatch, considered_of_append hnew hmatch]
      · rw [action?_eq_find?, action?_eq_find?, hactions]

theorem agreesFor_of_eqvGen (h : EqvGen (Revision ctx) c d) : c.AgreesFor d ctx := by
  induction h with
  | rel c d h => exact h.agreesFor
  | refl c => exact .refl c
  | symm c d _ ih => exact ih.symm
  | trans c d e _ _ ih ihd => exact ih.trans ihd

/-! ## Plans -/

/-- What a task contributes to a plan it takes from the planned part of its action. -/
theorem map_draft_ofReference {stage : String} {r : Reference}
    (h : (c.action? r.id).map Action.planned = (d.action? r.id).map Action.planned) :
    (Task.ofReference c p stage r).map Task.draft =
      (Task.ofReference d p stage r).map Task.draft := by
  cases ha : c.action? r.id with
  | none =>
      have hb : d.action? r.id = none := by simpa [ha] using h.symm
      simp [Task.ofReference, ha, hb]
  | some a =>
      cases hb : d.action? r.id with
      | none => simp [ha, hb] at h
      | some b =>
          have hplanned : a.planned = b.planned := by simpa [ha, hb] using h
          simp only [Action.planned, Action.mk.injEq] at hplanned
          obtain ⟨hid, hname, -, hscope, hrules, hinputs, houtputs, -⟩ := hplanned
          have hdraft : ∀ m, (Task.mk stage r a m).draft = (Task.mk stage r b m).draft := by
            intro m
            simp only [Task.draft, Task.step, hid, hname, hscope, hinputs, houtputs]
          simp only [Task.ofReference, ha, hb, hscope, hrules]
          cases b.scope with
          | project => simp [apply_ite (List.map Task.draft), hdraft]
          | module => simp [hdraft, Function.comp_def]

theorem AgreesFor.outline_eq (h : c.AgreesFor d p.context) {w : Workflow}
    (hw : c.selectWorkflow? p.context = some w) : c.outline w p = d.outline w p := by
  rw [outline, outline, Task.ofWorkflow, Task.ofWorkflow, List.map_flatMap, List.map_flatMap]
  congr 1
  refine List.flatMap_congr fun s hs => ?_
  rw [Task.ofStage, Task.ofStage]
  split
  · rw [List.map_flatMap, List.map_flatMap]
    refine List.flatMap_congr fun r hr => map_draft_ofReference (h.actions _ ?_)
    exact refers_of_mem hw hs hr
  · rfl

theorem AgreesFor.plan_eq (h : c.AgreesFor d p.context) : c.plan p = d.plan p := by
  have houtline : c.outline? p = d.outline? p := by
    rw [outline?, outline?, ← h.selectWorkflow?_eq]
    exact Option.map_congr fun w hw => h.outline_eq hw
  rw [plan_eq_outline, plan_eq_outline, houtline]

end Catalog

/-- Catalogs that agree on what the selected workflow uses have one plan, and so have catalogs of
which one comes from the other by changes of anything else. -/
theorem plan_eq_of_agreesFor (c d : Catalog) (p : Project) :
    (c.AgreesFor d p.context → c.plan p = d.plan p) ∧
      (EqvGen (Catalog.Revision p.context) c d → c.plan p = d.plan p) :=
  ⟨fun h => h.plan_eq, fun h => (Catalog.agreesFor_of_eqvGen h).plan_eq⟩

namespace Delivery

def reversed : Catalog :=
  .ofValid ⟨definitions.actions.reverse, definitions.workflows⟩ (by decide +kernel)

/-- With one more action, which gives what others take but is not referred to. -/
def extended : Catalog :=
  .ofValid ⟨action "paint" .project [] [] ["image"] :: reversed.actions, definitions.workflows⟩
    (by decide +kernel)

def contained : Catalog :=
  .ofValid ⟨extended.actions.map fun a =>
    { a with category := "ci", runner := .container "alpine" none }, definitions.workflows⟩
    (by decide +kernel)

def revised : Catalog :=
  .ofValid ⟨contained.actions, definitions.workflows ++ [⟨"weekly", [], []⟩]⟩ (by decide +kernel)

theorem eqvGen_contained : EqvGen (Catalog.Revision project.context) catalog contained := by
  have hreversed : Catalog.Revision project.context catalog reversed :=
    .reorder (List.reverse_perm _).symm rfl
  have hextended : Catalog.Revision project.context reversed extended :=
    .add (action "paint" .project [] [] ["image"]) [] reversed.actions rfl rfl
      (by decide +kernel) rfl
  have hcontained : Catalog.Revision project.context extended contained :=
    .redescribe (fun a => { a with category := "ci", runner := .container "alpine" none })
      (fun _ _ => rfl) rfl rfl
  exact .trans _ _ _ (.rel _ _ hreversed) (.trans _ _ _ (.rel _ _ hextended) (.rel _ _ hcontained))

/-- No change is seen in the plan. -/
theorem plan_revised : ∃ plan, catalog.plan project = .ok plan ∧
    EqvGen (Catalog.Revision project.context) catalog contained ∧
    contained.plan project = .ok plan ∧
    contained.AgreesFor revised project.context ∧ revised.plan project = .ok plan := by
  obtain ⟨plan, hplan, -⟩ := exists_plan
  have hcontained : contained.plan project = .ok plan :=
    ((plan_eq_of_agreesFor _ _ _).2 eqvGen_contained).symm.trans hplan
  have hrevision : Catalog.Revision project.context contained revised :=
    .changeLater [definitions.workflows[0]] [] [⟨"weekly", [], []⟩] definitions.workflows[1] rfl rfl
      (by decide +kernel) rfl
  have hagrees := hrevision.agreesFor
  refine ⟨plan, hplan, eqvGen_contained, hcontained, hagrees, ?_⟩
  exact ((plan_eq_of_agreesFor _ _ _).1 hagrees).symm.trans hcontained

end Delivery

end Workplan
