import Workplan.Catalog.Diagnostic
import Workplan.Proofs.Rule.Reads

/-!
# Changing the rules of a catalog

The rules of a catalog stand with workflows, stages, references and actions. Checking looks at
none of them, so a catalog in which each rule is exchanged for another is a catalog again, with the
same ids and names.
-/

namespace Workplan

variable {f : Rule → Rule} {c : Catalog}

def Action.mapRules (f : Rule → Rule) (a : Action) : Action :=
  { a with rules := a.rules.map f }

def Reference.mapRules (f : Rule → Rule) (r : Reference) : Reference :=
  { r with rules := r.rules.map f }

def Stage.mapRules (f : Rule → Rule) (s : Stage) : Stage :=
  { s with rules := s.rules.map f, actions := s.actions.map (·.mapRules f) }

def Workflow.mapRules (f : Rule → Rule) (w : Workflow) : Workflow :=
  { w with rules := w.rules.map f, stages := w.stages.map (·.mapRules f) }

namespace Definitions

def mapRules (f : Rule → Rule) (d : Definitions) : Definitions where
  actions := d.actions.map (·.mapRules f)
  workflows := d.workflows.map (·.mapRules f)

/-! ## Checking -/

theorem indexActions_mapRules (f : Rule → Rule) (index : Dictionary Nat) (position : Nat)
    (actions : List Action) :
    indexActions index position (actions.map (·.mapRules f)) =
      indexActions index position actions := by
  induction actions generalizing index position with
  | nil => rfl
  | cons a rest ih =>
      have hcheck : (a.mapRules f).check = a.check := rfl
      have hid : (a.mapRules f).id = a.id := rfl
      rw [List.map_cons, indexActions, indexActions, hcheck, hid, ih]

theorem checkStages_mapRules (f : Rule → Rule) (workflow : String) (seen : List String)
    (stages : List Stage) :
    Workflow.checkStages workflow seen (stages.map (·.mapRules f)) =
      Workflow.checkStages workflow seen stages := by
  induction stages generalizing seen with
  | nil => rfl
  | cons s rest ih =>
      have hcheck : (s.mapRules f).check = s.check := rfl
      have hname : (s.mapRules f).name = s.name := rfl
      rw [List.map_cons, Workflow.checkStages, Workflow.checkStages, hcheck, hname, ih]

theorem checkReferences_mapRules (f : Rule → Rule) (index : Dictionary Nat) (workflow : String)
    (references : List (String × Reference)) :
    checkReferences index workflow (references.map fun x => (x.1, x.2.mapRules f)) =
      checkReferences index workflow references := by
  induction references with
  | nil => rfl
  | cons x rest ih =>
      have hid : (x.2.mapRules f).id = x.2.id := rfl
      rw [List.map_cons, checkReferences, checkReferences, hid, ih]

theorem references_mapRules (w : Workflow) :
    (w.mapRules f).references = w.references.map fun x => (x.1, x.2.mapRules f) := by
  simp [Workflow.references, Workflow.mapRules, Stage.mapRules, List.flatMap_map, List.map_flatMap,
    Function.comp_def]

theorem checkWorkflows_mapRules (f : Rule → Rule) (index : Dictionary Nat) (seen : List String)
    (workflows : List Workflow) :
    checkWorkflows index seen (workflows.map (·.mapRules f)) =
      checkWorkflows index seen workflows := by
  induction workflows generalizing seen with
  | nil => rfl
  | cons w rest ih =>
      have hname : (w.mapRules f).name = w.name := rfl
      have hcheck : (w.mapRules f).check = w.check := by
        simp only [Workflow.check, Workflow.mapRules, checkStages_mapRules]
      rw [List.map_cons, checkWorkflows, checkWorkflows, hcheck, hname, references_mapRules,
        checkReferences_mapRules, ih]

theorem check_mapRules (f : Rule → Rule) (d : Definitions) : (d.mapRules f).check = d.check := by
  simp only [check, mapRules, indexActions_mapRules, checkWorkflows_mapRules]

end Definitions

namespace Catalog

/-- The catalog with every rule exchanged, wherever it stands. -/
def mapRules (f : Rule → Rule) (c : Catalog) : Catalog :=
  ⟨c.definitions.mapRules f, c.index, (c.definitions.check_mapRules f).trans c.checked⟩

theorem action?_mapRules (id : String) :
    (c.mapRules f).action? id = (c.action? id).map (·.mapRules f) := by
  have hactions : (c.mapRules f).actions = c.actions.map (·.mapRules f) := rfl
  have hindex : (c.mapRules f).index = c.index := rfl
  simp only [action?, hactions, hindex, List.getElem?_map, Option.map_bind, Function.comp_def]

theorem mapRules_id (c : Catalog) : c.mapRules id = c := by
  have haction : (fun a : Action => a.mapRules id) = id := by
    funext a
    simp [Action.mapRules]
  have hreference : (fun r : Reference => r.mapRules id) = id := by
    funext r
    simp [Reference.mapRules]
  have hstage : (fun s : Stage => s.mapRules id) = id := by
    funext s
    simp [Stage.mapRules, hreference]
  have hworkflow : (fun w : Workflow => w.mapRules id) = id := by
    funext w
    simp [Workflow.mapRules, hstage]
  have hdefinitions : c.definitions.mapRules id = c.definitions := by
    simp [Definitions.mapRules, haction, hworkflow]
  cases c
  simpa [mapRules] using hdefinitions

/-! ## All rules of a catalog -/

def rules (c : Catalog) : List Rule :=
  c.rulePlaces.flatMap Prod.snd

def freeVars (c : Catalog) : List String :=
  c.rules.flatMap Rule.freeVars

theorem mem_rules {r : Rule} :
    r ∈ c.rules ↔ (∃ a ∈ c.actions, r ∈ a.rules) ∨ ∃ w ∈ c.workflows, r ∈ w.rules ∨
      ∃ s ∈ w.stages, r ∈ s.rules ∨ ∃ reference ∈ s.actions, r ∈ reference.rules := by
  simp [rules, rulePlaces, workflowPlaces, List.flatMap_append, List.flatMap_map, List.flatMap_assoc]

theorem rules_mapRules : (c.mapRules f).rules = c.rules.map f := by
  simp [rules, rulePlaces, workflowPlaces, mapRules, actions, workflows, Definitions.mapRules,
    Action.mapRules, Workflow.mapRules, Stage.mapRules, Reference.mapRules, List.flatMap_append,
    List.flatMap_map, List.flatMap_assoc, List.map_flatMap, Function.comp_def]

theorem diagnostics_eq_nil_iff :
    c.diagnostics = [] ↔ ∀ r ∈ c.rules, r.compile.isOk = true := by
  have hdiagnose : ∀ (place : RulePlace) (r : Rule),
      diagnose place r = none ↔ r.compile.isOk = true := by
    intro place r
    unfold diagnose
    cases r.compile <;> simp [Except.isOk, Except.toBool]
  simp only [diagnostics, rules, List.flatMap_eq_nil_iff, List.filterMap_eq_nil_iff, hdiagnose,
    List.mem_flatMap]
  constructor
  · intro h r hr
    obtain ⟨place, hplace, hr⟩ := hr
    exact h place hplace r hr
  · intro h place hplace r hr
    exact h r ⟨place, hplace, hr⟩

end Catalog
end Workplan
