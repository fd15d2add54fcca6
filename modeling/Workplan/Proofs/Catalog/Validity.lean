import Workplan.Catalog.Basic
import Mathlib.Data.List.Nodup

/-!
# Which definitions make a catalog

`Definitions.faults` lists all that is wrong with definitions, entry by entry, whatever is wrong
elsewhere. Building goes through the same entries and stops, so it gives the first of these faults
if there is one. There is none exactly if the definitions are valid. A catalog holds what it was
built from. The loop that checks the actions keeps its index exact for the actions it has passed,
so the index of a catalog leads from each id to the one action that has it.
-/

namespace Workplan

open Catalog (Error)

/-! ## Faults -/

namespace Action

def ownFaults (a : Action) : List Error :=
  (if isActionId a.id then [] else [.invalidId a.id]) ++
    (if Text.isBlank a.name then [.emptyName .action] else []) ++
    a.runner.fault?.toList.map (.invalidRunner a.id)

def faults (earlier : List Action) (a : Action) : List Error :=
  a.ownFaults ++ if a.id ∈ earlier.map Action.id then [.duplicateAction a.id] else []

end Action

def Stage.faults (workflow : String) (earlier : List Stage) (s : Stage) : List Error :=
  (if Text.isBlank s.name then [.emptyName .stage] else []) ++
    if s.name ∈ earlier.map Stage.name then [.duplicateStage workflow s.name] else []

/-- The faults of the items of a list, in order. Those of an item may depend on the items before
it, which are `earlier` for the first one. -/
def faultsInOrder {α : Type} (faults : List α → α → List Error) :
    (earlier items : List α) → List Error
  | _, [] => []
  | earlier, a :: rest => faults earlier a ++ faultsInOrder faults (earlier ++ [a]) rest

namespace Workflow

def ownFaults (w : Workflow) : List Error :=
  (if Text.isBlank w.name then [.emptyName .workflow] else []) ++
    faultsInOrder (Stage.faults w.name) [] w.stages

def unknownActions (ids : List String) (w : Workflow) : List Error :=
  (w.references.filter fun x => x.2.id ∉ ids).map fun x => .unknownAction w.name x.1 x.2.id

/-- What is wrong with a workflow that stands after others, where `ids` are those of all actions. -/
def faults (ids : List String) (earlier : List Workflow) (w : Workflow) : List Error :=
  w.ownFaults ++
    (if w.name ∈ earlier.map Workflow.name then [.duplicateWorkflow w.name] else []) ++
    w.unknownActions ids

end Workflow

namespace Runner

/-- A runner that names what it runs. -/
def Complete : Runner → Prop
  | builtin => True
  | container image _ => Text.isBlank image = false
  | githubAction uses => Text.isBlank uses = false

theorem fault?_eq_none_iff {r : Runner} : r.fault? = none ↔ r.Complete := by
  cases r with
  | builtin => simp [fault?, Complete]
  | container image _ => cases h : Text.isBlank image <;> simp [fault?, Complete, h]
  | githubAction uses => cases h : Text.isBlank uses <;> simp [fault?, Complete, h]

end Runner

namespace Definitions

def faults (d : Definitions) : List Error :=
  faultsInOrder Action.faults [] d.actions ++
    faultsInOrder (Workflow.faults (d.actions.map Action.id)) [] d.workflows

/-- What a catalog promises of its definitions. -/
structure Valid (d : Definitions) : Prop where
  actionId : ∀ a ∈ d.actions, isActionId a.id = true
  actionName : ∀ a ∈ d.actions, Text.isBlank a.name = false
  runner : ∀ a ∈ d.actions, a.runner.Complete
  distinctActions : (d.actions.map Action.id).Nodup
  workflowName : ∀ w ∈ d.workflows, Text.isBlank w.name = false
  stageName : ∀ w ∈ d.workflows, ∀ s ∈ w.stages, Text.isBlank s.name = false
  distinctStages : ∀ w ∈ d.workflows, (w.stages.map Stage.name).Nodup
  distinctWorkflows : (d.workflows.map Workflow.name).Nodup
  resolved : ∀ w ∈ d.workflows, ∀ s ∈ w.stages, ∀ r ∈ s.actions, ∃ a ∈ d.actions, a.id = r.id

/-- An index that holds the positions of the ids of some actions, and nothing else. -/
def Indexes (index : Dictionary Nat) (actions : List Action) : Prop :=
  ∀ id position, index.get? id = some position ↔ ∃ a, actions[position]? = some a ∧ a.id = id

/-- What becomes of definitions: a catalog that holds them, or the first of their faults. -/
structure Judged (d : Definitions) (result : Except Error Catalog) : Prop where
  built : (∃ c, result = .ok c) ↔ d.Valid
  refused : ∀ e, result = .error e ↔ d.faults.head? = some e
  actions : ∀ c, result = .ok c → c.actions = d.actions
  workflows : ∀ c, result = .ok c → c.workflows = d.workflows
  indexed : ∀ c, result = .ok c → Indexes c.index d.actions
  found : ∀ c, result = .ok c → ∀ id a, c.action? id = some a ↔
    a ∈ d.actions ∧ a.id = id ∧ ∀ b ∈ d.actions, b.id = id → b = a
  missing : ∀ c, result = .ok c → ∀ id, c.action? id = none ↔ ∀ a ∈ d.actions, a.id ≠ id
  resolved : ∀ c, result = .ok c → ∀ w ∈ d.workflows, ∀ s ∈ w.stages, ∀ r ∈ s.actions,
    ∃ a ∈ d.actions, c.action? r.id = some a

end Definitions

/-! ## Stopping at the first fault -/

/-- The outcome of a check that stops at the first of `faults`. -/
def verdict : (faults : List Error) → Except Error Unit
  | [] => .ok ()
  | e :: _ => .error e

theorem verdict_append (faults others : List Error) :
    verdict (faults ++ others) = (verdict faults).bind fun _ => verdict others := by
  cases faults <;> rfl

theorem verdict_ite (c : Prop) [Decidable c] (e : Error) :
    verdict (if c then [e] else []) = if c then .error e else .ok () := by
  split <;> rfl

/-- A loop over a list that remembers the keys it has seen, and stops at the first fault of an
item, stops at the first fault of all. -/
theorem loop_eq_verdict {α : Type} {loop : List String → List α → Except Error Unit}
    {faults : List α → α → List Error} (key : α → String) (hnil : ∀ seen, loop seen [] = .ok ())
    (hcons : ∀ earlier a rest, loop (earlier.map key).reverse (a :: rest) =
      (verdict (faults earlier a)).bind fun _ => loop (key a :: (earlier.map key).reverse) rest)
    (earlier items : List α) :
    loop (earlier.map key).reverse items = verdict (faultsInOrder faults earlier items) := by
  induction items generalizing earlier with
  | nil => exact hnil _
  | cons a rest ih =>
      have hseen : key a :: (earlier.map key).reverse = ((earlier ++ [a]).map key).reverse := by
        simp
      rw [hcons, faultsInOrder, verdict_append, hseen, ih]

theorem Action.check_eq_verdict (a : Action) : a.check = verdict a.ownFaults := by
  unfold check ownFaults
  cases isActionId a.id with
  | false => rfl
  | true =>
      cases Text.isBlank a.name with
      | true => rfl
      | false => cases a.runner.fault? <;> rfl

theorem Workflow.checkStages_eq_verdict (workflow : String) (stages : List Stage) :
    checkStages workflow [] stages = verdict (faultsInOrder (Stage.faults workflow) [] stages) := by
  refine loop_eq_verdict Stage.name (fun _ => rfl) ?_ [] stages
  intro earlier s rest
  rw [checkStages, Stage.faults, verdict_append, verdict_ite, verdict_ite, Stage.check]
  cases Text.isBlank s.name with
  | true => rfl
  | false => by_cases hseen : s.name ∈ earlier.map Stage.name <;> simp [hseen, Except.bind]

theorem Workflow.check_eq_verdict (w : Workflow) : w.check = verdict w.ownFaults := by
  rw [check, ownFaults, verdict_append, verdict_ite, checkStages_eq_verdict]
  cases Text.isBlank w.name <;> rfl

namespace Definitions

/-! ## Indexing -/

namespace Indexes

variable {index : Dictionary Nat} {actions : List Action}

theorem empty : Indexes .empty [] := by
  intro id position
  simp

theorem contains_iff (h : Indexes index actions) {id : String} :
    index.contains id = true ↔ id ∈ actions.map Action.id := by
  rw [Dictionary.contains, Option.isSome_iff_exists, List.mem_map]
  constructor
  · intro ⟨position, hget⟩
    obtain ⟨a, ha, hid⟩ := (h id position).mp hget
    exact ⟨a, List.mem_of_getElem? ha, hid⟩
  · intro ⟨a, ha, hid⟩
    obtain ⟨position, ha⟩ := List.mem_iff_getElem?.mp ha
    exact ⟨position, (h id position).mpr ⟨a, ha, hid⟩⟩

/-- The next action is entered with the number of actions before it. -/
theorem insert (h : Indexes index actions) {a : Action} (ha : a.id ∉ actions.map Action.id) :
    Indexes (index.insert a.id actions.length) (actions ++ [a]) := by
  intro id position
  rw [Dictionary.get?_insert]
  split
  · next hid =>
    subst hid
    constructor
    · intro hposition
      obtain rfl := Option.some.inj hposition
      exact ⟨a, by simp, rfl⟩
    · intro ⟨b, hb, hid⟩
      have hle := (List.getElem?_eq_some_iff.mp hb).1
      rw [List.length_append, List.length_singleton] at hle
      by_cases hlt : position < actions.length
      · rw [List.getElem?_append_left hlt] at hb
        exact absurd (List.mem_map.mpr ⟨b, List.mem_of_getElem? hb, hid⟩) ha
      · rw [show actions.length = position by omega]
  · next hne =>
    rw [h id position]
    refine exists_congr fun b => and_congr_left fun hid => ?_
    by_cases hlt : position < actions.length
    · rw [List.getElem?_append_left hlt]
    · rw [List.getElem?_append_right (by omega), List.getElem?_eq_none (by omega)]
      refine iff_of_false nofun fun hb => ?_
      obtain rfl := List.mem_singleton.mp (List.mem_of_getElem? hb)
      exact hne hid.symm

end Indexes

/-- How a check ends: with a good result if there are no faults, and else at the first of them. -/
def Ends {α : Type} (faults : List Error) (good : α → Prop) : Except Error α → Prop
  | .ok a => faults = [] ∧ good a
  | .error e => faults.head? = some e

variable {index : Dictionary Nat} {earlier : List Action}

theorem indexActions_cons (h : Indexes index earlier) (a : Action) (rest : List Action) :
    indexActions index earlier.length (a :: rest) = (verdict (a.faults earlier)).bind fun _ =>
      indexActions (index.insert a.id earlier.length) (earlier ++ [a]).length rest := by
  rw [indexActions, Action.faults, verdict_append, verdict_ite, ← Action.check_eq_verdict]
  cases a.check with
  | error e => rfl
  | ok =>
      by_cases hseen : a.id ∈ earlier.map Action.id <;>
        simp [h.contains_iff, hseen, Except.bind]

/-- The loop over the actions keeps the index exact for those that it has passed. -/
theorem indexActions_ends (h : Indexes index earlier) (rest : List Action) :
    Ends (faultsInOrder Action.faults earlier rest) (Indexes · (earlier ++ rest))
      (indexActions index earlier.length rest) := by
  induction rest generalizing index earlier with
  | nil => exact ⟨rfl, by simpa using h⟩
  | cons a rest ih =>
      rw [indexActions_cons h, faultsInOrder]
      cases hfaults : a.faults earlier with
      | nil =>
          have hnew : a.id ∉ earlier.map Action.id := by
            intro hmem
            simp [Action.faults, hmem] at hfaults
          have hrest := ih (h.insert hnew)
          rwa [List.append_assoc] at hrest
      | cons e more => rfl

variable {ids : List String}

theorem checkReferences_eq_verdict (h : ∀ id, index.contains id = true ↔ id ∈ ids)
    (workflow : String) (references : List (String × Reference)) :
    checkReferences index workflow references =
      verdict ((references.filter fun x => x.2.id ∉ ids).map fun x =>
        .unknownAction workflow x.1 x.2.id) := by
  induction references with
  | nil => rfl
  | cons x rest ih =>
      obtain ⟨stage, r⟩ := x
      by_cases hr : r.id ∈ ids
      · simp [checkReferences, h, hr, ih]
      · simp [checkReferences, h, hr, verdict]

theorem checkWorkflows_eq_verdict (h : ∀ id, index.contains id = true ↔ id ∈ ids)
    (workflows : List Workflow) :
    checkWorkflows index [] workflows =
      verdict (faultsInOrder (Workflow.faults ids) [] workflows) := by
  refine loop_eq_verdict Workflow.name (fun _ => rfl) ?_ [] workflows
  intro before w rest
  rw [checkWorkflows, Workflow.faults, verdict_append, verdict_append, verdict_ite,
    ← Workflow.check_eq_verdict, Workflow.unknownActions, ← checkReferences_eq_verdict h]
  cases w.check with
  | error e => rfl
  | ok =>
      by_cases hseen : w.name ∈ before.map Workflow.name
      · simp [hseen, Except.bind]
      · cases checkReferences index w.name w.references <;> simp [hseen, Except.bind]

theorem check_ends (d : Definitions) : Ends d.faults (Indexes · d.actions) d.check := by
  have hactions : Ends (faultsInOrder Action.faults [] d.actions) (Indexes · d.actions)
      (indexActions .empty 0 d.actions) := indexActions_ends Indexes.empty d.actions
  unfold check faults
  cases hindex : indexActions .empty 0 d.actions with
  | error e =>
      rw [hindex] at hactions
      have hfirst : (faultsInOrder Action.faults [] d.actions).head? = some e := hactions
      show List.head? _ = some e
      rw [List.head?_append, hfirst, Option.some_or]
  | ok index =>
      rw [hindex] at hactions
      obtain ⟨hnone, hexact⟩ := hactions
      simp only [checkWorkflows_eq_verdict fun _ => hexact.contains_iff, hnone, List.nil_append]
      cases faultsInOrder (Workflow.faults (d.actions.map Action.id)) [] d.workflows with
      | nil => exact ⟨rfl, hexact⟩
      | cons e more => rfl

/-! ## Having no fault -/

/-- Where an item is at fault by itself, or by a key that an earlier item has, there is no fault
exactly if no item is at fault by itself and all keys differ. -/
theorem faultsInOrder_eq_nil {α : Type} {faults : List α → α → List Error} {key : α → String}
    {sound : α → Prop}
    (h : ∀ earlier a, faults earlier a = [] ↔ sound a ∧ key a ∉ earlier.map key)
    (earlier items : List α) :
    faultsInOrder faults earlier items = [] ↔
      (∀ a ∈ items, sound a) ∧ (items.map key).Nodup ∧ ∀ a ∈ items, key a ∉ earlier.map key := by
  induction items generalizing earlier with
  | nil => simp [faultsInOrder]
  | cons a rest ih =>
      simp only [faultsInOrder, List.append_eq_nil_iff, h, ih, List.map_append, List.mem_append,
        List.map_cons, List.map_nil, List.mem_singleton, not_or, List.nodup_cons, List.mem_map,
        List.forall_mem_cons]
      constructor
      · intro hall
        obtain ⟨⟨hown, hfresh⟩, hsound, hnodup, hothers⟩ := hall
        refine ⟨⟨hown, hsound⟩, ⟨?_, hnodup⟩, hfresh, fun b hb => (hothers b hb).1⟩
        intro hmem
        obtain ⟨b, hb, heq⟩ := hmem
        exact (hothers b hb).2 heq
      · intro hall
        obtain ⟨⟨hown, hsound⟩, ⟨hfirst, hnodup⟩, hfresh, hothers⟩ := hall
        refine ⟨⟨hown, hfresh⟩, hsound, hnodup, fun b hb => ⟨hothers b hb, ?_⟩⟩
        intro heq
        exact hfirst ⟨b, hb, heq⟩

theorem actionFaults_eq_nil {actions : List Action} :
    faultsInOrder Action.faults [] actions = [] ↔
      (∀ a ∈ actions, isActionId a.id = true ∧ Text.isBlank a.name = false ∧ a.runner.Complete) ∧
        (actions.map Action.id).Nodup := by
  have hitem : ∀ (earlier : List Action) (a : Action), a.faults earlier = [] ↔
      (isActionId a.id = true ∧ Text.isBlank a.name = false ∧ a.runner.Complete) ∧
        a.id ∉ earlier.map Action.id := by
    intro earlier a
    simp [Action.faults, Action.ownFaults, ← Runner.fault?_eq_none_iff, and_assoc]
  rw [faultsInOrder_eq_nil hitem]
  simp

theorem stageFaults_eq_nil {workflow : String} {stages : List Stage} :
    faultsInOrder (Stage.faults workflow) [] stages = [] ↔
      (∀ s ∈ stages, Text.isBlank s.name = false) ∧ (stages.map Stage.name).Nodup := by
  have hitem : ∀ (earlier : List Stage) (s : Stage), s.faults workflow earlier = [] ↔
      Text.isBlank s.name = false ∧ s.name ∉ earlier.map Stage.name := by
    intro earlier s
    simp [Stage.faults]
  rw [faultsInOrder_eq_nil hitem]
  simp

theorem unknownActions_eq_nil {ids : List String} {w : Workflow} :
    w.unknownActions ids = [] ↔ ∀ s ∈ w.stages, ∀ r ∈ s.actions, r.id ∈ ids := by
  simp only [Workflow.unknownActions, Workflow.references, List.map_eq_nil_iff,
    List.filter_eq_nil_iff, List.mem_flatMap, List.mem_map, decide_eq_true_eq, not_not]
  constructor
  · intro h s hs r hr
    exact h (s.name, r) ⟨s, hs, r, hr, rfl⟩
  · intro h x hx
    obtain ⟨s, hs, r, hr, rfl⟩ := hx
    exact h s hs r hr

theorem workflowFaults_eq_nil {ids : List String} {workflows : List Workflow} :
    faultsInOrder (Workflow.faults ids) [] workflows = [] ↔
      (∀ w ∈ workflows, Text.isBlank w.name = false ∧
        ((∀ s ∈ w.stages, Text.isBlank s.name = false) ∧ (w.stages.map Stage.name).Nodup) ∧
          ∀ s ∈ w.stages, ∀ r ∈ s.actions, r.id ∈ ids) ∧
        (workflows.map Workflow.name).Nodup := by
  have hitem : ∀ (earlier : List Workflow) (w : Workflow), w.faults ids earlier = [] ↔
      (Text.isBlank w.name = false ∧
        ((∀ s ∈ w.stages, Text.isBlank s.name = false) ∧ (w.stages.map Stage.name).Nodup) ∧
          ∀ s ∈ w.stages, ∀ r ∈ s.actions, r.id ∈ ids) ∧ w.name ∉ earlier.map Workflow.name := by
    intro earlier w
    simp only [Workflow.faults, Workflow.ownFaults, List.append_eq_nil_iff, stageFaults_eq_nil,
      unknownActions_eq_nil, ite_eq_right_iff, List.cons_ne_nil, imp_false, Bool.not_eq_true]
    tauto
  rw [faultsInOrder_eq_nil hitem]
  simp

theorem faults_eq_nil_iff {d : Definitions} : d.faults = [] ↔ d.Valid := by
  rw [faults, List.append_eq_nil_iff, actionFaults_eq_nil, workflowFaults_eq_nil]
  constructor
  · intro h
    obtain ⟨⟨hactions, hids⟩, hworkflows, hnames⟩ := h
    refine ⟨fun a ha => (hactions a ha).1, fun a ha => (hactions a ha).2.1,
      fun a ha => (hactions a ha).2.2, hids, fun w hw => (hworkflows w hw).1,
      fun w hw => (hworkflows w hw).2.1.1, fun w hw => (hworkflows w hw).2.1.2, hnames, ?_⟩
    intro w hw s hs r hr
    exact List.mem_map.mp ((hworkflows w hw).2.2 s hs r hr)
  · intro h
    refine ⟨⟨fun a ha => ⟨h.actionId a ha, h.actionName a ha, h.runner a ha⟩, h.distinctActions⟩,
      fun w hw => ⟨h.workflowName w hw, ⟨h.stageName w hw, h.distinctStages w hw⟩, ?_⟩,
      h.distinctWorkflows⟩
    intro s hs r hr
    exact List.mem_map.mpr (h.resolved w hw s hs r hr)

instance : DecidablePred Valid :=
  fun _ => decidable_of_iff _ faults_eq_nil_iff

theorem Valid.exists_check_eq_ok {d : Definitions} (h : d.Valid) :
    ∃ index, d.check = .ok index := by
  have hends := d.check_ends
  rw [faults_eq_nil_iff.mpr h] at hends
  cases hcheck : d.check with
  | ok index => exact ⟨index, rfl⟩
  | error e =>
      rw [hcheck] at hends
      cases hends

end Definitions

/-! ## Catalogs -/

/-- Among items with distinct keys, looking for a key finds the item that has it. -/
theorem find?_key_eq_some_iff {α : Type} {items : List α} {key : α → String}
    (h : (items.map key).Nodup) {k : String} {a : α} :
    items.find? (key · == k) = some a ↔ a ∈ items ∧ key a = k := by
  constructor
  · intro hfound
    exact ⟨List.mem_of_find?_eq_some hfound, by simpa using List.find?_some hfound⟩
  · intro ha
    obtain ⟨ha, rfl⟩ := ha
    cases hfound : items.find? (key · == key a) with
    | none => simpa using List.find?_eq_none.mp hfound a ha
    | some b =>
        have hb := List.mem_of_find?_eq_some hfound
        have hkey : key b = key a := by simpa using List.find?_some hfound
        rw [List.inj_on_of_nodup_map h hb ha hkey]

namespace Catalog

def ofValid (d : Definitions) (h : d.Valid) : Catalog where
  definitions := d
  index := d.check.toOption.getD .empty
  checked := by
    obtain ⟨index, hindex⟩ := h.exists_check_eq_ok
    rw [hindex]
    rfl

theorem faults_eq_nil_and_indexes (c : Catalog) :
    c.definitions.faults = [] ∧ Definitions.Indexes c.index c.actions := by
  have hends := c.definitions.check_ends
  rwa [c.checked] at hends

theorem valid (c : Catalog) : c.definitions.Valid :=
  Definitions.faults_eq_nil_iff.mp c.faults_eq_nil_and_indexes.1

theorem indexes (c : Catalog) : Definitions.Indexes c.index c.actions :=
  c.faults_eq_nil_and_indexes.2

theorem build_eq_ok {d : Definitions} {c : Catalog} : build d = .ok c ↔ c.definitions = d := by
  unfold build
  split
  · next index h =>
    constructor
    · intro hc
      rw [← Except.ok.inj hc]
    · intro hd
      subst hd
      obtain rfl : c.index = index := Except.ok.inj (c.checked.symm.trans h)
      rfl
  · next e h =>
    refine iff_of_false nofun ?_
    intro hd
    subst hd
    rw [c.checked] at h
    cases h

theorem build_eq_error {d : Definitions} {e : Error} :
    build d = .error e ↔ d.faults.head? = some e := by
  have hends := d.check_ends
  unfold build
  split
  · next index h =>
    rw [h] at hends
    simp [hends.1]
  · next other h =>
    rw [h] at hends
    have hfirst : d.faults.head? = some other := hends
    simp [hfirst]

/-- An id leads to the action that has it, of which there is only one. -/
theorem action?_eq_some_iff (c : Catalog) {id : String} {a : Action} :
    c.action? id = some a ↔ a ∈ c.actions ∧ a.id = id := by
  simp only [action?, Option.bind_eq_some_iff, c.indexes id, List.mem_iff_getElem?]
  constructor
  · intro ⟨position, ⟨b, hb, hid⟩, ha⟩
    obtain rfl : b = a := Option.some.inj (hb.symm.trans ha)
    exact ⟨⟨position, ha⟩, hid⟩
  · intro ⟨⟨position, ha⟩, hid⟩
    exact ⟨position, ⟨a, ha, hid⟩, ha⟩

/-- Looking an id up in the index finds what a search through the actions finds. -/
theorem action?_eq_find? (c : Catalog) (id : String) :
    c.action? id = c.actions.find? (·.id == id) := by
  refine Option.ext fun a => c.action?_eq_some_iff.trans ?_
  exact (find?_key_eq_some_iff c.valid.distinctActions).symm

theorem action?_eq_none_iff (c : Catalog) {id : String} :
    c.action? id = none ↔ ∀ a ∈ c.actions, a.id ≠ id := by
  simp [action?_eq_find?]

/-- Every reference of every stage leads to an action. -/
theorem isSome_action? (c : Catalog) {w : Workflow} (hw : w ∈ c.workflows) {stage : Stage}
    (hstage : stage ∈ w.stages) {r : Reference} (hr : r ∈ stage.actions) :
    (c.action? r.id).isSome = true := by
  obtain ⟨a, ha, hid⟩ := c.valid.resolved w hw stage hstage r hr
  rw [c.action?_eq_some_iff.mpr ⟨ha, hid⟩, Option.isSome_some]

end Catalog

/-- Building makes a catalog of valid definitions, and otherwise names their first fault. -/
theorem build_judged (d : Definitions) : d.Judged (Catalog.build d) := by
  have hkept : ∀ c, Catalog.build d = .ok c → c.definitions = d :=
    fun c => Catalog.build_eq_ok.mp
  refine ⟨⟨?_, ?_⟩, fun e => Catalog.build_eq_error, ?_, ?_, ?_, ?_, ?_, ?_⟩
  · intro hbuilt
    obtain ⟨c, hc⟩ := hbuilt
    exact hkept c hc ▸ c.valid
  · intro hvalid
    exact ⟨.ofValid d hvalid, Catalog.build_eq_ok.mpr rfl⟩
  · intro c hc
    rw [Catalog.actions, hkept c hc]
  · intro c hc
    rw [Catalog.workflows, hkept c hc]
  · intro c hc
    obtain rfl := hkept c hc
    exact c.indexes
  · intro c hc id a
    obtain rfl := hkept c hc
    rw [c.action?_eq_some_iff]
    refine and_congr_right fun ha => (and_iff_left_of_imp ?_).symm
    intro hid b hb heq
    exact List.inj_on_of_nodup_map c.valid.distinctActions hb ha (heq.trans hid.symm)
  · intro c hc id
    obtain rfl := hkept c hc
    exact c.action?_eq_none_iff
  · intro c hc w hw s hs r hr
    obtain rfl := hkept c hc
    obtain ⟨a, ha, hid⟩ := c.valid.resolved w hw s hs r hr
    exact ⟨a, ha, c.action?_eq_some_iff.mpr ⟨ha, hid⟩⟩

/-- Two stages of one name come before an action that is missing, and after a blank name. -/
example : Definitions.faults ⟨[], [⟨" ", [], [⟨"a", [], [⟨"x", [], .null⟩]⟩, ⟨"a", [], []⟩]⟩]⟩ =
    [.emptyName .workflow, .duplicateStage " " "a", .unknownAction " " "a" "x"] := by
  decide +kernel

end Workplan
