import Workplan.Command.Run
import Workplan.File.Tree
import Workplan.Proofs.Plan.Failure
import Workplan.Proofs.Plan.Prescription

/-!
# Evaluation predicts plans

Evaluating an expression for a module sees what a rule sees of that module in a plan, and fails
where the rule does not match. So where nothing but the expression gates an action, evaluation
tells in advance whether a plan holds a step for the module: it does exactly if the value is true.
-/

namespace Workplan

open Command (RunT evaluate evalContext environment)

theorem Dictionary.insertAll_nil {α : Type} (d : Dictionary α) : d.insertAll [] = d := rfl

/-! ## Runs in a tree of files -/

/-- What is run one after the other gives a value if both parts do. -/
theorem run_bind_eq_ok_iff {α β ε σ : Type} {s : σ} {x : ExceptT ε (StateM σ) α}
    {f : α → ExceptT ε (StateM σ) β} {b : β} :
    ((x >>= f).run.run s).1 = .ok b ↔ ∃ a, (x.run.run s).1 = .ok a ∧
      ((f a).run.run (x.run.run s).2).1 = .ok b := by
  rw [ExceptT.run_bind, StateT.run_bind]
  cases x.run.run s with
  | mk result next =>
      cases result with
      | error e => exact ⟨(nomatch ·), fun ⟨_, h, _⟩ => nomatch h⟩
      | ok a =>
          constructor
          · intro h
            exact ⟨a, rfl, h⟩
          · intro h
            obtain ⟨c, hc, h⟩ := h
            cases hc
            exact h

def Module.Lists (t : FileTree) (path : String) (modules : List Module) : Prop :=
  ((loadAll path : LoadT (StateM FileTree) (List Module)).run.run t).1 = .ok modules

theorem eq_ok_iff_toOption {α ε : Type} {result : Except ε α} {a : α} :
    result.toOption = some a ↔ result = .ok a := by
  cases result <;> simp [Except.toOption]

instance (t : FileTree) (path : String) (modules : List Module) :
    Decidable (Module.Lists t path modules) :=
  decidable_of_iff _ eq_ok_iff_toOption

namespace Command

variable {t : FileTree} {env : Dictionary String} {α ε : Type}

def Evaluates (t : FileTree) (request : EvalRequest) (env : Dictionary String) (v : Rule.Value) :
    Prop :=
  ((evaluate request env : RunT (StateM FileTree) Rule.Value).run.run t).1 = .ok v

instance (t : FileTree) (request : EvalRequest) (env : Dictionary String) (v : Rule.Value) :
    Decidable (Evaluates t request env v) :=
  decidable_of_iff _ eq_ok_iff_toOption

theorem run_check_eq_ok_iff {failure : ε → Failure} {result : Except ε α} {a : α} :
    ((check failure result : RunT (StateM FileTree) α).run.run t).1 = .ok a ↔ result = .ok a := by
  cases result with
  | error e => exact ⟨(nomatch ·), (nomatch ·)⟩
  | ok b =>
      show Except.ok b = .ok a ↔ _
      simp

theorem run_orFail_eq_ok_iff {failure : ε → Failure} {x : ExceptT ε (StateM FileTree) α} {a : α} :
    ((orFail failure x : RunT (StateM FileTree) α).run.run t).1 = .ok a ↔
      (x.run.run t).1 = .ok a := by
  show (Except.mapError failure (x.run.run t).1) = .ok a ↔ _
  cases (x.run.run t).1 <;> simp [Except.mapError]

/-- An expression is read first, then its context is made, and then it runs with the further
variables. -/
theorem evaluates_iff {request : EvalRequest} {v : Rule.Value} : Evaluates t request env v ↔
    ∃ program, Rule.Program.compile request.expression = .ok program ∧
      ∃ ctx, ((evalContext request (environment request.processEnv env []) :
        RunT (StateM FileTree) Rule.Context).run.run t).1 = .ok ctx ∧
          program.run (ctx.insertAll (request.vars.map fun (name, value) => (name, .str value))) =
            .ok v := by
  unfold Evaluates evaluate
  cases Rule.Program.compile request.expression with
  | error e => exact ⟨(nomatch ·), fun ⟨_, h, _⟩ => nomatch h⟩
  | ok program =>
      have hstep : ∀ {α : Type} (f : Rule.Program → RunT (StateM FileTree) α),
          (check .rule (.ok program) >>= f) = f program := fun f => pure_bind program f
      rw [hstep, run_bind_eq_ok_iff]
      simp only [run_check_eq_ok_iff, Except.ok.injEq, exists_eq_left']

theorem evaluates_project_iff {request : EvalRequest} {v : Rule.Value}
    (hmodule : request.module = none) (hvars : request.vars = []) :
    Evaluates t request env v ↔
      ∃ program, Rule.Program.compile request.expression = .ok program ∧
        program.run (Rule.projectContext request.directory
          (environment request.processEnv env [])) = .ok v := by
  have hcontext : ∀ ctx, ((evalContext request (environment request.processEnv env []) :
      RunT (StateM FileTree) Rule.Context).run.run t).1 = .ok ctx ↔
        Rule.projectContext request.directory (environment request.processEnv env []) = ctx := by
    intro ctx
    unfold evalContext
    rw [hmodule]
    exact ⟨Except.ok.inj, congrArg Except.ok⟩
  simp only [evaluates_iff, hcontext, hvars, List.map_nil, Dictionary.insertAll_nil, exists_eq_left']

/-- An expression for a module runs in the context of the first module of its id. -/
theorem evaluates_module_iff {request : EvalRequest} {v : Rule.Value} {modules : List Module}
    {id path : String} {m : Module} (hmodule : request.module = some (id, path))
    (hvars : request.vars = []) (hlists : Module.Lists t path modules)
    (hfound : modules.find? (·.id == id) = some m) :
    Evaluates t request env v ↔
      ∃ program, Rule.Program.compile request.expression = .ok program ∧
        program.run (Rule.moduleContext request.directory
          (environment request.processEnv env []) m) = .ok v := by
  have hcontext : ∀ ctx, ((evalContext request (environment request.processEnv env []) :
      RunT (StateM FileTree) Rule.Context).run.run t).1 = .ok ctx ↔
        Rule.moduleContext request.directory (environment request.processEnv env []) m = ctx := by
    intro ctx
    have hloaded : ∀ others, ((orFail (.modulesNotLoaded path) (Module.loadAll path) :
        RunT (StateM FileTree) (List Module)).run.run t).1 = .ok others ↔ modules = others := by
      intro others
      rw [run_orFail_eq_ok_iff, hlists, Except.ok.injEq]
    unfold evalContext
    simp only [hmodule, run_bind_eq_ok_iff, hloaded, exists_eq_left', hfound]
    exact ⟨Except.ok.inj, congrArg Except.ok⟩
  simp only [evaluates_iff, hcontext, hvars, List.map_nil, Dictionary.insertAll_nil, exists_eq_left']

end Command

/-! ## Gates -/

namespace Rule

theorem Program.isMatch_iff_run {program : Program} {ctx : Context} :
    program.isMatch ctx = true ↔ program.run ctx = .ok (.bool true) := by
  unfold isMatch decides
  cases program.run ctx with
  | error e => simp
  | ok v => cases v <;> simp [outcome]

/-- A rule matches where it can be read and its value is true. -/
theorem isMatch_iff_run {r : Rule} {ctx : Context} : r.isMatch ctx = true ↔
    ∃ program, Program.compile r.expression = .ok program ∧
      program.run ctx = .ok (.bool true) := by
  simp only [isMatch_eq_any, Option.any_eq_true, program?_eq_some_iff, Program.isMatch_iff_run]

/-- One rule that mentions no variable of a module admits what it matches. -/
theorem admits_singleton {r : Rule} {project : Context} {modules : List Context}
    (h : r.usesModuleVariables = false) :
    Admits [r] project modules ↔ r.isMatch project = true := by
  simp [Admits, h]

end Rule

/-! ## Catalogs with one gate -/

namespace Catalog

variable {c : Catalog} {p : Project} {w : Workflow} {plan : Plan} {order : List Nat}

/-- The only workflow of a catalog has no rules, nor has its only stage, and the only action placed
there has no other rule than the expression. -/
structure Gates (c : Catalog) (expression : String) (w : Workflow) (stage : Stage) (r : Reference)
    (a : Action) : Prop where
  workflows : c.workflows = [w]
  workflowRules : w.rules = []
  stages : w.stages = [stage]
  stageRules : stage.rules = []
  references : stage.actions = [r]
  action : c.action? r.id = some a
  rules : r.rules ++ a.rules = [⟨expression⟩]

theorem exists_plan_of_unrelated (hw : c.selectWorkflow? p.context = some w)
    (h : ∀ u v, ¬ Emission.Precedes (c.emissions w p) u v) : ∃ plan, c.plan p = .ok plan := by
  rcases plan_of_selected hw with hcyclic | hplan
  · obtain ⟨v, hcycle⟩ := (exists_cyclic_iff hw).mp hcyclic
    obtain ⟨u, hfirst, -⟩ := Relation.TransGen.head'_iff.mp hcycle
    exact absurd hfirst (h v u)
  · exact hplan

/-- The steps of a plan are for what the tasks of its workflow are for. -/
theorem Makes.exists_step_iff (h : c.Makes p w order plan) (holds : Option String → Prop) :
    (∃ s ∈ plan.steps, holds s.module) ↔
      ∃ task ∈ Task.ofWorkflow c p w, holds (task.module.map Module.id) := by
  simp only [← Emission.map_task_emissions, List.mem_map, exists_exists_and_eq_and,
    h.mem_steps_iff]
  constructor
  · intro hs
    obtain ⟨s, ⟨v, e, he, rfl⟩, hholds⟩ := hs
    exact ⟨e, List.mem_of_getElem? he, hholds⟩
  · intro he
    obtain ⟨e, he, hholds⟩ := he
    obtain ⟨v, hv⟩ := List.mem_iff_getElem?.mp he
    exact ⟨_, ⟨v, e, hv, rfl⟩, hholds⟩

namespace Gates

variable {expression : String} {stage : Stage} {r : Reference} {a : Action}

theorem selects (h : c.Gates expression w stage r a) (project : Rule.Context) :
    c.selectWorkflow? project = some w := by
  rw [selectWorkflow?, h.workflows, List.find?_cons, h.workflowRules]
  rfl

/-- The tasks of the workflow are those of its one reference. -/
theorem tasks_project (h : c.Gates expression w stage r a) (hscope : a.scope = .project) :
    Task.ofWorkflow c p w =
      if Rule.Admits [⟨expression⟩] p.context (p.modules.map p.moduleContext) then
        [⟨stage.name, r, a, none⟩]
      else [] := by
  simp [Task.ofWorkflow, h.stages, Task.ofStage, h.stageRules, h.references, Task.ofReference,
    h.action, h.rules, hscope, Rule.anyMatch]

theorem tasks_module (h : c.Gates expression w stage r a) (hscope : a.scope = .module) :
    Task.ofWorkflow c p w =
      (p.modules.filter fun m => Rule.isMatch ⟨expression⟩ (p.moduleContext m)).map
        fun m => ⟨stage.name, r, a, some m⟩ := by
  simp [Task.ofWorkflow, h.stages, Task.ofStage, h.stageRules, h.references, Task.ofReference,
    h.action, h.rules, hscope, Rule.anyMatch]

/-- There is nothing that a step could wait for, so there is a plan. -/
theorem exists_plan (h : c.Gates expression w stage r a) (p : Project) :
    ∃ plan, c.plan p = .ok plan := by
  refine exists_plan_of_unrelated (h.selects p.context) fun u v hprecedes => ?_
  have htasks := Emission.map_task_emissions (c := c) (w := w) (p := p)
  cases hscope : a.scope with
  | project =>
      have hlength : (c.emissions w p).length ≤ 1 := by
        rw [← List.length_map Emission.task, htasks, h.tasks_project hscope]
        split <;> simp
      obtain ⟨hne, f, e, hf, he, -⟩ := hprecedes
      have hu := (List.getElem?_eq_some_iff.mp hf).1
      have hv := (List.getElem?_eq_some_iff.mp he).1
      omega
  | module =>
      obtain ⟨f, hf, hproject⟩ := hprecedes.exists_producer
      have hmem : f.task ∈ (c.emissions w p).map Emission.task :=
        List.mem_map_of_mem (List.mem_of_getElem? hf)
      rw [htasks, h.tasks_module hscope] at hmem
      obtain ⟨m, -, hm⟩ := List.mem_map.mp hmem
      have haction : a = f.placement.action := congrArg Task.action hm
      rw [← haction, hscope] at hproject
      cases hproject

end Gates
end Catalog

/--
Where an expression alone gates an action for modules, a plan for the modules that a file lists has
a step for one of them exactly if evaluating the expression for that module, without further
variables, gives true. Where it gates an action for the project and mentions no variable of a
module, a plan has a step exactly if evaluating it for the project gives true.
-/
theorem evaluation_predicts {t : FileTree} {path : String} {modules : List Module}
    {request : EvalRequest} {c : Catalog} {w : Workflow} {stage : Stage} {r : Reference}
    {a : Action} (hlists : Module.Lists t path modules) (hids : (modules.map Module.id).Nodup)
    (hvars : request.vars = []) (hgates : c.Gates request.expression w stage r a)
    (env : Dictionary String) :
    ∃ plan, c.plan ⟨modules, request.directory, environment request.processEnv env []⟩ = .ok plan ∧
      (a.scope = .module → ∀ m ∈ modules, ((∃ s ∈ plan.steps, s.module = some m.id) ↔
        Command.Evaluates t { request with module := some (m.id, path) } env (.bool true))) ∧
      (a.scope = .project → (∀ program, Rule.Program.compile request.expression = .ok program →
          ∀ name ∈ program.freeVars, Rule.Program.isModuleVariable name = false) →
        ((∃ s, s ∈ plan.steps) ↔
          Command.Evaluates t { request with module := none } env (.bool true))) := by
  obtain ⟨plan, hplan⟩ := hgates.exists_plan
    ⟨modules, request.directory, environment request.processEnv env []⟩
  obtain ⟨v, order, hmakes⟩ := Catalog.exists_makes hplan
  obtain rfl : w = v := Option.some.inj ((hgates.selects _).symm.trans hmakes.selected)
  refine ⟨plan, hplan, ?_, ?_⟩
  · intro hscope m hm
    have hfound : modules.find? (·.id == m.id) = some m :=
      (find?_key_eq_some_iff hids).mpr ⟨hm, rfl⟩
    have hevaluates : Command.Evaluates t { request with module := some (m.id, path) } env
        (.bool true) ↔ _ := Command.evaluates_module_iff rfl hvars hlists hfound
    rw [hevaluates, hmakes.exists_step_iff (· = some m.id), hgates.tasks_module hscope,
      ← Rule.isMatch_iff_run (r := ⟨request.expression⟩)]
    constructor
    · intro h
      obtain ⟨task, htask, hid⟩ := h
      obtain ⟨other, hother, rfl⟩ := List.mem_map.mp htask
      obtain ⟨hmem, hmatch⟩ := List.mem_filter.mp hother
      obtain rfl : other = m := List.inj_on_of_nodup_map hids hmem hm (Option.some.inj hid)
      exact hmatch
    · intro h
      exact ⟨_, List.mem_map_of_mem (List.mem_filter.mpr ⟨hm, h⟩), rfl⟩
  · intro hscope hreads
    have hevaluates : Command.Evaluates t { request with module := none } env (.bool true) ↔ _ :=
      Command.evaluates_project_iff rfl hvars
    have huses := (Rule.usesModuleVariables_eq_false_iff (r := ⟨request.expression⟩)).mpr hreads
    have hsteps := hmakes.exists_step_iff fun _ => True
    simp only [and_true] at hsteps
    rw [hevaluates, hsteps, hgates.tasks_project hscope,
      ← Rule.isMatch_iff_run (r := ⟨request.expression⟩), ← Rule.admits_singleton huses]
    split
    · next hadmits => exact iff_of_true ⟨_, List.mem_singleton_self _⟩ hadmits
    · next hadmits => exact iff_of_false (by simp) hadmits

/-! ## Trials of an expression -/

namespace Trial

def action (scope : Scope) : Action :=
  Delivery.action "test" scope [] ["image"] ["image"]

/-- The only stage places the action, which an expression gates there. -/
def stage (expression : String) : Stage where
  name := "check"
  rules := []
  actions := [Delivery.reference "test" [expression]]

def workflow (expression : String) : Workflow where
  name := "release"
  rules := []
  stages := [stage expression]

def definitions (scope : Scope) (expression : String) : Definitions where
  actions := [action scope]
  workflows := [workflow expression]

def moduleCatalog : Catalog :=
  .ofValid (definitions .module "MODULE_NAME == \"api\"") (by decide +kernel)

def projectCatalog : Catalog :=
  .ofValid (definitions .project "PROJECT_DIR == \"/work\"") (by decide +kernel)

def modules : List Module :=
  [.named "m1" "api" "", .named "m2" "docs" ""]

def tree : FileTree :=
  FileTree.empty.withFile "m.yaml" "- {id: m1, name: api}\n- {id: m2, name: docs}\n".toUTF8

def request (expression : String) : EvalRequest where
  expression
  directory := "/work"
  vars := []
  module := none
  processEnv := false

theorem lists_modules : Module.Lists tree "m.yaml" modules := by
  decide +kernel

theorem gates {c : Catalog} {scope : Scope} {expression : String}
    (h : c.definitions = definitions scope expression) :
    c.Gates expression (workflow expression) (stage expression)
      (Delivery.reference "test" [expression]) (action scope) where
  workflows := congrArg Definitions.workflows h
  workflowRules := rfl
  stages := rfl
  stageRules := rfl
  references := rfl
  action := by
    rw [Catalog.action?_eq_find?, Catalog.actions, h]
    rfl
  rules := rfl

/-- The step is for the module that evaluation approves of, and the project is approved as well. -/
theorem evaluation_predicts_trial :
    (∃ plan, moduleCatalog.plan ⟨modules, "/work", .empty⟩ = .ok plan ∧
      (∃ s ∈ plan.steps, s.module = some "m1") ∧ ¬ ∃ s ∈ plan.steps, s.module = some "m2") ∧
    ∃ plan, projectCatalog.plan ⟨modules, "/work", .empty⟩ = .ok plan ∧ ∃ s, s ∈ plan.steps := by
  have hids : (modules.map Module.id).Nodup := by
    decide
  obtain ⟨first, hfirst, hmodules, -⟩ := evaluation_predicts
    lists_modules hids (show (request "MODULE_NAME == \"api\"").vars = [] from rfl)
    (gates (c := moduleCatalog) rfl) .empty
  obtain ⟨second, hsecond, -, hproject⟩ := evaluation_predicts
    lists_modules hids (show (request "PROJECT_DIR == \"/work\"").vars = [] from rfl)
    (gates (c := projectCatalog) rfl) .empty
  refine ⟨⟨first, hfirst, ?_, ?_⟩, second, hsecond, ?_⟩
  · exact (hmodules rfl (.named "m1" "api" "") (by decide)).mpr (by decide +kernel)
  · exact mt (hmodules rfl (.named "m2" "docs" "") (by decide)).mp (by decide +kernel)
  · refine (hproject rfl ?_).mpr (by decide +kernel)
    exact Rule.usesModuleVariables_eq_false_iff.mp
      (show Rule.usesModuleVariables ⟨"PROJECT_DIR == \"/work\""⟩ = false by decide +kernel)

end Trial

end Workplan
