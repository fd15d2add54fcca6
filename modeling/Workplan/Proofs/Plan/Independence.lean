import Workplan.Proofs.Plan.Decisions
import Workplan.Proofs.Rule.Context

/-!
# What has no part in a plan

Of a project, a plan shows the ids and slugs of the modules and what the rules of the catalog
read. Of a rule that cannot be read it shows no more than of one that says `false`.
-/

namespace Workplan

variable {c : Catalog} {p q : Project}

/-! ## Variables that no rule mentions -/

/-- Two projects have modules of the same ids and slugs, and define the variables that the rules
of a catalog mention alike. -/
structure Catalog.Indistinguishable (c : Catalog) (p q : Project) : Prop where
  project : ∀ name ∈ c.freeVars, p.context.get? name = q.context.get? name
  modules : List.Forall₂ (fun m n => m.id = n.id ∧ m.slug = n.slug ∧
    ∀ name ∈ c.freeVars, (p.moduleContext m).get? name = (q.moduleContext n).get? name)
      p.modules q.modules

theorem Catalog.mem_freeVars_of_mem {r : Rule} (hr : r ∈ c.rules) {name : String}
    (hname : name ∈ r.freeVars) : name ∈ c.freeVars :=
  List.mem_flatMap.mpr ⟨r, hr, hname⟩

theorem Catalog.Indistinguishable.decidesAlike (h : c.Indistinguishable p q) :
    c.DecidesAlike id p q where
  uses := fun _ _ => rfl
  project := fun _ hr => Rule.isMatch_eq_of_agree fun name hname =>
    h.project name (mem_freeVars_of_mem hr hname)
  modules := h.modules.imp fun _ _ hmn => ⟨hmn.1, hmn.2.1, fun _ hr =>
    Rule.isMatch_eq_of_agree fun name hname => hmn.2.2 name (mem_freeVars_of_mem hr hname)⟩

/-- Where no rule mentions the whole environment, its entries for the repository tell all. -/
theorem Catalog.indistinguishable_of_repository (henv : "ENV" ∉ c.freeVars)
    (modules : List Module) (directory : String) {env other : Dictionary String}
    (h : ∀ name ∈ Rule.repositoryVariables, env.get? name = other.get? name) :
    c.Indistinguishable ⟨modules, directory, env⟩ ⟨modules, directory, other⟩ := by
  have hproject : ∀ name ∈ c.freeVars, (Rule.projectContext directory env).get? name =
      (Rule.projectContext directory other).get? name := by
    intro name hname
    exact Rule.get?_projectContext_congr (fun heq => henv (heq ▸ hname)) h
  refine ⟨hproject, List.forall₂_same.mpr fun m _ => ⟨rfl, rfl, fun name hname => ?_⟩⟩
  exact Rule.get?_moduleContext_congr (hproject name hname)

theorem plan_eq_of_indistinguishable (c : Catalog) :
    (∀ p q, c.Indistinguishable p q → c.plan p = c.plan q) ∧
      ("ENV" ∉ c.freeVars → ∀ (modules : List Module) (directory : String)
        (env other : Dictionary String),
        (∀ name ∈ Rule.repositoryVariables, env.get? name = other.get? name) →
          c.plan ⟨modules, directory, env⟩ = c.plan ⟨modules, directory, other⟩) := by
  have hplan : ∀ p q, c.Indistinguishable p q → c.plan p = c.plan q := by
    intro p q h
    have heq := h.decidesAlike.plan_eq
    rwa [Catalog.mapRules_id] at heq
  refine ⟨hplan, fun henv modules directory env other h => hplan _ _ ?_⟩
  exact Catalog.indistinguishable_of_repository henv modules directory h

def Delivery.moved : Project where
  modules := [.named "m1" "api" "gomod", { Module.named "m2" "docs" "make" with files := ["a.md"] },
    .named "m3" "web" "npm"]
  directory := "/home"
  env := .ofList [("CI", "true"), ("NCI_COMMIT_HASH", "c0ffee")]

/-- The delivery has one plan in both places, and one for both environments. -/
theorem Delivery.plan_moved : ∃ plan, catalog.plan project = .ok plan ∧
    catalog.Indistinguishable project moved ∧ catalog.plan moved = .ok plan ∧
    "ENV" ∉ catalog.freeVars ∧
    (∀ name ∈ Rule.repositoryVariables,
      (Dictionary.ofList [("CI", "true")]).get? name = Dictionary.empty.get? name) ∧
    catalog.plan ⟨project.modules, "/work", .ofList [("CI", "true")]⟩ = .ok plan := by
  obtain ⟨plan, hplan, -⟩ := exists_plan
  have hfree : catalog.freeVars = ["MODULE_NAME", "MODULE_NAME"] := by
    decide +kernel
  have hproject : ∀ p : Project, p.context.get? "MODULE_NAME" = none :=
    fun p => Rule.get?_projectContext_of_module (by decide +kernel)
  have hmodule : ∀ (p : Project) (m : Module),
      (p.moduleContext m).get? "MODULE_NAME" = some (.str m.name) := by
    intro p m
    simp [Project.moduleContext, Rule.moduleContext, Rule.moduleEntries, Dictionary.insertAll]
  have hsame : catalog.Indistinguishable project moved := by
    refine ⟨?_, ?_⟩
    · simp [hfree, hproject]
    · simp [hfree, hmodule, project, moved, Module.named]
  have henv : "ENV" ∉ catalog.freeVars := by
    rw [hfree]
    decide
  have hrepository : ∀ name ∈ Rule.repositoryVariables,
      (Dictionary.ofList [("CI", "true")]).get? name = Dictionary.empty.get? name := by
    decide +kernel
  refine ⟨plan, hplan, hsame, ?_, henv, hrepository, ?_⟩
  · exact ((plan_eq_of_indistinguishable catalog).1 _ _ hsame).symm.trans hplan
  · exact ((plan_eq_of_indistinguishable catalog).2 henv _ _ _ _ hrepository).trans hplan

/-! ## Rules that cannot be read -/

namespace Rule

variable {r : Rule} {ctx : Context}

def never : Rule := ⟨"false"⟩

/-- The rule itself if it can be read, and otherwise the one that never matches. -/
def repaired (r : Rule) : Rule :=
  if r.compile.isOk then r else never

theorem isMatch_never : never.isMatch ctx = false := by
  have hfree : never.freeVars = [] := by
    decide +kernel
  have hempty : never.isMatch Dictionary.empty = false := by
    decide +kernel
  rw [← hempty]
  exact isMatch_eq_of_agree fun name hname => by simp [hfree] at hname

theorem program?_of_compile (h : ¬ r.compile.isOk = true) : program? r.expression = none := by
  unfold program?
  split
  · next program heq =>
    refine absurd ?_ h
    rw [compile, heq]
    rfl
  · rfl

theorem isOk_compile_repaired (r : Rule) : r.repaired.compile.isOk = true := by
  unfold repaired
  split
  · assumption
  · decide +kernel

theorem isMatch_repaired : r.repaired.isMatch ctx = r.isMatch ctx := by
  unfold repaired
  split
  · rfl
  · next h => rw [isMatch_never, isMatch_eq_any, program?_of_compile h, Option.any_none]

theorem usesModuleVariables_repaired : r.repaired.usesModuleVariables = r.usesModuleVariables := by
  unfold repaired
  split
  · rfl
  · next h =>
    have hnever : never.usesModuleVariables = false := by
      decide +kernel
    rw [hnever, usesModuleVariables, program?_of_compile h, Option.any_none]

end Rule

/-- Rules that cannot be read count as `false` wherever they stand. -/
theorem plan_repaired (c : Catalog) (p : Project) :
    (c.mapRules Rule.repaired).diagnostics = [] ∧ (c.mapRules Rule.repaired).plan p = c.plan p := by
  have hdecides : c.DecidesAlike Rule.repaired p p :=
    ⟨fun _ _ => Rule.usesModuleVariables_repaired.symm, fun _ _ => Rule.isMatch_repaired.symm,
      List.forall₂_same.mpr fun _ _ => ⟨rfl, rfl, fun _ _ => Rule.isMatch_repaired.symm⟩⟩
  refine ⟨Catalog.diagnostics_eq_nil_iff.mpr fun r hr => ?_, hdecides.plan_eq.symm⟩
  rw [Catalog.rules_mapRules] at hr
  obtain ⟨original, -, rfl⟩ := List.mem_map.mp hr
  exact original.isOk_compile_repaired

end Workplan
