import Workplan.Rule.RuleSet

/-!
# What a gate lets pass

Compiling rules changes nothing about what they decide: a compiled list matches where some rule
of it does. A gate for a project with its modules tries a rule that mentions a variable of a
module on each module, and any other rule on the project (`Rule.Admits`).
-/

namespace Workplan

variable {rules : List Rule} {project ctx : Rule.Context} {modules : List Rule.Context}

namespace Rule

/-- Whether a list of rules lets a project with its modules pass, read rule by rule. -/
def Admits (rules : List Rule) (project : Context) (modules : List Context) : Prop :=
  rules = [] ∨ (∃ r ∈ rules, r.usesModuleVariables = false ∧ r.isMatch project = true) ∨
    ∃ r ∈ rules, r.usesModuleVariables = true ∧ ∃ ctx ∈ modules, r.isMatch ctx = true

instance (rules : List Rule) (project : Context) (modules : List Context) :
    Decidable (Admits rules project modules) :=
  inferInstanceAs (Decidable (_ ∨ _ ∨ _))

theorem isMatch_eq_any (r : Rule) (ctx : Context) :
    r.isMatch ctx = (program? r.expression).any (·.isMatch ctx) := by
  unfold isMatch evaluate
  cases program? r.expression <;> rfl

/-- What a rule that can be read decides, if it is one that mentions no variable of a module. -/
theorem any_projectRule (r : Rule) (ctx : Context) :
    ((program? r.expression).any fun program =>
      !program.usesModuleVariables && program.isMatch ctx) =
      (!r.usesModuleVariables && r.isMatch ctx) := by
  rw [isMatch_eq_any, usesModuleVariables]
  cases program? r.expression <;> rfl

theorem any_moduleRule (r : Rule) (ctx : Context) :
    ((program? r.expression).any fun program =>
      program.usesModuleVariables && program.isMatch ctx) =
      (r.usesModuleVariables && r.isMatch ctx) := by
  rw [isMatch_eq_any, usesModuleVariables]
  cases program? r.expression <;> rfl

/-- A rule matches somewhere in a list exactly where the matching rules can be counted. -/
theorem anyMatch_iff_countMatches :
    anyMatch rules ctx = true ↔ rules = [] ∨ 1 ≤ countMatches rules ctx := by
  have hcount : rules.any (·.isMatch ctx) = true ↔ 1 ≤ countMatches rules ctx := by
    rw [List.any_eq_true]
    exact List.countP_pos_iff.symm
  rw [anyMatch, Bool.or_eq_true, List.isEmpty_iff, hcount]

theorem program?_eq_some_iff {expression : String} {program : Program} :
    program? expression = some program ↔ Program.compile expression = .ok program := by
  unfold program?
  cases Program.compile expression <;> simp

/-- A rule mentions no variable of a module if no program read from it does. -/
theorem usesModuleVariables_eq_false_iff {r : Rule} :
    r.usesModuleVariables = false ↔ ∀ program, r.compile = .ok program →
      ∀ name ∈ program.freeVars, Program.isModuleVariable name = false := by
  have hreads : r.usesModuleVariables = false ↔
      ∀ program, program? r.expression = some program → program.usesModuleVariables = false := by
    rw [usesModuleVariables]
    cases program? r.expression <;> simp
  rw [hreads]
  refine forall_congr' fun program => ?_
  rw [program?_eq_some_iff, Program.usesModuleVariables, List.any_eq_false]
  simp only [Bool.not_eq_true]
  rfl

end Rule

namespace RuleSet

open Rule

theorem isEmpty_compile : (compile rules).isEmpty = true ↔ rules = [] := by
  simp [isEmpty, compile]

/-- The compiled rules are the rules that can be read, in their order. -/
theorem compiled_compile :
    (compile rules).compiled = rules.filterMap fun r => program? r.expression := by
  rw [compiled, compile, List.filterMap_map]
  rfl

/-- Looking for a compiled rule is looking for a rule that can be read. -/
theorem any_compiled_compile (test : Program → Bool) :
    (compile rules).compiled.any test = rules.any fun r => (program? r.expression).any test := by
  rw [compiled_compile, List.any_filterMap]
  rfl

/-- Compiled rules are counted like the rules that can be read. -/
theorem countP_compiled_compile (test : Program → Bool) :
    (compile rules).compiled.countP test =
      rules.countP fun r => (program? r.expression).any test := by
  rw [compiled_compile, List.countP_filterMap]
  congr 1
  funext r
  cases program? r.expression <;> rfl

theorem anyMatch_compile : (compile rules).anyMatch ctx = Rule.anyMatch rules ctx := by
  have hempty : (compile rules).isEmpty = rules.isEmpty := by
    simp [isEmpty, compile]
  simp only [anyMatch, Rule.anyMatch, hempty, any_compiled_compile, isMatch_eq_any]

theorem countMatches_compile :
    (compile rules).countMatches ctx = Rule.countMatches rules ctx := by
  simp only [countMatches, Rule.countMatches, countP_compiled_compile, isMatch_eq_any]

theorem usesModuleVariables_compile :
    (compile rules).usesModuleVariables = rules.any (·.usesModuleVariables) :=
  any_compiled_compile _

theorem anyMatchAcross_compile :
    (compile rules).anyMatchAcross project modules = true ↔ Admits rules project modules := by
  simp only [anyMatchAcross, projectRules, moduleRules, List.any_filter, any_compiled_compile,
    any_projectRule, any_moduleRule, Bool.or_eq_true, Bool.and_eq_true, Bool.not_eq_true',
    List.any_eq_true, isEmpty_compile, or_assoc, Admits]
  refine or_congr_right (or_congr_right ⟨?_, ?_⟩)
  · intro ⟨ctx, hctx, r, hr, huses, hmatch⟩
    exact ⟨r, hr, huses, ctx, hctx, hmatch⟩
  · intro ⟨r, hr, huses, ctx, hctx, hmatch⟩
    exact ⟨ctx, hctx, r, hr, huses, hmatch⟩

/-- Without rules that mention a variable of a module, only the project decides. -/
theorem anyMatch_compile_iff_admits (h : (compile rules).usesModuleVariables = false) :
    (compile rules).anyMatch project = true ↔ Admits rules project modules := by
  rw [usesModuleVariables_compile, List.any_eq_false] at h
  simp only [anyMatch_compile, Rule.anyMatch, Bool.or_eq_true, List.isEmpty_iff, List.any_eq_true,
    Admits]
  refine or_congr_right ⟨?_, ?_⟩
  · intro ⟨r, hr, hmatch⟩
    exact .inl ⟨r, hr, by simpa using h r hr, hmatch⟩
  · intro hadmits
    rcases hadmits with ⟨r, hr, -, hmatch⟩ | ⟨r, hr, huses, -⟩
    · exact ⟨r, hr, hmatch⟩
    · exact absurd huses (h r hr)

/-- Without rules that mention a variable of a module, the modules make no difference. -/
theorem anyMatchAcross_eq_anyMatch (h : (compile rules).usesModuleVariables = false) :
    (compile rules).anyMatchAcross project modules = Rule.anyMatch rules project := by
  rw [Bool.eq_iff_iff, anyMatchAcross_compile, ← anyMatch_compile_iff_admits h, anyMatch_compile]

/--
A compiled list of rules decides what its rules decide one by one, whether they can be read or
not: it matches where they do and counts as many matches. A list matches if it is empty or a rule
of it does. A list none of whose rules mentions a variable of a module matches a project with
any modules exactly where it matches the project.
-/
theorem compile_agrees (rules : List Rule) (ctx : Context) :
    (compile rules).anyMatch ctx = Rule.anyMatch rules ctx ∧
      (compile rules).countMatches ctx = Rule.countMatches rules ctx ∧
      (Rule.anyMatch rules ctx = true ↔ rules = [] ∨ 1 ≤ Rule.countMatches rules ctx) ∧
      ((∀ r ∈ rules, ∀ program, r.compile = .ok program →
          ∀ name ∈ program.freeVars, Program.isModuleVariable name = false) →
        ∀ modules, (compile rules).anyMatchAcross ctx modules = Rule.anyMatch rules ctx) := by
  refine ⟨anyMatch_compile, countMatches_compile, anyMatch_iff_countMatches, ?_⟩
  intro hreads modules
  have huses : (compile rules).usesModuleVariables = false := by
    rw [usesModuleVariables_compile, List.any_eq_false]
    intro r hr
    rw [usesModuleVariables_eq_false_iff.mpr (hreads r hr)]
    exact Bool.false_ne_true
  exact anyMatchAcross_eq_anyMatch huses

/-- One rule fails, one cannot be read and one matches: the set is not empty and counts one. -/
theorem compile_agrees_partly_broken :
    let rules : List Rule := [⟨"BRANCH < 1"⟩, ⟨"BRANCH =="⟩, ⟨"hasPrefix(BRANCH, \"ma\")"⟩]
    let ctx : Context := Dictionary.empty.insert "BRANCH" (.str "main")
    (compile rules).anyMatchAcross ctx [Dictionary.empty, ctx] = true ∧
      (compile rules).countMatches ctx = 1 := by
  intro rules ctx
  obtain ⟨-, hcount, -, hacross⟩ := compile_agrees rules ctx
  have hreads : ∀ r ∈ rules, r.usesModuleVariables = false := by
    decide +kernel
  have hmatch : Rule.anyMatch rules ctx = true := by
    decide +kernel
  have hone : Rule.countMatches rules ctx = 1 := by
    decide +kernel
  refine ⟨?_, hcount.trans hone⟩
  rw [hacross fun r hr => usesModuleVariables_eq_false_iff.mp (hreads r hr), hmatch]

end RuleSet
end Workplan
