import Workplan.Rule.Program

/-!
# Lists of rules as gates

A gate is a list of rules of which one has to match; the empty list lets everything pass. Rules
can be run one by one, or compiled once into a `RuleSet` and run in many contexts.
-/

namespace Workplan

structure Rule where
  expression : String
deriving DecidableEq, Inhabited

namespace Rule

def compile (r : Rule) : Except Error Program :=
  Program.compile r.expression

/-- Whether a rule matches; one that cannot be read, or fails, does not. -/
def isMatch (r : Rule) (ctx : Context) : Bool :=
  evaluate r.expression ctx

/-- Whether a rule can be read and mentions a variable of a module. -/
def usesModuleVariables (r : Rule) : Bool :=
  (program? r.expression).any (·.usesModuleVariables)

/-- Whether some rule of a list matches. An empty list always matches. -/
def anyMatch (rules : List Rule) (ctx : Context) : Bool :=
  rules.isEmpty || rules.any (·.isMatch ctx)

def countMatches (rules : List Rule) (ctx : Context) : Nat :=
  rules.countP (·.isMatch ctx)

end Rule

/--
Rules compiled once for many contexts. A rule that cannot be read keeps its place, as `none`,
and never matches.
-/
structure RuleSet where
  programs : List (Option Rule.Program)

namespace RuleSet

open Rule

def compile (rules : List Rule) : RuleSet :=
  ⟨rules.map fun r => program? r.expression⟩

/-- The number of rules, those that cannot be read included. -/
def size (s : RuleSet) : Nat :=
  s.programs.length

def isEmpty (s : RuleSet) : Bool :=
  s.programs.isEmpty

def compiled (s : RuleSet) : List Program :=
  s.programs.filterMap id

def anyMatch (s : RuleSet) (ctx : Context) : Bool :=
  s.isEmpty || s.compiled.any (·.isMatch ctx)

def countMatches (s : RuleSet) (ctx : Context) : Nat :=
  s.compiled.countP (·.isMatch ctx)

def moduleRules (s : RuleSet) : List Program :=
  s.compiled.filter (·.usesModuleVariables)

/-- The rules that can be read and mention no variable of a module. -/
def projectRules (s : RuleSet) : List Program :=
  s.compiled.filter (!·.usesModuleVariables)

def usesModuleVariables (s : RuleSet) : Bool :=
  s.compiled.any (·.usesModuleVariables)

/--
Whether some rule matches a project with its modules: a rule that mentions a variable of a
module is run for each module, any other rule for the project.
-/
def anyMatchAcross (s : RuleSet) (project : Context) (modules : List Context) : Bool :=
  let moduleRules := s.moduleRules
  s.isEmpty || s.projectRules.any (·.isMatch project) ||
    modules.any fun ctx => moduleRules.any (·.isMatch ctx)

end RuleSet
end Workplan
