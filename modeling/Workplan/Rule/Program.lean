import Workplan.Rule.Eval
import Workplan.Rule.Parser

/-!
# Compiled rules

A program is a rule text together with its expression. Running it gives a value or an error;
as a gate it either matches or does not, and an error counts as no match.
-/

namespace Workplan
namespace Rule

structure Program where
  source : String
  expr : Expr

namespace Program

def compile (source : String) : Except Error Program :=
  match Expr.parse source with
  | .ok expr => .ok ⟨source, expr⟩
  | .error cause => .error (.malformed source cause)

def freeVars (p : Program) : List String :=
  p.expr.freeVars

def moduleNameStart : String := "MODULE_"

def isModuleVariable (name : String) : Bool :=
  moduleNameStart.toList.isPrefixOf name.toList

def usesModuleVariables (p : Program) : Bool :=
  p.freeVars.any isModuleVariable

def run (p : Program) (ctx : Context) : Except Error Value :=
  p.expr.eval ctx

def outcome (v : Value) : Except Error Bool :=
  match v with
  | .bool b => .ok b
  | v => .error (.notBoolean v.kind)

def decides (p : Program) (ctx : Context) : Except Error Bool :=
  match p.run ctx with
  | .ok v => outcome v
  | .error e => .error e

/-- Whether a program matches, where any error counts as no match. -/
def isMatch (p : Program) (ctx : Context) : Bool :=
  match p.decides ctx with
  | .ok b => b
  | .error _ => false

end Program

def program? (expression : String) : Option Program :=
  match Program.compile expression with
  | .ok p => some p
  | .error _ => none

/-- Whether a rule text matches; one that cannot be read, or fails, does not. -/
def evaluate (expression : String) (ctx : Context) : Bool :=
  match program? expression with
  | some p => p.isMatch ctx
  | none => false

end Rule
end Workplan
