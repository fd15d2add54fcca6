import Workplan.Rule.Expr

/-!
# What can go wrong with a rule

The causes for which a rule text is not an expression, the causes for which an expression has
no value, and the message of each.
-/

namespace Workplan
namespace Rule

def maxNesting : Nat := 64

inductive SyntaxError where
  /-- More levels are opened than the limit allows. -/
  | tooDeep
  /-- No expression begins at `rest`, the text without its leading blanks. -/
  | noTerm (rest : String)
  /-- As `noTerm`, where `rest` begins with a reserved word. -/
  | reservedWord (rest : String)
  /-- An expression ends before `rest`, which cannot follow it. -/
  | leftOver (rest : String)
deriving DecidableEq

namespace SyntaxError

def report (rest code : String) : String :=
  "Parsing Error: Error \x7b input: " ++ Text.quote rest ++ ", code: " ++ code ++ " \x7d"

def message : SyntaxError → String
  | tooDeep => "nesting deeper than " ++ toString maxNesting ++ " levels"
  | noTerm rest => report rest "Satisfy"
  | reservedWord rest => report rest "Verify"
  | leftOver rest => report rest "Eof"

end SyntaxError

/-- The operations that check the kinds of their operands. -/
inductive Operation where
  | negation
  | conjunction
  | disjunction
  | comparison (op : Comparison)
  | indexing
  | member (field : String)
  | function (name : String)
deriving DecidableEq

namespace Operation

def name : Operation → String
  | negation => "!"
  | conjunction => "&&"
  | disjunction => "||"
  | comparison op => op.symbol
  | indexing => "[]"
  | member field => "." ++ field
  | function name => name

end Operation

inductive Operands where
  | single (kind : Kind)
  | pair (left right : Kind)
  | indexed (base at_ : Kind)
  | arguments (kinds : List Kind)
deriving DecidableEq

namespace Operands

def describe : Operands → String
  | single kind => kind.name
  | pair left right => left.name ++ " and " ++ right.name
  | indexed base at_ => base.name ++ "[" ++ at_.name ++ "]"
  | arguments kinds => ", ".intercalate (kinds.map Kind.name)

end Operands

inductive Error where
  | malformed (source : String) (cause : SyntaxError)
  | unknownVariable (name : String)
  | unknownFunction (name : String)
  | arity (function : String) (expected found : Nat)
  | typeMismatch (operation : Operation) (found : Operands)
  | indexOutOfRange (index : Int64) (length : Nat)
  | notBoolean (found : Kind)
deriving DecidableEq

namespace Error

def message : Error → String
  | malformed source cause => "invalid rule expression '" ++ source ++ "': " ++ cause.message
  | unknownVariable name => "unknown variable '" ++ name ++ "'"
  | unknownFunction name => "unknown function '" ++ name ++ "'"
  | arity function expected found =>
    "function '" ++ function ++ "' expects " ++ toString expected ++ " argument(s), got " ++
      toString found
  | typeMismatch operation found =>
    "type mismatch in " ++ operation.name ++ ": got " ++ found.describe
  | indexOutOfRange index length =>
    "index " ++ toString index.toInt ++ " out of range for list of length " ++ toString length
  | notBoolean found => "rule must evaluate to a boolean, got " ++ found.name

end Error
end Rule
end Workplan
