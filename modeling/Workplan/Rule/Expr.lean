import Workplan.Rule.Value

/-!
# Expressions of the rule language

The tree of a rule, its variables, and the text form of the tree that tools print.
-/

namespace Workplan
namespace Rule

inductive Comparison where
  | eq
  | ne
  | lt
  | le
  | gt
  | ge
  | isIn
  | notIn
deriving DecidableEq, Repr

namespace Comparison

def symbol : Comparison → String
  | eq => "=="
  | ne => "!="
  | lt => "<"
  | le => "<="
  | gt => ">"
  | ge => ">="
  | isIn => "in"
  | notIn => "not in"

end Comparison

inductive Literal where
  | nil
  | bool (value : Bool)
  | int (value : Int64)
  | str (value : String)
deriving DecidableEq

namespace Literal

def toValue : Literal → Value
  | nil => .nil
  | bool b => .bool b
  | int n => .int n
  | str s => .str s

end Literal

/-- The tree of a rule. Chains of one logical operator are flat. -/
inductive Expr where
  | literal (value : Literal)
  | ident (name : String)
  | list (items : List Expr)
  | index (base : Expr) (at_ : Expr)
  | member (base : Expr) (field : String)
  | call (function : String) (arguments : List Expr)
  | negation (operand : Expr)
  | compare (op : Comparison) (left right : Expr)
  | conjunction (terms : List Expr)
  | disjunction (terms : List Expr)
deriving Inhabited

namespace Expr

mutual

/-- The variables that an expression mentions, in order and with repetition. -/
def mentions : Expr → List String
  | literal _ => []
  | ident name => [name]
  | list items => mentionsAll items
  | index base at_ => mentions base ++ mentions at_
  | member base _ => mentions base
  | call _ arguments => mentionsAll arguments
  | negation operand => mentions operand
  | compare _ left right => mentions left ++ mentions right
  | conjunction terms => mentionsAll terms
  | disjunction terms => mentionsAll terms

def mentionsAll : List Expr → List String
  | [] => []
  | e :: rest => mentions e ++ mentionsAll rest

end

def insertName (name : String) : List String → List String
  | [] => [name]
  | other :: rest =>
    if name = other then other :: rest
    else if name < other then name :: other :: rest
    else other :: insertName name rest

/-- The variables that an expression mentions, each once and in increasing order. -/
def freeVars (e : Expr) : List String :=
  e.mentions.foldl (fun names name => insertName name names) []

def parenthesized (parts : List String) : String :=
  "(" ++ " ".intercalate parts ++ ")"

mutual

/-- The tree as text, every node in parentheses with its operator in front. -/
def outline : Expr → String
  | literal value =>
    let v := value.toValue
    v.kind.name ++ ":" ++ v.display
  | ident name => name
  | list items => parenthesized ("list" :: outlineAll items)
  | index base at_ => parenthesized ["[]", outline base, outline at_]
  | member base field => parenthesized [".", outline base, field]
  | call function arguments => parenthesized ("call" :: function :: outlineAll arguments)
  | negation operand => parenthesized ["!", outline operand]
  | compare op left right =>
    let symbol := if op = .notIn then "not-in" else op.symbol
    parenthesized [symbol, outline left, outline right]
  | conjunction terms => parenthesized ("and" :: outlineAll terms)
  | disjunction terms => parenthesized ("or" :: outlineAll terms)

def outlineAll : List Expr → List String
  | [] => []
  | e :: rest => outline e :: outlineAll rest

end

end Expr
end Rule
end Workplan
