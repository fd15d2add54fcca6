import Workplan.Rule.Error

/-!
# Evaluating expressions

A tree-walking evaluator. Operands are evaluated from left to right, and the first error wins;
`&&` and `||` stop at the first term that decides them.
-/

namespace Workplan
namespace Rule

abbrev Context := Dictionary Value

def expectBool (operation : Operation) (v : Value) : Except Error Bool :=
  match v with
  | .bool b => .ok b
  | v => .error (.typeMismatch operation (.single v.kind))

def mapValue (entries : Dictionary String) (key : String) : Value :=
  match entries.get? key with
  | some text => .str text
  | none => .nil

def itemAt (items : List Value) (index : Int64) : Except Error Value :=
  let position := index.toInt
  if position < 0 then .error (.indexOutOfRange index items.length)
  else
    match items[position.toNat]? with
    | some item => .ok item
    | none => .error (.indexOutOfRange index items.length)

def indexValue (base index : Value) : Except Error Value :=
  match base, index with
  | .map entries, .str key => .ok (mapValue entries key)
  | .list items, .int i => itemAt items i
  | base, index => .error (.typeMismatch .indexing (.indexed base.kind index.kind))

/-- Whether two values are equal, where they can be compared: one is nil or their kinds agree. -/
def equal? (left right : Value) : Option Bool :=
  if left = .nil ∨ right = .nil ∨ left.kind = right.kind then some (decide (left = right))
  else none

/-- How two values are ordered, where they are: integers, or texts by code points. -/
def order? (left right : Value) : Option Ordering :=
  match left, right with
  | .int a, .int b => some (compare a b)
  | .str a, .str b => some (compare a b)
  | _, _ => none

/-- Whether a container has an item: a list by equality, a map by key. -/
def memberOf? (item container : Value) : Option Bool :=
  match item, container with
  | item, .list items => some (items.contains item)
  | .str key, .map entries => some (entries.contains key)
  | _, _ => none

/-- What a comparison operator says of two values, where it takes them. -/
def Comparison.holds? (op : Comparison) (left right : Value) : Option Bool :=
  match op with
  | .eq => equal? left right
  | .ne => (equal? left right).map not
  | .lt => (order? left right).map (· == .lt)
  | .le => (order? left right).map (· != .gt)
  | .gt => (order? left right).map (· == .gt)
  | .ge => (order? left right).map (· != .lt)
  | .isIn => memberOf? left right
  | .notIn => (memberOf? left right).map not

def compareValues (op : Comparison) (left right : Value) : Except Error Value :=
  match op.holds? left right with
  | some b => .ok (.bool b)
  | none => .error (.typeMismatch (.comparison op) (.pair left.kind right.kind))

inductive Function where
  | contains
  | containsKey
  | getMapValue
  | hasPrefix
deriving DecidableEq

namespace Function

def ofName? : String → Option Function
  | "contains" => some contains
  | "containsKey" => some containsKey
  | "getMapValue" => some getMapValue
  | "hasPrefix" => some hasPrefix
  | _ => none

/-- What a function gives for two arguments, where it takes them. -/
def result? (f : Function) (first second : Value) : Option Value :=
  match f, first, second with
  | contains, .list items, item => some (.bool (items.contains item))
  | containsKey, .map entries, .str key => some (.bool (entries.contains key))
  | getMapValue, .map entries, .str key => some (.str ((entries.get? key).getD ""))
  | hasPrefix, .str text, .str start => some (.bool (start.toList.isPrefixOf text.toList))
  | _, _, _ => none

end Function

/-- The call of a function by name; every function takes two arguments. -/
def callFunction (name : String) (arguments : List Value) : Except Error Value :=
  match Function.ofName? name with
  | none => .error (.unknownFunction name)
  | some f =>
    match arguments with
    | [first, second] =>
      match f.result? first second with
      | some v => .ok v
      | none => .error (.typeMismatch (.function name) (.arguments [first.kind, second.kind]))
    | other => .error (.arity name 2 other.length)

def variableValue (ctx : Context) (name : String) : Except Error Value :=
  match ctx.get? name with
  | some v => .ok v
  | none => .error (.unknownVariable name)

namespace Expr

mutual

def eval (ctx : Context) : Expr → Except Error Value
  | literal value => .ok value.toValue
  | ident name => variableValue ctx name
  | list items => do
    let values ← evalAll ctx items
    return .list values
  | index base at_ => do
    let b ← eval ctx base
    let i ← eval ctx at_
    indexValue b i
  | member base field => do
    match ← eval ctx base with
    | .map entries => return mapValue entries field
    | other => .error (.typeMismatch (.member field) (.single other.kind))
  | call function arguments => do
    let values ← evalAll ctx arguments
    callFunction function values
  | negation operand => do
    let v ← eval ctx operand
    let b ← expectBool .negation v
    return .bool (!b)
  | compare op left right => do
    let l ← eval ctx left
    let r ← eval ctx right
    compareValues op l r
  | conjunction terms => evalConjunction ctx terms
  | disjunction terms => evalDisjunction ctx terms

def evalAll (ctx : Context) : List Expr → Except Error (List Value)
  | [] => .ok []
  | e :: rest => do
    let v ← eval ctx e
    let vs ← evalAll ctx rest
    return v :: vs

/-- Whether all terms are true, as far as the first that is not. -/
def evalConjunction (ctx : Context) : List Expr → Except Error Value
  | [] => .ok (.bool true)
  | e :: rest =>
    match eval ctx e with
    | .error err => .error err
    | .ok v =>
      match expectBool .conjunction v with
      | .error err => .error err
      | .ok false => .ok (.bool false)
      | .ok true => evalConjunction ctx rest

def evalDisjunction (ctx : Context) : List Expr → Except Error Value
  | [] => .ok (.bool false)
  | e :: rest =>
    match eval ctx e with
    | .error err => .error err
    | .ok v =>
      match expectBool .disjunction v with
      | .error err => .error err
      | .ok true => .ok (.bool true)
      | .ok false => evalDisjunction ctx rest

end

end Expr
end Rule
end Workplan
