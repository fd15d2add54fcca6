import Workplan.Dictionary
import Workplan.Text.Quoted

/-!
# Values of the rule language

What a rule expression evaluates to: nil, booleans, 64-bit integers, texts, lists, and maps
from text to text. Equality is structural and decidable.
-/

namespace Workplan
namespace Rule

inductive Kind where
  | nil
  | bool
  | int
  | string
  | list
  | map
deriving DecidableEq, Repr

namespace Kind

def name : Kind → String
  | nil => "nil"
  | bool => "bool"
  | int => "int"
  | string => "string"
  | list => "list"
  | map => "map"

end Kind

inductive Value where
  | nil
  | bool (value : Bool)
  | int (value : Int64)
  | str (value : String)
  | list (items : List Value)
  | map (entries : Dictionary String)
deriving Inhabited

namespace Value

def kind : Value → Kind
  | nil => .nil
  | bool _ => .bool
  | int _ => .int
  | str _ => .string
  | list _ => .list
  | map _ => .map

def asBool? : Value → Option Bool
  | bool b => some b
  | _ => none

def asStr? : Value → Option String
  | str s => some s
  | _ => none

mutual

def same : Value → Value → Bool
  | nil, nil => true
  | bool a, bool b => a == b
  | int a, int b => a == b
  | str a, str b => a == b
  | list a, list b => sameAll a b
  | map a, map b => decide (a = b)
  | _, _ => false

def sameAll : List Value → List Value → Bool
  | [], [] => true
  | a :: as, b :: bs => same a b && sameAll as bs
  | _, _ => false

end

mutual

theorem same_iff : (a b : Value) → (same a b = true ↔ a = b)
  | nil, b => by cases b <;> simp [same]
  | bool _, b => by cases b <;> simp [same]
  | int _, b => by cases b <;> simp [same]
  | str _, b => by cases b <;> simp [same]
  | list a, b => by cases b <;> simp [same, sameAll_iff a]
  | map _, b => by cases b <;> simp [same]

theorem sameAll_iff : (a b : List Value) → (sameAll a b = true ↔ a = b)
  | [], b => by cases b <;> simp [sameAll]
  | a :: as, b => by
    cases b with
    | nil => simp [sameAll]
    | cons b bs => simp [sameAll, same_iff a b, sameAll_iff as bs]

end

instance : DecidableEq Value := fun a b => decidable_of_iff _ (same_iff a b)

mutual

def display : Value → String
  | nil => "nil"
  | bool b => if b then "true" else "false"
  | int n => toString n.toInt
  | str s => Text.quote s
  | list items => "[" ++ ", ".intercalate (displayAll items) ++ "]"
  | map entries =>
    "\x7b" ++ ", ".intercalate
      (entries.toList.map fun entry => Text.quote entry.1 ++ ": " ++ Text.quote entry.2) ++ "\x7d"

def displayAll : List Value → List String
  | [] => []
  | item :: rest => display item :: displayAll rest

end

end Value
end Rule
end Workplan
