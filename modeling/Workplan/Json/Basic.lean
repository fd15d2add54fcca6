import Workplan.Dictionary
import Workplan.Json.Number

/-!
# Json values

A value as data files and answers hold it. Objects are lists of members; an object is in order
when its keys strictly increase, at every depth.
-/

namespace Workplan

inductive Json where
  | null
  | bool (value : Bool)
  | number (value : Number)
  | text (value : String)
  | array (items : List Json)
  | object (members : List (String × Json))
deriving Inhabited

namespace Json

mutual

/-- The keys of every object inside a value strictly increase. -/
def IsOrdered : Json → Prop
  | array items => AllOrdered items
  | object members => members.Pairwise (fun a b => a.1 < b.1) ∧ MembersOrdered members
  | _ => True

def AllOrdered : List Json → Prop
  | [] => True
  | item :: rest => IsOrdered item ∧ AllOrdered rest

def MembersOrdered : List (String × Json) → Prop
  | [] => True
  | (_, value) :: rest => IsOrdered value ∧ MembersOrdered rest

end

def ofInt (n : Int) : Json := number (.integer n)

def ofNat (n : Nat) : Json := ofInt n

def ofTexts (texts : List String) : Json := array (texts.map text)

/-- The member of an object under a key; of several the last. -/
def member? (key : String) : Json → Option Json
  | object members => (members.reverse.find? fun m => m.1 == key).map (·.2)
  | _ => none

end Json
end Workplan
