import Workplan.Plan.Basic
import Workplan.Plan.Precedence

/-!
# Sorting steps

Steps are put into an order in which each one comes after the steps it waits for, and in which
otherwise the first step of the list comes first.
-/

namespace Workplan
namespace Step

/-- The first text of a list that occurred before; `seen` holds the texts before the list. -/
def firstRepeated? : (seen texts : List String) → Option String
  | _, [] => none
  | seen, t :: rest => if seen.contains t then some t else firstRepeated? (t :: seen) rest

def positions (ids : List String) (s : Step) : Except Plan.Error (List Nat) :=
  s.runAfter.foldlM (fun found d =>
    match ids.findIdx? (· == d.id) with
    | some v => .ok (if found.contains v then found else found ++ [v])
    | none => .error (.unknownDependency s.id d.id)) []

def precedence (steps : List Step) : Except Plan.Error Precedence :=
  match steps.mapM (positions (steps.map Step.id)) with
  | .ok before => .ok ⟨before.toArray⟩
  | .error e => .error e

/-- Takes the steps at positions out of their slots, each one with its new place, from `place` on. -/
def takeOut : (slots : Array (Option Step)) → (place : Nat) → (order : List Nat) → List Step
  | _, _, [] => []
  | slots, place, v :: rest =>
    match slots[v]?.join with
    | some s => { s with order := place } :: takeOut (slots.setIfInBounds v none) (place + 1) rest
    | none => takeOut slots (place + 1) rest

def arranged (steps : List Step) (order : List Nat) : List Step :=
  takeOut (steps.map some).toArray 0 order

def sort (steps : List Step) : Except Plan.Error (List Step) :=
  match firstRepeated? [] (steps.map Step.id) with
  | some id => .error (.duplicateStep id)
  | none =>
    match precedence steps with
    | .error e => .error e
    | .ok g =>
      match g.cycleMember? with
      | some v => .error (.cyclicDependency ((steps[v]?.map Step.id).getD ""))
      | none => .ok (arranged steps g.arrange)

end Step
end Workplan
