import Workplan.Plan.Basic
import Mathlib.Data.List.Induction

/-!
# Lines of a listing

A line of the listing of a plan shows one step: its place, its name and its action, then the
module that it is for and the steps that it waits for, if there are any. The place of a step can be
read off its line, so steps in different places never share a line.
-/

namespace Workplan
namespace Step

/-- How a line says which module a step is for. -/
inductive NamesModule : Option String → String → Prop where
  | none : NamesModule none ""
  | some (m : String) : NamesModule (some m) (", module " ++ m)

/-- How a line says which steps a step waits for. -/
inductive NamesWaits : List String → String → Prop where
  | none : NamesWaits [] ""
  | first (id : String) : NamesWaits [id] (" after " ++ id)
  | next {ids : List String} {text : String} (id : String) : ids ≠ [] → NamesWaits ids text →
      NamesWaits (ids ++ [id]) (text ++ ", " ++ id)

def ShownBy (s : Step) (line : String) : Prop :=
  ∃ place waits, NamesModule s.module place ∧ NamesWaits (s.runAfter.map Dependency.id) waits ∧
    line =
      "  [" ++ toString s.order ++ "] " ++ s.name ++ " (" ++ s.action ++ place ++ ")" ++ waits ++ "\n"

variable {s t : Step} {line : String}

theorem namesWaits_intercalate {ids : List String} (h : ids ≠ []) :
    NamesWaits ids (" after " ++ ", ".intercalate ids) := by
  induction ids using List.reverseRecOn with
  | nil => exact absurd rfl h
  | append_singleton ids id ih =>
      by_cases hids : ids = []
      · subst hids
        simpa using NamesWaits.first id
      · have hnext := NamesWaits.next id hids (ih hids)
        rw [String.intercalate_append_of_ne_nil hids (List.cons_ne_nil _ _),
          String.intercalate_singleton]
        simpa only [String.append_assoc] using hnext

theorem shownBy_line (s : Step) : s.ShownBy s.line := by
  refine ⟨_, _, ?place, ?waits, rfl⟩
  case place =>
    cases s.module with
    | none => exact .none
    | some m => exact .some m
  case waits =>
    cases s.runAfter with
    | nil => exact .none
    | cons d rest => exact namesWaits_intercalate (List.cons_ne_nil _ _)

/-- A step for a module, which waits for two steps. -/
example : Step.line ⟨"3", "test-api", "check", .module, "ci/test", some "m1",
    [⟨"1", "ci/build"⟩, ⟨"4", "ci/checkout"⟩], 3, .null⟩ =
      "  [3] test-api (ci/test, module m1) after 1, 4\n" := by
  decide +kernel

/-- The digits of the place end where the bracket closes. -/
theorem ShownBy.takeWhile_isDigit (h : s.ShownBy line) :
    (line.toList.drop 3).takeWhile Char.isDigit = Nat.toDigits 10 s.order := by
  obtain ⟨place, waits, -, -, rfl⟩ := h
  have hdigits : ∀ c ∈ Nat.toDigits 10 s.order, c.isDigit = true :=
    fun c hc => Nat.isDigit_of_mem_toDigits (by decide) (by decide) hc
  simp [List.takeWhile_append_of_pos hdigits]

/-- A line shows only steps in one place. -/
theorem ShownBy.order_eq (hs : s.ShownBy line) (ht : t.ShownBy line) : s.order = t.order :=
  calc
    s.order = Nat.ofDigitChars 10 (Nat.toDigits 10 s.order) 0 := Nat.ofDigitChars_ten_toDigits.symm
    _ = Nat.ofDigitChars 10 (Nat.toDigits 10 t.order) 0 := by
      rw [← hs.takeWhile_isDigit, ht.takeWhile_isDigit]
    _ = t.order := Nat.ofDigitChars_ten_toDigits

end Step
end Workplan
