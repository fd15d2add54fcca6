import Workplan.Proofs.Plan.Emission

/-!
# Plans can be carried out

A plan is carried out from front to back. Whatever a step waits for is a step of the plan that
stands before it, and steps are told apart by their ids, the numbers from zero on.
-/

namespace Workplan

variable {c : Catalog} {p : Project} {plan : Plan} {w : Workflow} {order : List Nat}

/-- A plan whose steps can be run one after the other in the order in which they are listed. -/
structure Plan.Executable (plan : Plan) : Prop where
  /-- The ids are the decimal texts of the numbers below the number of steps, each one once. -/
  ids : (plan.steps.map Step.id).Perm ((List.range plan.size).map toString)
  distinct : (plan.steps.map Step.id).Nodup
  order : ∀ (place : Nat) (s : Step), plan.steps[place]? = some s → s.order = place
  /-- Each entry of what a step waits for leads to an earlier step that runs the entry's action. -/
  earlier : ∀ s ∈ plan.steps, ∀ d ∈ s.runAfter,
    ∃ t, plan.step? d.id = some t ∧ t.action = d.action ∧ t.order < s.order
  ascending : ∀ s ∈ plan.steps, ∃ numbers : List Nat,
    numbers.Pairwise (· < ·) ∧ s.runAfter.map Dependency.id = numbers.map toString
  once : ∀ s ∈ plan.steps, (s.runAfter.map Dependency.id).Nodup
  others : ∀ s ∈ plan.steps, s.dependsOn s.id = false
  scope : ∀ s ∈ plan.steps, s.scope = .module ↔ s.module.isSome = true

namespace Catalog.Makes

variable (h : c.Makes p w order plan)

include h

theorem size_eq : plan.size = (c.emissions w p).length := by
  have hlength := congrArg List.length h.map_id
  simpa [Plan.size, h.perm.length_eq] using hlength

theorem order_eq (place : Nat) (s : Step) (hs : plan.steps[place]? = some s) : s.order = place := by
  rw [h.getElem?_steps] at hs
  obtain ⟨v, -, hs⟩ := Option.bind_eq_some_iff.mp hs
  obtain ⟨e, -, rfl⟩ := Option.map_eq_some_iff.mp hs
  rfl

theorem runAfter_ascending {s : Step} (hs : s ∈ plan.steps) :
    ∃ numbers : List Nat, numbers.Pairwise (· < ·) ∧
      s.runAfter.map Dependency.id = numbers.map toString := by
  obtain ⟨v, e, -, rfl⟩ := h.mem_steps_iff.mp hs
  exact Emission.dependencies_ascending _ e v

theorem exists_earlier {s : Step} (hs : s ∈ plan.steps) {d : Dependency} (hd : d ∈ s.runAfter) :
    ∃ t, plan.step? d.id = some t ∧ t.action = d.action ∧ t.order < s.order := by
  obtain ⟨v, e, he, rfl⟩ := h.mem_steps_iff.mp hs
  obtain ⟨u, f, hf, hne, hfeeds, rfl⟩ := Emission.mem_dependencies.mp hd
  refine ⟨_, h.step?_eq_some_iff.mpr ⟨h.mem_steps_iff.mpr ⟨u, f, hf, rfl⟩, rfl⟩, rfl, ?_⟩
  exact h.arranges.waits v u _ _
    (by rw [Catalog.getElem?_steps, he, Option.map_some])
    (by rw [Catalog.getElem?_steps, hf, Option.map_some])
    (Emission.dependsOn_toStep_iff.mpr ⟨hne, f, hf, hfeeds⟩)

end Catalog.Makes

theorem plan_executable (h : c.plan p = .ok plan) : plan.Executable := by
  obtain ⟨w, order, hmakes⟩ := Catalog.exists_makes h
  refine ⟨?_, hmakes.nodup_ids, hmakes.order_eq, fun s hs d hd => hmakes.exists_earlier hs hd,
    fun s hs => hmakes.runAfter_ascending hs, ?_, ?_, ?_⟩
  · rw [hmakes.map_id, hmakes.size_eq]
    exact hmakes.perm.map _
  · intro s hs
    obtain ⟨numbers, hnumbers, heq⟩ := hmakes.runAfter_ascending hs
    rw [heq]
    exact List.Nodup.map (fun u v => Emission.idAt_inj.mp) (hnumbers.imp Nat.ne_of_lt)
  · intro s hs
    obtain ⟨v, e, -, rfl⟩ := hmakes.mem_steps_iff.mp hs
    rw [Bool.eq_false_iff]
    intro hself
    exact (Emission.dependsOn_toStep_iff.mp hself).1 rfl
  · intro s hs
    obtain ⟨v, e, -, rfl⟩ := hmakes.mem_steps_iff.mp hs
    rw [Step.placedAt_scope, Emission.scope_toStep]
    simp [Emission.toStep, Emission.newStep]

/-- What is seen of a success is the success of something. -/
theorem exists_ok_of_toOption {ε α β : Type} {result : Except ε α} {f : α → β} {b : β}
    (h : result.toOption.map f = some b) : ∃ a, result = .ok a ∧ f a = b := by
  cases result with
  | error e => cases h
  | ok a => exact ⟨a, rfl, Option.some.inj h⟩

/-! ## A delivery that lists consumers first -/

namespace Delivery

def action (id : String) (scope : Scope) (rules inputs outputs : List String) : Action where
  id := "ci/" ++ id
  name := id
  category := ""
  scope
  rules := rules.map Rule.mk
  inputs := inputs.map (Artifact.mk · "file")
  outputs := outputs.map (Artifact.mk · "file")
  access := .none
  runner := .builtin

def reference (id : String) (rules : List String) : Reference :=
  ⟨"ci/" ++ id, rules.map Rule.mk, .null⟩

def definitions : Definitions where
  actions := [
    action "deploy" .project [] ["image", "report"] [],
    action "build" .project ["not false"] ["source"] ["image"],
    action "sign" .project [] ["source"] ["image"],
    action "test" .module ["(", "MODULE_NAME != \"docs\""] ["image"] ["report"],
    action "checkout" .project ["false"] [] ["source"]]
  workflows := [
    ⟨"nightly", [⟨"false"⟩], [⟨"ship", [], [reference "build" []]⟩]⟩,
    ⟨"release", [], [
      ⟨"ship", [], [reference "deploy" [], reference "build" []]⟩,
      ⟨"seal", [⟨"1 == 2"⟩], [reference "sign" []]⟩,
      ⟨"check", [], [reference "test" [], reference "checkout" ["MODULE_NAME == \"docs\""]]⟩]⟩]

def catalog : Catalog :=
  .ofValid definitions (by decide +kernel)

def project : Project where
  modules := [.named "m1" "api" "cargo", .named "m2" "docs" "make", .named "m3" "web" "npm"]
  directory := "/work"
  env := .empty

/-- The checkout comes last in the workflow and goes first. -/
theorem exists_plan : ∃ plan, catalog.plan project = .ok plan ∧
    (plan.steps.map fun s => (s.id, s.runAfter.map Dependency.id)) =
      [("4", []), ("1", ["4"]), ("0", ["1"]), ("2", ["1"]), ("3", ["1"])] := by
  exact exists_ok_of_toOption (by decide +kernel)

theorem executable_delivery : ∃ plan, catalog.plan project = .ok plan ∧
    (plan.steps.map fun s => (s.id, s.runAfter.map Dependency.id)) =
      [("4", []), ("1", ["4"]), ("0", ["1"]), ("2", ["1"]), ("3", ["1"])] ∧
    plan.Executable := by
  obtain ⟨plan, hplan, hsteps⟩ := exists_plan
  exact ⟨plan, hplan, hsteps, plan_executable hplan⟩

end Delivery

end Workplan
