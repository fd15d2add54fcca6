import Workplan.Proofs.Plan.Emission
import Workplan.Proofs.Plan.Verdict

/-!
# Why there is no plan

Planning fails for two reasons: no workflow applies to the project, or steps for the whole project
give each other artifacts in a circle. The ids of emitted steps are distinct and each entry of
what they wait for names one of them, so nothing else can go wrong when they are sorted. As no
step waits for itself, and none waits for a step for a module, a circle leads through at least two
steps, all of them for the whole project.
-/

namespace Workplan

open Relation (ReflTransGen TransGen)

/-! ## Paths and cycles without repetition -/

section Paths

variable {α : Type} {r : α → α → Prop} {a b : α}

/-- Cutting its detours short, a way becomes one that goes nowhere twice. -/
theorem exists_nodup_path (h : ReflTransGen r a b) :
    ∃ path : List α, path.head? = some a ∧ path.getLast? = some b ∧ path.Nodup ∧
      path.IsChain r := by
  induction h using ReflTransGen.head_induction_on with
  | refl => exact ⟨[b], rfl, rfl, List.nodup_singleton b, .singleton b⟩
  | @head a x hax _ ih =>
      obtain ⟨path, hhead, hlast, hnodup, hchain⟩ := ih
      by_cases ha : a ∈ path
      · obtain ⟨before, after, rfl⟩ := List.append_of_mem ha
        refine ⟨a :: after, rfl, ?_, (List.nodup_append.mp hnodup).2.1, hchain.right_of_append⟩
        simpa using hlast
      · refine ⟨a :: path, rfl, ?_, List.nodup_cons.mpr ⟨ha, hnodup⟩, ?_⟩
        · simp [List.getLast?_cons, hlast]
        · refine List.isChain_cons.mpr ⟨fun y hy => ?_, hchain⟩
          obtain rfl : x = y := by simpa [hhead] using hy
          exact hax

/-- What leads back to itself, though not at once, lies on a cycle without repetition. -/
theorem exists_nodup_cycle (hirrefl : ∀ x, ¬ r x x) (h : TransGen r a a) :
    ∃ rest : List α, (a :: rest).Nodup ∧ rest ≠ [] ∧ (a :: rest ++ [a]).IsChain r := by
  obtain ⟨x, hax, hxa⟩ := TransGen.head'_iff.mp h
  obtain ⟨path, hhead, hlast, hnodup, hchain⟩ := exists_nodup_path hxa
  obtain ⟨rest, rfl⟩ := List.getLast?_eq_some_iff.mp hlast
  refine ⟨rest, ?_, ?_, ?_⟩
  · exact (List.perm_append_singleton a rest).nodup_iff.mp hnodup
  · intro hnil
    obtain rfl : a = x := by simpa [hnil] using hhead
    exact hirrefl a hax
  · refine List.isChain_cons.mpr ⟨fun y hy => ?_, hchain⟩
    obtain rfl : x = y := by simpa [hhead] using hy
    exact hax

/-- All but the last one of a chain are related to something. -/
theorem exists_related_of_isChain {items : List α} (h : (items ++ [b]).IsChain r) :
    ∀ x ∈ items, ∃ y, r x y := by
  induction items with
  | nil => simp
  | cons a rest ih =>
      obtain ⟨hhead, hrest⟩ := List.isChain_cons.mp h
      intro x hx
      rcases List.mem_cons.mp hx with rfl | hx
      · obtain ⟨y, hy⟩ : ∃ y, (rest ++ [b]).head? = some y := by
          cases rest <;> simp
        exact ⟨y, hhead y hy⟩
      · exact ih hrest x hx

end Paths

variable {c : Catalog} {p : Project} {w : Workflow} {steps : List Step} {u v : Nat}

/-! ## Cycles of artifacts -/

namespace Catalog

/-- The action of the step at `u` gives an artifact that the action of the step at `v` takes. -/
def Supplies (c : Catalog) (steps : List Step) (u v : Nat) : Prop :=
  ∃ s t a b, steps[u]? = some s ∧ steps[v]? = some t ∧ c.action? s.action = some a ∧
    c.action? t.action = some b ∧ ∃ artifact ∈ a.outputs, artifact ∈ b.inputs

/-- The steps at `v` and at `rest` are at least two, all for the whole project, each one of which
supplies the next, and the last one the first. -/
structure SupplyCycle (c : Catalog) (steps : List Step) (v : Nat) (rest : List Nat) : Prop where
  distinct : (v :: rest).Nodup
  several : rest ≠ []
  project : ∀ u ∈ v :: rest, ∃ s, steps[u]? = some s ∧ s.scope = .project
  supplies : (v :: rest ++ [v]).IsChain (c.Supplies steps)

/-- When there is no plan, and which step a cycle is reported for. -/
structure Failing (c : Catalog) (p : Project) : Prop where
  no_duplicate : ∀ id, c.plan p ≠ .error (.duplicateStep id)
  no_unknown : ∀ step dependency, c.plan p ≠ .error (.unknownDependency step dependency)
  unselected : c.plan p = .error .noSuitableWorkflow ↔
    ∀ w ∈ c.workflows, Rule.anyMatch w.rules p.context = false
  exists_cyclic : ∀ w, c.selectWorkflow? p.context = some w →
    ((∃ id, c.plan p = .error (.cyclicDependency id)) ↔
      ∃ v rest, c.SupplyCycle (c.steps w p) v rest)
  cyclic : ∀ w, c.selectWorkflow? p.context = some w →
    ∀ id, c.plan p = .error (.cyclicDependency id) →
      ∃ v rest s, c.SupplyCycle (c.steps w p) v rest ∧ (c.steps w p)[v]? = some s ∧ s.id = id
  /-- What gives itself what it takes does not wait for itself. -/
  alone : ∀ w v, ¬ Step.Precedes (c.steps w p) v v
  /-- Steps for modules are on no cycle. -/
  modules : ∀ w v s, (c.steps w p)[v]? = some s → s.scope = .module →
    ¬ TransGen (Step.Precedes (c.steps w p)) v v

end Catalog

namespace Emission

variable {emissions : List Emission}

/-- The emission at `u` feeds the one at `v`, which is another one. -/
def Precedes (emissions : List Emission) (u v : Nat) : Prop :=
  u ≠ v ∧ ∃ f e, emissions[u]? = some f ∧ emissions[v]? = some e ∧ f.feeds e = true

theorem Precedes.exists_producer (h : Precedes emissions u v) :
    ∃ f, emissions[u]? = some f ∧ f.placement.action.scope = .project := by
  obtain ⟨-, f, e, hf, -, hfeeds⟩ := h
  exact ⟨f, hf, (feeds_iff.mp hfeeds).1⟩

theorem Precedes.exists_consumer (h : Precedes emissions u v) : ∃ e, emissions[v]? = some e := by
  obtain ⟨-, f, e, -, he, -⟩ := h
  exact ⟨e, he⟩

end Emission

namespace Catalog

/-! ## Steps as they are emitted -/

theorem map_id_steps :
    (c.steps w p).map Step.id = (List.range (c.emissions w p).length).map Emission.idAt := by
  refine List.ext_getElem? fun v => ?_
  rw [List.getElem?_map, getElem?_steps]
  by_cases hv : v < (c.emissions w p).length
  · simp [hv, Emission.toStep, Emission.newStep]
  · simp [hv]

theorem nodup_ids_steps : ((c.steps w p).map Step.id).Nodup := by
  rw [map_id_steps]
  exact List.Nodup.map (fun u v => Emission.idAt_inj.mp) List.nodup_range

theorem getElem?_steps_eq_some {s : Step} :
    (c.steps w p)[v]? = some s ↔
      ∃ e, (c.emissions w p)[v]? = some e ∧ e.toStep (c.emissions w p) v = s := by
  rw [getElem?_steps, Option.map_eq_some_iff]

theorem mem_steps_iff {s : Step} :
    s ∈ c.steps w p ↔ ∃ (v : Nat) (e : Emission),
      (c.emissions w p)[v]? = some e ∧ e.toStep (c.emissions w p) v = s := by
  simp only [List.mem_iff_getElem?, getElem?_steps_eq_some]

theorem resolved_steps : Step.Resolved (c.steps w p) := by
  intro s hs d hd
  obtain ⟨v, e, -, rfl⟩ := mem_steps_iff.mp hs
  obtain ⟨u, f, hf, -, -, rfl⟩ := Emission.mem_dependencies.mp hd
  exact ⟨_, mem_steps_iff.mpr ⟨u, f, hf, rfl⟩, rfl⟩

/-- One emission feeds another where its action gives what that of the other takes. -/
theorem supplies_steps_iff :
    c.Supplies (c.steps w p) u v ↔ ∃ e f, (c.emissions w p)[v]? = some e ∧
      (c.emissions w p)[u]? = some f ∧
        ∃ artifact ∈ f.placement.action.outputs, artifact ∈ e.placement.action.inputs := by
  constructor
  · intro h
    obtain ⟨s, t, a, b, hs, ht, ha, hb, hartifact⟩ := h
    obtain ⟨f, hf, rfl⟩ := getElem?_steps_eq_some.mp hs
    obtain ⟨e, he, rfl⟩ := getElem?_steps_eq_some.mp ht
    have hfirst := Emission.action?_of_mem (List.mem_of_getElem? hf)
    have hsecond := Emission.action?_of_mem (List.mem_of_getElem? he)
    obtain rfl := Option.some.inj (hfirst.symm.trans ha)
    obtain rfl := Option.some.inj (hsecond.symm.trans hb)
    exact ⟨e, f, he, hf, hartifact⟩
  · intro h
    obtain ⟨e, f, he, hf, hartifact⟩ := h
    exact ⟨_, _, _, _, getElem?_steps_eq_some.mpr ⟨f, hf, rfl⟩,
      getElem?_steps_eq_some.mpr ⟨e, he, rfl⟩, Emission.action?_of_mem (List.mem_of_getElem? hf),
      Emission.action?_of_mem (List.mem_of_getElem? he), hartifact⟩

theorem scope_steps_iff :
    (∃ s, (c.steps w p)[u]? = some s ∧ s.scope = .project) ↔
      ∃ f, (c.emissions w p)[u]? = some f ∧ f.placement.action.scope = .project := by
  constructor
  · intro h
    obtain ⟨s, hs, hscope⟩ := h
    obtain ⟨f, hf, rfl⟩ := getElem?_steps_eq_some.mp hs
    exact ⟨f, hf, Emission.scope_toStep_of_mem (List.mem_of_getElem? hf) u ▸ hscope⟩
  · intro h
    obtain ⟨f, hf, hscope⟩ := h
    exact ⟨_, getElem?_steps_eq_some.mpr ⟨f, hf, rfl⟩,
      (Emission.scope_toStep_of_mem (List.mem_of_getElem? hf) u).trans hscope⟩

theorem precedes_steps_eq (c : Catalog) (w : Workflow) (p : Project) :
    Step.Precedes (c.steps w p) = Emission.Precedes (c.emissions w p) := by
  funext u v
  refine propext ⟨?_, ?_⟩
  · intro ⟨s, t, hs, ht, hwaits⟩
    obtain ⟨e, he, rfl⟩ := getElem?_steps_eq_some.mp hs
    obtain ⟨f, hf, rfl⟩ := getElem?_steps_eq_some.mp ht
    obtain ⟨hne, x, hx, hfeeds⟩ := Emission.dependsOn_toStep_iff.mp hwaits
    exact ⟨hne, x, e, hx, he, hfeeds⟩
  · intro ⟨hne, f, e, hf, he, hfeeds⟩
    exact ⟨_, _, getElem?_steps_eq_some.mpr ⟨e, he, rfl⟩, getElem?_steps_eq_some.mpr ⟨f, hf, rfl⟩,
      Emission.dependsOn_toStep_iff.mpr ⟨hne, f, hf, hfeeds⟩⟩

/-- A step waits for the other steps for the whole project that supply it, and for no others. -/
theorem precedes_steps_iff :
    Step.Precedes (c.steps w p) u v ↔ u ≠ v ∧ c.Supplies (c.steps w p) u v ∧
      ∃ s, (c.steps w p)[u]? = some s ∧ s.scope = .project := by
  rw [precedes_steps_eq, supplies_steps_iff, scope_steps_iff]
  constructor
  · intro h
    obtain ⟨hne, f, e, hf, he, hfeeds⟩ := h
    obtain ⟨hscope, hartifact⟩ := Emission.feeds_iff.mp hfeeds
    exact ⟨hne, ⟨e, f, he, hf, hartifact⟩, f, hf, hscope⟩
  · intro h
    obtain ⟨hne, ⟨e, f, he, hf, hartifact⟩, x, hx, hscope⟩ := h
    obtain rfl := Option.some.inj (hx.symm.trans hf)
    exact ⟨hne, x, e, hx, he, Emission.feeds_iff.mpr ⟨hscope, hartifact⟩⟩

theorem not_precedes_self : ¬ Step.Precedes (c.steps w p) v v :=
  fun h => (precedes_steps_iff.mp h).1 rfl

/-- The cycles among steps are those of supplies. -/
theorem exists_supplyCycle_iff :
    (∃ rest, c.SupplyCycle (c.steps w p) v rest) ↔
      TransGen (Step.Precedes (c.steps w p)) v v := by
  constructor
  · intro h
    obtain ⟨rest, hdistinct, hseveral, hproject, hsupplies⟩ := h
    obtain ⟨x, later, rfl⟩ := List.exists_cons_of_ne_nil hseveral
    have hnodup : (x :: later ++ [v]).Nodup :=
      (List.perm_append_singleton v (x :: later)).nodup_iff.mpr hdistinct
    have hvx : v ≠ x := fun heq => (List.nodup_cons.mp hdistinct).1 (heq ▸ List.mem_cons_self)
    obtain ⟨hfirst, hlater⟩ := List.isChain_cons_cons.mp hsupplies
    have hchain : (x :: later ++ [v]).IsChain (Step.Precedes (c.steps w p)) := by
      refine List.isChain_iff_getElem.mpr fun i hi => precedes_steps_iff.mpr ⟨fun heq => ?_, ?_, ?_⟩
      · have hsame := (List.getElem_inj hnodup).mp heq
        omega
      · exact List.isChain_iff_getElem.mp hlater i hi
      · refine hproject _ ?_
        have hmem := List.getElem_mem (Nat.lt_of_succ_lt hi)
        exact (List.perm_append_singleton v (x :: later)).mem_iff.mp hmem
    have hback : ReflTransGen (Step.Precedes (c.steps w p)) x v :=
      List.relationReflTransGen_of_exists_isChain_cons (later ++ [v]) hchain (by simp)
    exact TransGen.head' (precedes_steps_iff.mpr
      ⟨hvx, hfirst, hproject v List.mem_cons_self⟩) hback
  · intro h
    obtain ⟨rest, hdistinct, hseveral, hchain⟩ := exists_nodup_cycle (fun x => not_precedes_self) h
    have hsupplies := hchain.imp fun u x hux => (precedes_steps_iff.mp hux).2.1
    refine ⟨rest, hdistinct, hseveral, ?_, hsupplies⟩
    intro u hu
    obtain ⟨x, hux⟩ := exists_related_of_isChain hchain u hu
    exact (precedes_steps_iff.mp hux).2.2

/-! ## Planning -/

theorem plan_eq_error_iff (hw : c.selectWorkflow? p.context = some w) {e : Plan.Error} :
    c.plan p = .error e ↔ Step.sort (c.steps w p) = .error e := by
  unfold Catalog.plan
  rw [hw]
  cases hsort : Step.sort (c.steps w p) <;> simp [hsort]

theorem judged_steps (c : Catalog) (w : Workflow) (p : Project) :
    Step.Judged (c.steps w p) (Step.sort (c.steps w p)) :=
  Step.judged_of_resolved nodup_ids_steps resolved_steps

/-- A failure of sorting is a cycle. -/
theorem exists_cyclic_of_sort_eq_error {e : Plan.Error} (h : Step.sort (c.steps w p) = .error e) :
    ∃ id, e = .cyclicDependency id := by
  rcases Step.sort_of_resolved nodup_ids_steps resolved_steps with
    ⟨v, s, -, -, hsort⟩ | ⟨-, sorted, hsort⟩
  · exact ⟨s.id, Except.error.inj (h.symm.trans hsort)⟩
  · simp [hsort] at h

theorem plan_eq_error {e : Plan.Error} (h : c.plan p = .error e) :
    e = .noSuitableWorkflow ∨ ∃ id, e = .cyclicDependency id := by
  cases hw : c.selectWorkflow? p.context with
  | none =>
      rw [Catalog.plan, hw] at h
      exact .inl (Except.error.inj h).symm
  | some w => exact .inr (exists_cyclic_of_sort_eq_error ((plan_eq_error_iff hw).mp h))

theorem plan_eq_noSuitableWorkflow :
    c.plan p = .error .noSuitableWorkflow ↔ c.selectWorkflow? p.context = none := by
  cases hw : c.selectWorkflow? p.context with
  | none => simp [Catalog.plan, hw]
  | some w =>
      rw [plan_eq_error_iff hw, iff_false_right (by simp)]
      intro hsort
      obtain ⟨id, hid⟩ := exists_cyclic_of_sort_eq_error hsort
      cases hid

theorem exists_cyclic_iff (hw : c.selectWorkflow? p.context = some w) :
    (∃ id, c.plan p = .error (.cyclicDependency id)) ↔
      ∃ v, TransGen (Emission.Precedes (c.emissions w p)) v v := by
  simp only [plan_eq_error_iff hw, (judged_steps c w p).exists_cyclic, nodup_ids_steps,
    resolved_steps, true_and, precedes_steps_eq]

theorem plan_of_selected (hw : c.selectWorkflow? p.context = some w) :
    (∃ id, c.plan p = .error (.cyclicDependency id)) ∨ ∃ plan, c.plan p = .ok plan := by
  cases hplan : c.plan p with
  | ok plan => exact .inr ⟨plan, rfl⟩
  | error e =>
      rcases plan_eq_error hplan with rfl | ⟨id, rfl⟩
      · rw [plan_eq_noSuitableWorkflow, hw] at hplan
        cases hplan
      · exact .inl ⟨id, rfl⟩

end Catalog

theorem plan_failing (c : Catalog) (p : Project) : c.Failing p where
  no_duplicate := by
    intro id h
    rcases Catalog.plan_eq_error h with he | ⟨other, he⟩ <;> cases he
  no_unknown := by
    intro step dependency h
    rcases Catalog.plan_eq_error h with he | ⟨other, he⟩ <;> cases he
  unselected := by
    rw [Catalog.plan_eq_noSuitableWorkflow, Catalog.selectWorkflow?, List.find?_eq_none]
    simp only [Bool.not_eq_true]
  exists_cyclic := by
    intro w hw
    simp only [Catalog.plan_eq_error_iff hw, Catalog.exists_supplyCycle_iff,
      (Catalog.judged_steps c w p).exists_cyclic, Catalog.nodup_ids_steps, Catalog.resolved_steps,
      true_and]
  cyclic := by
    intro w hw id h
    obtain ⟨v, s, hs, hid, hcycle⟩ :=
      (Catalog.judged_steps c w p).cyclic id ((Catalog.plan_eq_error_iff hw).mp h)
    obtain ⟨rest, hrest⟩ := Catalog.exists_supplyCycle_iff.mpr hcycle
    exact ⟨v, rest, s, hrest, hs, hid⟩
  alone := fun w v => Catalog.not_precedes_self
  modules := by
    intro w v s hs hscope hcycle
    obtain ⟨rest, hrest⟩ := Catalog.exists_supplyCycle_iff.mpr hcycle
    obtain ⟨t, ht, hproject⟩ := hrest.project v List.mem_cons_self
    obtain rfl := Option.some.inj (hs.symm.trans ht)
    rw [hproject] at hscope
    cases hscope

end Workplan
