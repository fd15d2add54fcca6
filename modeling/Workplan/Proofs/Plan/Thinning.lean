import Workplan.Proofs.Plan.Failure
import Workplan.Proofs.Precedence.Thinning

/-!
# Leaving emissions out

Steps for modules give nothing to others. When emissions for modules are left out, and the others
are numbered anew without changing their order, each of the others still waits for the same ones,
nothing else lies on a cycle, and sorting puts the others into the same order.
-/

namespace Workplan

open Relation (TransGen)

variable {c : Catalog} {p q : Project} {w : Workflow}

namespace Emission

variable {emissions larger smaller : List Emission} {keep : Nat → Bool} {number : Nat → Nat}
  {e f : Emission} {u v x y : Nat}

/-- `smaller` is what remains of `larger` when the positions outside `keep` are left out, at which
nothing is emitted for the project. What stands at `v` there stood at `number v`. -/
structure Thins (larger smaller : List Emission) (keep : Nat → Bool) (number : Nat → Nat) :
    Prop where
  mono : StrictMono number
  kept : (larger.zipIdx.filter fun x => keep x.2) = smaller.zipIdx.map fun x => (x.1, number x.2)
  project : ∀ v e, larger[v]? = some e → e.placement.action.scope = .project → keep v = true

namespace Thins

variable (h : Thins larger smaller keep number)

include h

theorem kept_iff :
    larger[x]? = some e ∧ keep x = true ↔ ∃ v, smaller[v]? = some e ∧ number v = x := by
  have hmem : (e, x) ∈ larger.zipIdx.filter (fun x => keep x.2) ↔
      (e, x) ∈ smaller.zipIdx.map fun x => (x.1, number x.2) := by
    rw [h.kept]
  simpa [List.mem_zipIdx_iff_getElem?] using hmem

theorem getElem?_number (he : smaller[v]? = some e) : larger[number v]? = some e :=
  (h.kept_iff.mpr ⟨v, he, rfl⟩).1

theorem exists_of_project (hf : larger[x]? = some f)
    (hscope : f.placement.action.scope = .project) :
    ∃ u, smaller[u]? = some f ∧ number u = x :=
  h.kept_iff.mp ⟨hf, h.project x f hf hscope⟩

/-! ## Who waits for whom -/

theorem dependencies_number (e : Emission) (v : Nat) :
    dependencies larger e (number v) =
      (smaller.zipIdx.filter fun f => f.2 != v && f.1.feeds e).map fun f =>
        ⟨idAt (number f.2), f.1.placement.action.id⟩ := by
  have hfeeding : (larger.zipIdx.filter fun f => f.2 != number v && f.1.feeds e) =
      (larger.zipIdx.filter fun f => keep f.2).filter fun f =>
        f.2 != number v && f.1.feeds e := by
    -- what feeds anything is for the project, and so it is kept
    rw [List.filter_filter]
    apply List.filter_congr
    intro f hf
    have hf := List.mem_zipIdx_iff_getElem?.mp hf
    cases hfeeds : f.1.feeds e with
    | false => simp
    | true => simp [h.project f.2 f.1 hf (feeds_iff.mp hfeeds).1]
  rw [dependencies, hfeeding, h.kept, List.filter_map, List.map_map]
  congr 1
  apply List.filter_congr
  intro f _
  have hsame : (number f.2 != number v) = (f.2 != v) := by
    simp [bne, h.mono.injective.eq_iff]
  rw [Function.comp_apply, hsame]

theorem precedes_number_iff (hv : smaller[v]? = some e) :
    Precedes larger x (number v) ↔ ∃ u, number u = x ∧ Precedes smaller u v := by
  have hlarge := h.getElem?_number hv
  constructor
  · intro ⟨hne, f, other, hf, hother, hfeeds⟩
    obtain rfl := Option.some.inj (hlarge.symm.trans hother)
    obtain ⟨u, hu, rfl⟩ := h.exists_of_project hf (feeds_iff.mp hfeeds).1
    exact ⟨u, rfl, mt (congrArg number) hne, f, e, hu, hv, hfeeds⟩
  · intro ⟨u, hu, hne, f, other, hf, hother, hfeeds⟩
    obtain rfl := Option.some.inj (hv.symm.trans hother)
    subst hu
    exact ⟨h.mono.injective.ne hne, f, e, h.getElem?_number hf, hlarge, hfeeds⟩

/-! ## Cycles -/

/-- A way to something that is kept leads through nothing else. -/
theorem exists_transGen (hy : TransGen (Precedes larger) x y) (hv : smaller[v]? = some e)
    (heq : number v = y) : ∃ u, number u = x ∧ TransGen (Precedes smaller) u v := by
  -- from the end of the way backwards: what is before something is kept as well
  induction hy generalizing v e with
  | single hxy =>
      obtain ⟨u, hu, huv⟩ := (h.precedes_number_iff hv).mp (heq ▸ hxy)
      exact ⟨u, hu, .single huv⟩
  | tail _ hby ih =>
      obtain ⟨b, hb, hbv⟩ := (h.precedes_number_iff hv).mp (heq ▸ hby)
      obtain ⟨f, hf, -⟩ := hbv.exists_producer
      obtain ⟨u, hu, hub⟩ := ih hf hb
      exact ⟨u, hu, hub.tail hbv⟩

theorem exists_cycle_iff :
    (∃ x, TransGen (Precedes larger) x x) ↔ ∃ v, TransGen (Precedes smaller) v v := by
  constructor
  · intro ⟨x, hx⟩
    obtain ⟨y, hxy, -⟩ := TransGen.head'_iff.mp hx
    obtain ⟨f, hf, hscope⟩ := hxy.exists_producer
    obtain ⟨v, hv, hnumber⟩ := h.exists_of_project hf hscope
    obtain ⟨u, hu, huv⟩ := h.exists_transGen hx hv hnumber
    obtain rfl := h.mono.injective (hu.trans hnumber.symm)
    exact ⟨u, huv⟩
  · intro ⟨v, hv⟩
    refine ⟨number v, hv.lift number fun a b hab => ?_⟩
    obtain ⟨e, hb⟩ := hab.exists_consumer
    exact (h.precedes_number_iff hb).mpr ⟨a, rfl, hab⟩

end Thins
end Emission

/-! ## Graphs of steps -/

namespace Catalog

variable {keep : Nat → Bool} {number : Nat → Nat} {g larger smaller : Precedence}

theorem lt_size_precedence (h : Step.precedence (c.steps w p) = .ok g) {v : Nat} :
    v < g.size ↔ ∃ e, (c.emissions w p)[v]? = some e := by
  simp [(Step.precedence_ok h).1, length_steps, List.getElem?_eq_some_iff]

theorem before_precedence (h : Step.precedence (c.steps w p) = .ok g) :
    g.Before = Emission.Precedes (c.emissions w p) := by
  rw [← precedes_steps_eq]
  funext u v
  exact propext (Step.before_precedence_iff nodup_ids_steps h u v)

theorem thins_precedence (h : Emission.Thins (c.emissions w q) (c.emissions w p) keep number)
    (hlarger : Step.precedence (c.steps w q) = .ok larger)
    (hsmaller : Step.precedence (c.steps w p) = .ok smaller) :
    larger.Thins smaller keep number where
  mono := h.mono
  kept := by
    intro x
    simp only [lt_size_precedence hlarger, lt_size_precedence hsmaller]
    constructor
    · intro ⟨⟨e, hx⟩, hkeep⟩
      obtain ⟨v, hv, hnumber⟩ := h.kept_iff.mp ⟨hx, hkeep⟩
      exact ⟨v, ⟨e, hv⟩, hnumber⟩
    · intro ⟨v, ⟨e, hv⟩, hnumber⟩
      obtain ⟨hx, hkeep⟩ := h.kept_iff.mpr ⟨v, hv, hnumber⟩
      exact ⟨⟨e, hx⟩, hkeep⟩
  before := by
    intro v hv x
    obtain ⟨e, he⟩ := (lt_size_precedence hsmaller).mp hv
    simp only [before_precedence hlarger, before_precedence hsmaller,
      lt_size_precedence hsmaller, h.precedes_number_iff he]
    constructor
    · intro ⟨u, hu, hbefore⟩
      obtain ⟨f, hf, -⟩ := hbefore.exists_producer
      exact ⟨u, ⟨f, hf⟩, hu, hbefore⟩
    · intro ⟨u, _, hu, hbefore⟩
      exact ⟨u, hu, hbefore⟩
  bounded := by
    intro u v hbefore
    rw [before_precedence hsmaller] at hbefore
    obtain ⟨f, hf, -⟩ := hbefore.exists_producer
    exact (lt_size_precedence hsmaller).mpr ⟨f, hf⟩

end Catalog

/-! ## Outcomes -/

def Project.withModules (p : Project) (modules : List Module) : Project :=
  { p with modules }

namespace Project

@[simp] theorem modules_withModules (p : Project) (modules : List Module) :
    (p.withModules modules).modules = modules := rfl

@[simp] theorem context_withModules (p : Project) (modules : List Module) :
    (p.withModules modules).context = p.context := rfl

@[simp] theorem moduleContexts_withModules (p : Project) (modules : List Module) :
    (p.withModules modules).moduleContexts = modules.map fun m => (m, p.moduleContext m) := rfl

end Project

/-- Two outcomes of planning are alike: both are plans, which `R` relates, or both are errors of
one variant. -/
inductive Plan.Alike (R : Plan → Plan → Prop) :
    Except Plan.Error Plan → Except Plan.Error Plan → Prop where
  | plan {plan other : Plan} (h : R plan other) : Alike R (.ok plan) (.ok other)
  | error {e f : Plan.Error} (h : e.ctorIdx = f.ctorIdx) : Alike R (.error e) (.error f)

namespace Catalog

/-- Lists of modules are planned for alike if either both have a cycle or none has, and if so are
the plans that are made. -/
theorem plan_alike {R : Plan → Plan → Prop} {modules others : List Module}
    (hcycle : ∀ w, c.selectWorkflow? p.context = some w →
      ((∃ v, TransGen (Emission.Precedes (c.emissions w (p.withModules modules))) v v) ↔
        ∃ v, TransGen (Emission.Precedes (c.emissions w (p.withModules others))) v v))
    (hplans : ∀ plan other, c.plan (p.withModules modules) = .ok plan →
      c.plan (p.withModules others) = .ok other → R plan other) :
    Plan.Alike R (c.plan (p.withModules modules)) (c.plan (p.withModules others)) := by
  cases hw : c.selectWorkflow? p.context with
  | none =>
      have hunplanned : ∀ modules, c.plan (p.withModules modules) = .error .noSuitableWorkflow :=
        fun modules => plan_eq_noSuitableWorkflow.mpr hw
      rw [hunplanned, hunplanned]
      exact .error rfl
  | some w =>
      have hselected : ∀ modules, c.selectWorkflow? (p.withModules modules).context = some w :=
        fun modules => hw
      have hcyclic := (exists_cyclic_iff (hselected modules)).trans
        ((hcycle w hw).trans (exists_cyclic_iff (hselected others)).symm)
      rcases plan_of_selected (hselected modules) with ⟨id, hp⟩ | ⟨plan, hp⟩
      · obtain ⟨other, hq⟩ := hcyclic.mp ⟨id, hp⟩
        rw [hp, hq]
        exact .error rfl
      · rcases plan_of_selected (hselected others) with ⟨id, hq⟩ | ⟨other, hq⟩
        · obtain ⟨other, herror⟩ := hcyclic.mpr ⟨id, hq⟩
          rw [hp] at herror
          cases herror
        · rw [hp, hq]
          exact .plan (hplans plan other hp hq)

end Catalog
end Workplan
