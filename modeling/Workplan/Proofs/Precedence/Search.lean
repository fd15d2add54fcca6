import Workplan.Proofs.Precedence.Basic
import Mathlib.Data.List.Basic

/-!
# Searching for cycles

A visit only adds to what was entered and finished, and whatever it enters it also finishes
(`Extends`). So the search finishes every position, and where it meets no loop and no edge back
to a position that finished later, the order in which positions finished, the last one first,
keeps to the precedence. Then nothing waits for itself.
-/

namespace Workplan
namespace Precedence

variable {g : Precedence} {successors : Nat → List Nat} {s t u : Search} {p v : Nat}

/-- `t` is a state that visits lead to from `s`. -/
structure Search.Extends (successors : Nat → List Nat) (s t : Search) : Prop where
  entered : s.entered ⊆ t.entered
  finished : s.finished ⊆ t.finished
  closed : ∀ v ∈ t.entered, v ∈ s.entered ∨ v ∈ t.finished
  loop : t.loop = none → s.loop = none
  loopless : t.loop = none → ∀ v ∈ t.entered, v ∈ s.entered ∨ v ∉ successors v

namespace Search.Extends

theorem refl (s : Search) : Extends successors s s where
  entered := List.Subset.refl _
  finished := List.Subset.refl _
  closed := fun _ h => .inl h
  loop := id
  loopless := fun _ _ h => .inl h

theorem trans (hst : Extends successors s t) (htu : Extends successors t u) :
    Extends successors s u where
  entered := List.Subset.trans hst.entered htu.entered
  finished := List.Subset.trans hst.finished htu.finished
  closed := by
    intro v hv
    rcases htu.closed v hv with hv | hv
    · exact (hst.closed v hv).imp_right fun h => htu.finished h
    · exact .inr hv
  loop := fun h => hst.loop (htu.loop h)
  loopless := by
    intro hnone v hv
    rcases htu.loopless hnone v hv with hv | hv
    · exact hst.loopless (htu.loop hnone) v hv
    · exact .inr hv

/-- Visits one after the other extend a state if each of them does. -/
theorem foldl {visit : Search → Nat → Search} (h : ∀ s v, Extends successors s (visit s v))
    (positions : List Nat) (s : Search) : Extends successors s (positions.foldl visit s) := by
  induction positions generalizing s with
  | nil => exact refl s
  | cons v rest ih => exact (h s v).trans (ih (visit s v))

end Search.Extends

theorem visit_extends (successors : Nat → List Nat) (depth : Nat) (s : Search) (v : Nat) :
    Search.Extends successors s (visit successors depth s v) := by
  induction depth generalizing s v with
  | zero => exact .refl s
  | succ depth ih =>
      rw [visit]
      split
      · exact .refl s
      · -- between entering and leaving `v` the state is extended by the visits to its successors
        have hinner := Search.Extends.foldl ih (successors v)
          ⟨v :: s.entered, s.finished, s.loop.or (if (successors v).contains v then some v else none)⟩
        refine ⟨?_, ?_, ?_, ?_, ?_⟩
        · exact fun x hx => hinner.entered (List.mem_cons_of_mem _ hx)
        · exact fun x hx => List.mem_cons_of_mem _ (hinner.finished hx)
        · intro x hx
          rcases hinner.closed x hx with hx | hx
          · rcases List.mem_cons.mp hx with rfl | hx
            · exact .inr List.mem_cons_self
            · exact .inl hx
          · exact .inr (List.mem_cons_of_mem _ hx)
        · intro hnone
          exact (Option.or_eq_none_iff.mp (hinner.loop hnone)).1
        · intro hnone x hx
          rcases hinner.loopless hnone x hx with hx | hx
          · rcases List.mem_cons.mp hx with rfl | hx
            · have hloop := (Option.or_eq_none_iff.mp (hinner.loop hnone)).2
              exact .inr (by simpa using hloop)
            · exact .inl hx
          · exact .inr hx

/-- A visit enters its position. -/
theorem mem_entered_visit (successors : Nat → List Nat) (depth : Nat) (s : Search) (v : Nat) :
    v ∈ (visit successors (depth + 1) s v).entered := by
  rw [visit]
  split
  · next h => simpa using h
  · exact (Search.Extends.foldl (visit_extends successors depth) _ _).entered List.mem_cons_self

/-! ## The whole search -/

theorem search_eq (hg : g.WellFormed) :
    g.search = (List.range g.size).foldl (visit g.successors g.size) .start := by
  have htable := getElem?_successorTable hg
  simp only [search, htable]

theorem search_extends (hg : g.WellFormed) : Search.Extends g.successors .start g.search := by
  rw [search_eq hg]
  exact Search.Extends.foldl (visit_extends g.successors g.size) _ _

theorem mem_entered_search (hg : g.WellFormed) (hv : v < g.size) : v ∈ g.search.entered := by
  obtain ⟨before, after, hrange⟩ := List.append_of_mem (List.mem_range.mpr hv)
  obtain ⟨depth, hdepth⟩ : ∃ n, g.size = n + 1 := ⟨g.size - 1, by omega⟩
  rw [search_eq hg, hrange, List.foldl_append, List.foldl_cons, hdepth]
  have hlater := Search.Extends.foldl (visit_extends g.successors (depth + 1)) after
  exact (hlater _).entered (mem_entered_visit g.successors depth _ v)

theorem mem_finished_search (hg : g.WellFormed) (hv : v < g.size) : v ∈ g.search.finished :=
  ((search_extends hg).closed v (mem_entered_search hg hv)).resolve_left List.not_mem_nil

theorem not_before_self (hg : g.WellFormed) (h : g.search.loop = none) : ¬ g.Before v v := by
  intro hloop
  have hv := mem_entered_search hg hloop.lt_size
  have hnot := ((search_extends hg).loopless h v hv).resolve_left List.not_mem_nil
  exact hnot (mem_successors.mpr hloop)

/-- Without a back edge, all that comes before a position finished later than it. -/
theorem idxOf_lt_of_backEdge?_eq_none {earlier finished : List Nat}
    (h : g.backEdge? earlier finished = none) (hv : v ∈ finished) (hp : g.Before p v)
    (hne : p ≠ v) : p ∈ earlier ∨ finished.idxOf p < finished.idxOf v := by
  induction finished generalizing earlier with
  | nil => simp at hv
  | cons x rest ih =>
      unfold backEdge? at h
      split at h
      · simp at h
      · next hnone =>
        by_cases hxv : x = v
        · subst hxv
          have hall := List.find?_eq_none.mp hnone p hp
          exact .inl (by simpa [hne] using hall)
        · have hrest : v ∈ rest := (List.mem_cons.mp hv).resolve_left (Ne.symm hxv)
          rw [List.idxOf_cons_ne _ hxv]
          by_cases hxp : x = p
          · simp [hxp]
          · rw [List.idxOf_cons_ne _ hxp]
            rcases ih h hrest with hearlier | hlt
            · exact .inl ((List.mem_cons.mp hearlier).resolve_left (Ne.symm hxp))
            · exact .inr (Nat.succ_lt_succ hlt)

/-- Where the search finds no cycle, no position waits for itself, not even through others. -/
theorem wellFounded_before (hg : g.WellFormed) (h : g.cycleMember? = none) :
    WellFounded g.Before := by
  obtain ⟨hloop, hback⟩ : g.search.loop = none ∧ g.backEdge? [] g.search.finished = none := by
    unfold cycleMember? at h
    cases hloop : g.search.loop with
    | none => exact ⟨rfl, by simpa [hloop] using h⟩
    | some v => simp [hloop] at h
  refine Subrelation.wf ?_ (measure fun v => g.search.finished.idxOf v).wf
  intro p v hp
  have hne : p ≠ v := by
    intro hsame
    subst hsame
    exact not_before_self hg hloop hp
  have hlt := idxOf_lt_of_backEdge?_eq_none hback (mem_finished_search hg hp.lt_size) hp hne
  exact hlt.resolve_left List.not_mem_nil

end Precedence
end Workplan
