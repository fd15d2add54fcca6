import Workplan.Plan.Precedence

/-!
# Who comes before whom

The precedence as a relation between positions, from both ends: the positions before one, as they
are given, and the positions that one comes before, as they are looked up.
-/

namespace Workplan
namespace Precedence

variable {g : Precedence} {p v : Nat}

/-- What stands before a position are other places of the list, each one once. -/
structure WellFormed (g : Precedence) : Prop where
  lt_size : ∀ v, ∀ p ∈ g.predecessors v, p < g.size
  nodup : ∀ v, (g.predecessors v).Nodup

def Before (g : Precedence) (p v : Nat) : Prop :=
  p ∈ g.predecessors v

/-- Only places of the list have others before them. -/
theorem Before.lt_size (h : g.Before p v) : v < g.size := by
  by_cases hv : v < g.size
  · exact hv
  · simp [Before, predecessors, Array.getElem?_eq_none (Nat.le_of_not_lt hv)] at h

theorem mem_successors : v ∈ g.successors p ↔ g.Before p v := by
  simp only [successors, List.mem_filter, List.mem_range, List.contains_iff_mem]
  exact ⟨fun h => h.2, fun h => ⟨h.lt_size, h⟩⟩

theorem nodup_successors (g : Precedence) (p : Nat) : (g.successors p).Nodup :=
  List.nodup_range.filter _

theorem getElem?_successorTable (hg : g.WellFormed) :
    (fun v => g.successorTable[v]?.getD []) = g.successors := by
  funext v
  by_cases hv : v < g.size
  · simp [successorTable, List.getElem?_range hv]
  · have hnone : g.successors v = [] := by
      refine List.eq_nil_iff_forall_not_mem.mpr fun w hw => ?_
      exact hv (hg.lt_size w v (mem_successors.mp hw))
    simp [successorTable, hnone, Nat.le_of_not_lt hv]

end Precedence
end Workplan
