import Workplan.Proofs.Precedence.Arrange
import Workplan.Proofs.Precedence.Numbering

/-!
# Leaving positions out

Some positions may come before none of the others. When they are left out, and the others are
numbered anew without changing their order, a run still finds the same others ready at each turn:
what it picks, less what is left out, is what a run over the rest picks.
-/

namespace Workplan
namespace Precedence

variable {larger smaller : Precedence} {keep : Nat → Bool} {number : Nat → Nat}
  {placed order others : List Nat} {u v x y : Nat}

/-- `smaller` is what remains of `larger` when the positions outside `keep` are left out, none of
which comes before one that stays. The position `v` of the rest stood at `number v`. -/
structure Thins (larger smaller : Precedence) (keep : Nat → Bool) (number : Nat → Nat) : Prop where
  mono : StrictMono number
  kept : ∀ x, x < larger.size ∧ keep x = true ↔ ∃ v < smaller.size, number v = x
  before : ∀ v < smaller.size, ∀ x,
    larger.Before x (number v) ↔ ∃ u < smaller.size, number u = x ∧ smaller.Before u v
  bounded : ∀ u v, smaller.Before u v → u < smaller.size

namespace Thins

variable (h : larger.Thins smaller keep number)

include h

/-- What is ready among the rest is ready among all, once the same of the rest have come. -/
theorem ready_iff (hplaced : ∀ v < smaller.size, number v ∈ others ↔ v ∈ placed)
    (hv : v < smaller.size) : larger.Ready others (number v) ↔ smaller.Ready placed v := by
  constructor
  · intro hready
    refine ⟨hv, mt (hplaced v hv).mpr hready.fresh, fun u hu => ?_⟩
    have hlt := h.bounded u v hu
    have hbefore := (h.before v hv _).mpr ⟨u, hlt, rfl, hu⟩
    exact (hplaced u hlt).mp (hready.waits _ hbefore)
  · intro hready
    refine ⟨((h.kept _).mpr ⟨v, hv, rfl⟩).1, mt (hplaced v hv).mp hready.fresh, fun x hx => ?_⟩
    obtain ⟨u, hu, rfl, hbefore⟩ := (h.before v hv x).mp hx
    exact (hplaced u hu).mpr (hready.waits u hbefore)

/-- What is picked of the rest is picked of all, between positions that are left out. -/
theorem picks_filter (hpicks : larger.Picks others order)
    (hplaced : ∀ v < smaller.size, number v ∈ others ↔ v ∈ placed) :
    ∃ kept, order.filter keep = kept.map number ∧ smaller.Picks placed kept := by
  induction order generalizing others placed with
  | nil =>
      refine ⟨[], rfl, fun v hv => hpicks (number v) ?_⟩
      exact (h.ready_iff hplaced hv.lt_size).mpr hv
  | cons x rest ih =>
      obtain ⟨hready, hleast, hrest⟩ := hpicks
      cases hx : keep x with
      | true =>
          obtain ⟨v, hv, rfl⟩ := (h.kept x).mp ⟨hready.lt_size, hx⟩
          have hnext : ∀ u < smaller.size, number u ∈ number v :: others ↔ u ∈ v :: placed := by
            intro u hu
            rw [List.mem_cons, List.mem_cons, hplaced u hu, h.mono.injective.eq_iff]
          obtain ⟨kept, heq, hkept⟩ := ih hrest hnext
          refine ⟨v :: kept, ?_, (h.ready_iff hplaced hv).mp hready, fun u hu => ?_, hkept⟩
          · rw [List.filter_cons_of_pos hx, heq, List.map_cons]
          · exact h.mono.le_iff_le.mp (hleast _ ((h.ready_iff hplaced hu.lt_size).mpr hu))
      | false =>
          have hnext : ∀ u < smaller.size, number u ∈ x :: others ↔ u ∈ placed := by
            intro u hu
            have hne : number u ≠ x := by
              intro heq
              have hkept := ((h.kept x).mpr ⟨u, hu, heq⟩).2
              simp [hx] at hkept
            rw [List.mem_cons, hplaced u hu, or_iff_right hne]
          obtain ⟨kept, heq, hkept⟩ := ih hrest hnext
          exact ⟨kept, by simpa [hx] using heq, hkept⟩

/-- Less what is left out, the arrangement of all is that of the rest. -/
theorem filter_arrange (hlarger : larger.WellFormed) (hsmaller : smaller.WellFormed) :
    larger.arrange.filter keep = smaller.arrange.map number := by
  have hnone : ∀ v < smaller.size, number v ∈ ([] : List Nat) ↔ v ∈ ([] : List Nat) := by
    simp
  obtain ⟨kept, heq, hkept⟩ := h.picks_filter (arrange_picks hlarger) hnone
  rw [heq, hkept.unique (arrange_picks hsmaller)]

end Thins
end Precedence
end Workplan
