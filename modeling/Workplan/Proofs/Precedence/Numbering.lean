import Mathlib.Data.List.Basic
import Mathlib.Order.Monotone.Basic

/-!
# Numbered items

What is picked from a list keeps its numbers there, which increase. So the picked items, numbered
anew, are led back to their old numbers by an increasing function.
-/

namespace Workplan

variable {α : Type}

/-! ## Picking by items and by numbers -/

theorem map_fst_filter_zipIdx (items : List α) (test : α → Bool) :
    (items.zipIdx.filter fun x => test x.1).map Prod.fst = items.filter test := by
  conv_rhs => rw [← List.zipIdx_map_fst 0 items, List.filter_map]
  rfl

/-- Picking the numbers of the items that a test picks is picking these items. -/
theorem filter_zipIdx_getElem? (items : List α) (test : α → Bool) :
    (items.zipIdx.filter fun x => items[x.2]?.any test) =
      items.zipIdx.filter fun x => test x.1 := by
  apply List.filter_congr
  intro x hx
  simp [List.mem_zipIdx_iff_getElem?.mp hx]

theorem map_fst_filter_zipIdx_ne_length (before after : List α) (a : α) :
    ((before ++ a :: after).zipIdx.filter fun x => x.2 != before.length).map Prod.fst =
      before ++ after := by
  have hbefore : (before.zipIdx.filter fun x => x.2 != before.length) = before.zipIdx := by
    apply List.filter_eq_self.mpr
    intro x hx
    have hlt := (List.getElem?_eq_some_iff.mp (List.mem_zipIdx_iff_getElem?.mp hx)).1
    simpa using Nat.ne_of_lt hlt
  have hafter : ((after.zipIdx (before.length + 1)).filter fun x => x.2 != before.length) =
      after.zipIdx (before.length + 1) := by
    apply List.filter_eq_self.mpr
    intro x hx
    have hlt := List.le_snd_of_mem_zipIdx hx
    simpa using Nat.ne_of_gt hlt
  rw [List.zipIdx_append, List.zipIdx_cons, List.filter_append, Nat.zero_add, hbefore,
    List.filter_cons_of_neg (by simp), hafter, List.map_append, List.zipIdx_map_fst,
    List.zipIdx_map_fst]

/-! ## Numbering anew -/

theorem pairwise_snd_filter_zipIdx (items : List α) (pick : α × Nat → Bool) :
    ((items.zipIdx.filter pick).map Prod.snd).Pairwise (· < ·) := by
  apply List.Pairwise.sublist (List.filter_sublist.map Prod.snd)
  rw [List.zipIdx_map_snd]
  exact List.pairwise_lt_range'

/-- Increasing numbers are the first values of an increasing function. -/
theorem exists_strictMono_extending {numbers : List Nat} (h : numbers.Pairwise (· < ·))
    (bound : Nat) (hbound : ∀ n ∈ numbers, bound ≤ n) :
    ∃ f : Nat → Nat, StrictMono f ∧ bound ≤ f 0 ∧ ∀ i n, numbers[i]? = some n → f i = n := by
  induction numbers generalizing bound with
  | nil => exact ⟨(bound + ·), fun i j hij => Nat.add_lt_add_left hij bound, le_rfl, by simp⟩
  | cons first rest ih =>
      obtain ⟨hfirst, hrest⟩ := List.pairwise_cons.mp h
      obtain ⟨f, hmono, hstart, hvalues⟩ := ih hrest (first + 1) fun n hn => hfirst n hn
      refine ⟨fun i => Nat.casesOn i first f, ?_, hbound first List.mem_cons_self, ?_⟩
      · apply strictMono_nat_of_lt_succ
        intro i
        cases i with
        | zero => exact hstart
        | succ i => exact hmono (Nat.lt_succ_self i)
      · intro i n hn
        cases i with
        | zero => exact Option.some.inj hn
        | succ i => exact hvalues i n hn

theorem exists_numbering (items : List α) (pick : α × Nat → Bool) :
    ∃ number : Nat → Nat, StrictMono number ∧
      items.zipIdx.filter pick =
        ((items.zipIdx.filter pick).map Prod.fst).zipIdx.map fun x => (x.1, number x.2) := by
  have hincreasing := pairwise_snd_filter_zipIdx items pick
  obtain ⟨number, hmono, -, hvalues⟩ :=
    exists_strictMono_extending hincreasing 0 fun n _ => Nat.zero_le n
  refine ⟨number, hmono, ?_⟩
  apply List.ext_getElem?
  intro i
  cases hx : (items.zipIdx.filter pick)[i]? with
  | none => simp [hx, List.getElem?_zipIdx]
  | some x =>
      have hnumber : number i = x.2 := hvalues i x.2 (by simp [hx])
      simp [hx, List.getElem?_zipIdx, hnumber]

/-- What is kept of an order has increasing places in it. -/
theorem exists_places {keep : Nat → Bool} {number : Nat → Nat} {order kept : List Nat}
    (h : order.filter keep = kept.map number) :
    ∃ place : Nat → Nat, StrictMono place ∧
      (order.zipIdx.filter fun x => keep x.1) =
        kept.zipIdx.map fun x => (number x.1, place x.2) := by
  obtain ⟨place, hmono, hplaces⟩ := exists_numbering order fun x => keep x.1
  refine ⟨place, hmono, ?_⟩
  rw [hplaces, map_fst_filter_zipIdx, h, List.zipIdx_map, List.map_map]
  rfl

end Workplan
