import Workplan.Plan.Generate
import Mathlib.Data.List.Basic

/-!
# Looking producers up

The steps that a placement waits for are found through an index from artifacts to placements and
the positions that each placement emitted. What is found are exactly the positions of emissions
that produce, for the whole project, an artifact that the placement takes.
-/

namespace Workplan

variable {numbers : List Nat} {m n i index : Nat} {a b : Artifact} {p : Placement}
  {placements : List Placement} {project : Rule.Context} {modules : List (Module × Rule.Context)}

/-! ## Ascending numbers -/

theorem mem_insertAscending : m ∈ insertAscending n numbers ↔ m = n ∨ m ∈ numbers := by
  induction numbers with
  | nil => simp [insertAscending]
  | cons k rest ih =>
      by_cases hlt : n < k
      · simp [insertAscending, hlt]
      · by_cases heq : n = k
        · simp [insertAscending, heq]
        · simp [insertAscending, hlt, heq, ih, or_left_comm]

theorem pairwise_insertAscending (h : numbers.Pairwise (· < ·)) (n : Nat) :
    (insertAscending n numbers).Pairwise (· < ·) := by
  induction numbers with
  | nil => simp [insertAscending]
  | cons k rest ih =>
      obtain ⟨hall, hrest⟩ := List.pairwise_cons.mp h
      by_cases hlt : n < k
      · rw [insertAscending, if_pos hlt]
        refine List.pairwise_cons.mpr ⟨fun m hm => ?_, h⟩
        rcases List.mem_cons.mp hm with rfl | hm
        · exact hlt
        · exact Nat.lt_trans hlt (hall m hm)
      · by_cases heq : n = k
        · simpa [insertAscending, heq] using h
        · rw [insertAscending, if_neg hlt, if_neg heq]
          refine List.pairwise_cons.mpr ⟨fun m hm => ?_, ih hrest⟩
          rcases mem_insertAscending.mp hm with rfl | hm
          · omega
          · exact hall m hm

theorem mem_ascending : m ∈ ascending numbers ↔ m ∈ numbers := by
  induction numbers with
  | nil => simp [ascending]
  | cons k rest ih =>
      rw [ascending, List.foldr_cons, mem_insertAscending, List.mem_cons]
      exact or_congr_right ih

theorem pairwise_ascending (numbers : List Nat) : (ascending numbers).Pairwise (· < ·) := by
  induction numbers with
  | nil => exact .nil
  | cons k rest ih => exact pairwise_insertAscending ih k

/-! ## The index -/

namespace Producers

variable {producers : Producers} {entries : List (Artifact × List Nat)}

theorem mem_lookup_note :
    i ∈ ((note index a entries).lookup b).getD [] ↔
      i ∈ (entries.lookup b).getD [] ∨ i = index ∧ b = a := by
  induction entries with
  | nil =>
      by_cases hb : b = a
      · simp [note, hb]
      · simp [note, hb, List.lookup_cons, beq_false_of_ne hb]
  | cons entry rest ih =>
      obtain ⟨other, indices⟩ := entry
      by_cases hother : a = other
      · subst hother
        by_cases hb : b = a
        · by_cases hindex : index ∈ indices
          · have hnoted : i ∈ indices ∨ i = index ↔ i ∈ indices :=
              or_iff_left_of_imp fun hi => hi ▸ hindex
            simp [note, hb, hindex, hnoted]
          · simp [note, hb, hindex]
        · simp [note, List.lookup_cons, beq_false_of_ne hb, hb]
      · by_cases hb : b = other
        · subst hb
          have hba : ¬ b = a := Ne.symm hother
          simp [note, hother, hba]
        · simpa [note, hother, List.lookup_cons, beq_false_of_ne hb] using ih

theorem mem_lookup_foldl_note (outputs : List Artifact) :
    i ∈ ((outputs.foldl (fun entries a => note index a entries) entries).lookup b).getD [] ↔
      i ∈ (entries.lookup b).getD [] ∨ i = index ∧ b ∈ outputs := by
  induction outputs generalizing entries with
  | nil => simp
  | cons a rest ih =>
      rw [List.foldl_cons, ih, mem_lookup_note, List.mem_cons, or_assoc, and_or_left]

theorem mem_get_noteAll :
    i ∈ (producers.noteAll index p).get a ↔
      i ∈ producers.get a ∨ i = index ∧ p.action.scope = .project ∧ a ∈ p.action.outputs := by
  unfold noteAll
  split
  · next hscope => simpa [hscope, get] using mem_lookup_foldl_note p.action.outputs
  · next hscope => simp [hscope]

theorem mem_get_foldl_noteAll (numbered : List (Placement × Nat)) :
    i ∈ (numbered.foldl (fun producers p => producers.noteAll p.2 p.1) producers).get a ↔
      i ∈ producers.get a ∨ ∃ p, (p, i) ∈ numbered ∧
        p.action.scope = .project ∧ a ∈ p.action.outputs := by
  induction numbered generalizing producers with
  | nil => simp
  | cons x rest ih =>
      obtain ⟨p, index⟩ := x
      rw [List.foldl_cons, ih, mem_get_noteAll, or_assoc]
      simp only [List.mem_cons, Prod.mk.injEq]
      refine or_congr_right ⟨?_, ?_⟩
      · intro h
        rcases h with ⟨rfl, hp⟩ | ⟨q, hq, hp⟩
        · exact ⟨p, .inl ⟨rfl, rfl⟩, hp⟩
        · exact ⟨q, .inr hq, hp⟩
      · intro h
        obtain ⟨q, ⟨rfl, rfl⟩ | hq, hp⟩ := h
        · exact .inl ⟨rfl, hp⟩
        · exact .inr ⟨q, hq, hp⟩

/-- The index leads from an artifact to the placements that produce it for the project. -/
theorem mem_get_ofPlacements :
    i ∈ (ofPlacements placements).get a ↔ ∃ p, placements[i]? = some p ∧
      p.action.scope = .project ∧ a ∈ p.action.outputs := by
  rw [ofPlacements, mem_get_foldl_noteAll]
  simp [get, List.mk_mem_zipIdx_iff_getElem?]

end Producers

/-! ## Positions of emissions -/

def Emission.ofPlacements (placements : List Placement) (project : Rule.Context)
    (modules : List (Module × Rule.Context)) : List Emission :=
  placements.flatMap fun p => p.emissions project modules

namespace Placement

variable {e f : Emission} {group : List (Emission × Nat)} {u position : Nat}

theorem placement_of_mem_emissions (h : e ∈ p.emissions project modules) : e.placement = p := by
  obtain ⟨target, -, rfl⟩ := List.mem_map.mp h
  rfl

/-- Positions are counted without a gap over all placements. -/
theorem flatten_emit (project : Rule.Context) (modules : List (Module × Rule.Context))
    (position : Nat) (placements : List Placement) :
    (emit project modules position placements).flatten =
      (Emission.ofPlacements placements project modules).zipIdx position := by
  induction placements generalizing position with
  | nil => rfl
  | cons p rest ih =>
      have hsplit : Emission.ofPlacements (p :: rest) project modules =
          p.emissions project modules ++ Emission.ofPlacements rest project modules := rfl
      rw [emit, List.flatten_cons, ih, hsplit, List.zipIdx_append]

/-- The emissions of a group are those of one placement. -/
theorem getElem?_of_mem_emit
    (h : (emit project modules position placements)[i]? = some group) (hf : (f, u) ∈ group) :
    placements[i]? = some f.placement := by
  induction placements generalizing position i with
  | nil => simp [emit] at h
  | cons p rest ih =>
      rw [emit] at h
      cases i with
      | zero =>
          obtain rfl := Option.some.inj h
          rw [placement_of_mem_emissions (List.fst_mem_of_mem_zipIdx hf), List.getElem?_cons_zero]
      | succ i => exact ih h

theorem mem_ofPlacements_iff_mem_emit :
    (Emission.ofPlacements placements project modules)[u]? = some f ↔
      ∃ (i : Nat) (group : List (Emission × Nat)),
        (emit project modules 0 placements)[i]? = some group ∧ (f, u) ∈ group := by
  rw [← List.mk_mem_zipIdx_iff_getElem?, ← flatten_emit, List.mem_flatten]
  simp only [List.mem_iff_getElem? (l := emit project modules 0 placements)]
  constructor
  · intro h
    obtain ⟨group, ⟨i, hi⟩, hf⟩ := h
    exact ⟨i, group, hi, hf⟩
  · intro h
    obtain ⟨i, group, hi, hf⟩ := h
    exact ⟨group, ⟨i, hi⟩, hf⟩

/-- The steps that a placement waits for are those emitted for the project by a placement that
gives something it takes. -/
theorem mem_predecessors :
    u ∈ p.predecessors (.ofPlacements placements) (positions (emit project modules 0 placements)) ↔
      ∃ f, (Emission.ofPlacements placements project modules)[u]? = some f ∧
        f.placement.action.scope = .project ∧
        ∃ a ∈ f.placement.action.outputs, a ∈ p.action.inputs := by
  have hemitted : ∀ i : Nat, u ∈ ((positions (emit project modules 0 placements))[i]?.getD []) ↔
      ∃ (f : Emission) (group : List (Emission × Nat)),
        (emit project modules 0 placements)[i]? = some group ∧ (f, u) ∈ group := by
    intro i
    cases hi : (emit project modules 0 placements)[i]? with
    | none => simp [positions, hi]
    | some group => simp [positions, hi]
  simp only [predecessors, mem_ascending, List.mem_flatMap, Producers.mem_get_ofPlacements, hemitted]
  constructor
  · intro h
    obtain ⟨a, ha, i, ⟨q, hq, hscope, hout⟩, f, group, hgroup, hf⟩ := h
    have hplacement := getElem?_of_mem_emit hgroup hf
    obtain rfl := Option.some.inj (hplacement.symm.trans hq)
    exact ⟨f, mem_ofPlacements_iff_mem_emit.mpr ⟨i, group, hgroup, hf⟩, hscope, a, hout, ha⟩
  · intro h
    obtain ⟨f, hf, hscope, a, hout, ha⟩ := h
    obtain ⟨i, group, hgroup, hmem⟩ := mem_ofPlacements_iff_mem_emit.mp hf
    exact ⟨a, ha, i, ⟨_, getElem?_of_mem_emit hgroup hmem, hscope, hout⟩, f, group, hgroup, hmem⟩

/-- Going through the groups with their placements is going through all emissions. -/
theorem flatMap_zip_emit (step : Placement → Emission × Nat → Step) :
    (placements.zip (emit project modules position placements)).flatMap
        (fun x => x.2.map (step x.1)) =
      ((Emission.ofPlacements placements project modules).zipIdx position).map fun x =>
        step x.1.placement x := by
  rw [← flatten_emit]
  induction placements generalizing position with
  | nil => rfl
  | cons p rest ih =>
      rw [emit, List.zip_cons_cons, List.flatMap_cons, ih, List.flatten_cons, List.map_append]
      congr 1
      refine List.map_congr_left fun x hx => ?_
      rw [placement_of_mem_emissions (List.fst_mem_of_mem_zipIdx hx)]

end Placement
end Workplan
