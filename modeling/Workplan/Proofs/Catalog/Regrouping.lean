import Workplan.Proofs.Catalog.Overlay
import Mathlib.Data.List.Induction

/-!
# Sources merged in groups

Merging goes item by item, and of the items with one key only the last one counts. So sources may
be merged with each other before they are merged into other definitions, and a source that was
merged already changes nothing when it is merged again. Both hold whatever the sources are merged
into, even where a key is repeated.
-/

namespace Workplan

section Items

open Definitions (upsert mergeBy)

variable {α : Type} {key : α → String} {items others merged : List α} {a b : α}

namespace Definitions

/-! ## Two items -/

theorem mem_map_key_upsert_self : key a ∈ (upsert key a items).map key := by
  by_cases h : key a ∈ items.map key
  · rwa [map_key_upsert_of_mem h]
  · rw [upsert_of_not_mem h]
    simp

theorem mem_map_key_upsert (h : key a ∈ items.map key) (b : α) :
    key a ∈ (upsert key b items).map key := by
  by_cases hb : key b ∈ items.map key
  · rwa [map_key_upsert_of_mem hb]
  · rw [upsert_of_not_mem hb, List.map_append]
    exact List.mem_append_left _ h

/-- Of two items with one key the later one stays. -/
theorem upsert_upsert_of_eq (h : key b = key a) :
    upsert key a (upsert key b items) = upsert key a items := by
  induction items with
  | nil => exact if_pos h
  | cons first rest ih =>
      by_cases hfirst : key first = key a
      · rw [upsert, if_pos (hfirst.trans h.symm), upsert, if_pos h, upsert, if_pos hfirst]
      · have hother : key first ≠ key b := fun heq => hfirst (heq.trans h)
        rw [upsert, if_neg hother, upsert, if_neg hfirst, ih, upsert, if_neg hfirst]

/-- Where its key is present already, an item may be merged before or after one of another key. -/
theorem upsert_comm (hne : key b ≠ key a) (hmem : key a ∈ items.map key) :
    upsert key a (upsert key b items) = upsert key b (upsert key a items) := by
  induction items with
  | nil => cases hmem
  | cons first rest ih =>
      by_cases hfirst : key first = key a
      · have hother : key first ≠ key b := fun heq => hne (heq.symm.trans hfirst)
        rw [upsert, if_neg hother, upsert, if_pos hfirst, upsert, if_pos hfirst, upsert,
          if_neg (Ne.symm hne)]
      · have hrest := (List.mem_cons.mp hmem).resolve_left (Ne.symm hfirst)
        by_cases hother : key first = key b
        · rw [upsert, if_pos hother, upsert, if_neg hne, upsert, if_neg hfirst, upsert,
            if_pos hother]
        · rw [upsert, if_neg hother, upsert, if_neg hfirst, ih hrest, upsert, if_neg hfirst,
            upsert, if_neg hother]

/-! ## Lists of items -/

theorem mergeBy_append (items first second : List α) :
    mergeBy key items (first ++ second) = mergeBy key (mergeBy key items first) second :=
  List.foldl_append

theorem upsert_mergeBy (hmem : key a ∈ items.map key) (hnew : key a ∉ others.map key) :
    upsert key a (mergeBy key items others) = mergeBy key (upsert key a items) others := by
  induction others generalizing items with
  | nil => rfl
  | cons b rest ih =>
      obtain ⟨hb, hrest⟩ := not_or.mp (mt List.mem_cons.mpr hnew)
      show upsert key a (mergeBy key (upsert key b items) rest) =
        mergeBy key (upsert key b (upsert key a items)) rest
      rw [ih (mem_map_key_upsert hmem b) hrest, upsert_comm (Ne.symm hb) hmem]

/-- Into a list without repeated keys an item may be merged before that list is. -/
theorem mergeBy_upsert (h : (others.map key).Nodup) :
    mergeBy key items (upsert key a others) = upsert key a (mergeBy key items others) := by
  induction others generalizing items with
  | nil => rfl
  | cons b rest ih =>
      obtain ⟨hb, hrest⟩ := List.nodup_cons.mp h
      show _ = upsert key a (mergeBy key (upsert key b items) rest)
      by_cases hkey : key b = key a
      · have hmem : key a ∈ (upsert key b items).map key := hkey ▸ mem_map_key_upsert_self
        rw [upsert, if_pos hkey, upsert_mergeBy hmem (hkey ▸ hb), upsert_upsert_of_eq hkey]
        rfl
      · rw [upsert, if_neg hkey, ← ih hrest]
        rfl

/-- A list may be merged with itself first. -/
theorem mergeBy_mergeBy_nil (items others : List α) :
    mergeBy key items (mergeBy key [] others) = mergeBy key items others := by
  induction others using List.reverseRecOn with
  | nil => rfl
  | append_singleton others a ih =>
      have hdistinct := (LastWins.nil.append others : LastWins key _ _).distinct
      have hlast : ∀ start, mergeBy key start (others ++ [a]) =
          upsert key a (mergeBy key start others) :=
        fun start => mergeBy_append start others [a]
      rw [hlast, hlast, mergeBy_upsert hdistinct, ih]

end Definitions

theorem LastWins.twice (h : LastWins key items merged) : LastWins key (items ++ items) merged where
  distinct := h.distinct
  keys := by
    have hnone : (items.map key).removeAll (items.map key) = [] :=
      List.filter_eq_nil_iff.mpr fun k hk => by simpa using hk
    rw [h.keys, List.map_append, List.eraseDups_append, hnone]
    simp
  last a ha := by
    rw [List.filter_append, List.getLast?_append, h.last a ha]
    rfl

theorem Definitions.mergeBy_again (items others : List α) :
    mergeBy key (mergeBy key items others) others = mergeBy key items others := by
  have hlast : LastWins key others (mergeBy key [] others) := LastWins.nil.append others
  have hagain : LastWins key (others ++ others) (mergeBy key [] (others ++ others)) :=
    LastWins.nil.append _
  calc mergeBy key (mergeBy key items others) others
    _ = mergeBy key items (others ++ others) := (mergeBy_append items others others).symm
    _ = mergeBy key items (mergeBy key [] (others ++ others)) :=
        (mergeBy_mergeBy_nil items _).symm
    _ = mergeBy key items (mergeBy key [] others) := by rw [hagain.eq hlast.twice]
    _ = mergeBy key items others := mergeBy_mergeBy_nil items others

end Items

/-! ## Definitions -/

namespace Definitions

theorem foldl_merge_eq (d : Definitions) (sources : List Definitions) :
    sources.foldl merge d = ⟨mergeBy Action.id d.actions (sources.flatMap actions),
      mergeBy Workflow.name d.workflows (sources.flatMap workflows)⟩ := by
  induction sources generalizing d with
  | nil => rfl
  | cons first rest ih =>
      rw [List.foldl_cons, ih, List.flatMap_cons, List.flatMap_cons, mergeBy_append,
        mergeBy_append]
      rfl

/-- Merging sources in order is merging what they come to among themselves. -/
theorem merge_mergeAll (d : Definitions) (sources : List Definitions) :
    d.merge (mergeAll sources) = sources.foldl merge d := by
  rw [mergeAll, foldl_merge_eq, foldl_merge_eq, merge]
  simp only [empty, mergeBy_mergeBy_nil]

/-- Two sources may be merged with each other first, and merging a source again changes nothing. -/
theorem merge_regrouped (d first second : Definitions) :
    (d.merge first).merge second = d.merge ((empty.merge first).merge second) ∧
      (d.merge first).merge first = d.merge first := by
  constructor
  · exact (merge_mergeAll d [first, second]).symm
  · exact congrArg₂ Definitions.mk (mergeBy_again _ _) (mergeBy_again _ _)

end Definitions
end Workplan
