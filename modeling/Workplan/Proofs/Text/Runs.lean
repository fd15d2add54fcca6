import Mathlib.Data.List.Chain
import Mathlib.Data.List.TakeWhile
import Workplan.Text.Slug

/-!
# Runs of characters

The maximal runs in a text of the characters that a slug keeps, and what comes of joining runs by
hyphens: a text of the form of a slug, whose maximal runs are the ones that were joined.
-/

namespace Workplan
namespace Text

variable {s rest run : List Char} {runs : List (List Char)} {c : Char}

/-! ## Maximal runs -/

/-- Texts that can be runs: they are not empty, and a slug keeps all of their characters. -/
def IsRun (run : List Char) : Prop :=
  run ≠ [] ∧ ∀ c ∈ run, isSlugChar c = true

/-- `runs` are the maximal runs in a text of characters that a slug keeps, from left to right. A
character that it drops stands between the runs, and a run goes on until a dropped one follows or
the text ends. -/
inductive MaximalRuns : List Char → List (List Char) → Prop where
  | nil : MaximalRuns [] []
  | skip {c : Char} {rest : List Char} {runs : List (List Char)} : isSlugChar c = false →
      MaximalRuns rest runs → MaximalRuns (c :: rest) runs
  | run {run rest : List Char} {runs : List (List Char)} : IsRun run →
      (∀ c ∈ rest.head?, isSlugChar c = false) → MaximalRuns rest runs →
      MaximalRuns (run ++ rest) (run :: runs)

/-- What is left of a text behind its first run begins with a dropped character. -/
theorem MaximalRuns.cons (hc : isSlugChar c = true)
    (h : MaximalRuns (rest.dropWhile isSlugChar) runs) :
    MaximalRuns (c :: rest) ((c :: rest.takeWhile isSlugChar) :: runs) := by
  have hrun : IsRun (c :: rest.takeWhile isSlugChar) :=
    ⟨List.cons_ne_nil _ _,
      List.forall_mem_cons.mpr ⟨hc, fun d hd => List.mem_takeWhile_imp hd⟩⟩
  have hnext : ∀ d ∈ (rest.dropWhile isSlugChar).head?, isSlugChar d = false := by
    intro d hd
    have hfirst := List.head?_dropWhile_not isSlugChar rest
    rwa [Option.mem_def.mp hd] at hfirst
  have hsplit : (c :: rest.takeWhile isSlugChar) ++ rest.dropWhile isSlugChar = c :: rest := by
    rw [List.cons_append, List.takeWhile_append_dropWhile]
  exact hsplit ▸ .run hrun hnext h

theorem exists_maximalRuns (s : List Char) : ∃ runs, MaximalRuns s runs := by
  -- The induction is on the length, as a whole run is taken off at once.
  induction hlen : s.length using Nat.strong_induction_on generalizing s with
  | _ n ih =>
      cases s with
      | nil => exact ⟨[], .nil⟩
      | cons c rest =>
          rw [List.length_cons] at hlen
          cases hc : isSlugChar c with
          | false =>
              obtain ⟨runs, hruns⟩ := ih rest.length (by omega) rest rfl
              exact ⟨runs, .skip hc hruns⟩
          | true =>
              have hshort : (rest.dropWhile isSlugChar).length ≤ rest.length :=
                List.length_dropWhile_le isSlugChar rest
              obtain ⟨runs, hruns⟩ := ih _ (by omega) (rest.dropWhile isSlugChar) rfl
              exact ⟨_, hruns.cons hc⟩

theorem MaximalRuns.isRun (h : MaximalRuns s runs) : ∀ run ∈ runs, IsRun run := by
  induction h with
  | nil => exact List.forall_mem_nil _
  | skip _ _ ih => exact ih
  | run hrun _ _ ih => exact List.forall_mem_cons.mpr ⟨hrun, ih⟩

theorem MaximalRuns.eq_nil_iff (h : MaximalRuns s runs) :
    runs = [] ↔ ∀ c ∈ s, isSlugChar c = false := by
  induction h with
  | nil => simp
  | skip hc _ ih => rw [ih, List.forall_mem_cons, and_iff_right hc]
  | run hrun _ _ _ =>
      refine iff_of_false (List.cons_ne_nil _ _) fun hdropped => ?_
      obtain ⟨c, hc⟩ := List.exists_mem_of_ne_nil _ hrun.1
      have hdrop : isSlugChar c = false := hdropped c (List.mem_append_left _ hc)
      exact Bool.false_ne_true (hdrop.symm.trans (hrun.2 c hc))

/-! ## Joined runs -/

theorem intercalate_append_cons (front : List Char) :
    ['-'].intercalate ((front ++ run) :: runs) = front ++ ['-'].intercalate (run :: runs) := by
  cases runs with
  | nil => simp
  | cons next others => simp [List.intercalate_cons_cons]

theorem intercalate_ne_nil (h : run ≠ []) : ['-'].intercalate (run :: runs) ≠ [] := by
  cases runs with
  | nil => simpa using h
  | cons next others => simp [List.intercalate_cons_cons]

theorem intercalate_eq_nil_iff (h : ∀ run ∈ runs, IsRun run) :
    ['-'].intercalate runs = [] ↔ runs = [] := by
  cases runs with
  | nil => simp
  | cons run others =>
      have hrun : IsRun run := h run List.mem_cons_self
      exact iff_of_false (intercalate_ne_nil hrun.1) (List.cons_ne_nil _ _)

/-- The form of a slug: it has small ASCII letters, digits and hyphens only, and its hyphens stand
one by one between other characters. -/
structure IsSlug (s : List Char) : Prop where
  chars : ∀ c ∈ s, isSlugChar c = true ∨ c = '-'
  starts : s.head? ≠ some '-'
  ends : s.getLast? ≠ some '-'
  single : s.IsChain fun c d => ¬(c = '-' ∧ d = '-')

theorem IsRun.isSlug (h : IsRun run) : IsSlug run := by
  have hhyphen : '-' ∉ run := fun hmem => Bool.false_ne_true (h.2 _ hmem)
  refine ⟨fun c hc => .inl (h.2 c hc), ?_, ?_, ?_⟩
  · exact fun hhead => hhyphen (List.mem_of_mem_head? hhead)
  · exact fun hlast => hhyphen (List.mem_of_getLast? hlast)
  · exact List.Pairwise.isChain (List.pairwise_of_forall_mem_list
      fun c hc d _ hboth => hhyphen (hboth.1 ▸ hc))

theorem IsSlug.join {front back : List Char} (hfront : IsSlug front) (hback : IsSlug back)
    (hfrontNe : front ≠ []) (hbackNe : back ≠ []) : IsSlug (front ++ '-' :: back) where
  chars := by
    intro c hc
    rcases List.mem_append.mp hc with hc | hc
    · exact hfront.chars c hc
    · rcases List.mem_cons.mp hc with rfl | hc
      · exact .inr rfl
      · exact hback.chars c hc
  starts := by
    rw [List.head?_append_of_ne_nil _ hfrontNe]
    exact hfront.starts
  ends := by
    rw [List.getLast?_append_of_ne_nil _ (List.cons_ne_nil _ _),
      List.getLast?_cons_of_ne_nil hbackNe]
    exact hback.ends
  single := by
    refine List.isChain_append.mpr ⟨hfront.single, List.isChain_cons.mpr ⟨?_, hback.single⟩, ?_⟩
    · rintro d hd ⟨-, rfl⟩
      exact hback.starts hd
    · rintro c hc d - ⟨rfl, -⟩
      exact hfront.ends hc

theorem isSlug_intercalate (h : ∀ run ∈ runs, IsRun run) : IsSlug (['-'].intercalate runs) := by
  induction runs with
  | nil => exact ⟨List.forall_mem_nil _, by simp, by simp, .nil⟩
  | cons run others ih =>
      obtain ⟨hrun, hothers⟩ := List.forall_mem_cons.mp h
      cases others with
      | nil =>
          rw [List.intercalate_singleton]
          exact hrun.isSlug
      | cons next others =>
          have hnext : IsRun next := hothers next List.mem_cons_self
          rw [List.intercalate_cons_cons, List.append_assoc, List.singleton_append]
          exact hrun.isSlug.join (ih hothers) hrun.1 (intercalate_ne_nil hnext.1)

/-- Joining runs does not change them. -/
theorem maximalRuns_intercalate (h : ∀ run ∈ runs, IsRun run) :
    MaximalRuns (['-'].intercalate runs) runs := by
  induction runs with
  | nil => exact .nil
  | cons run others ih =>
      obtain ⟨hrun, hothers⟩ := List.forall_mem_cons.mp h
      cases others with
      | nil =>
          rw [List.intercalate_singleton]
          have hlast : MaximalRuns (run ++ []) [run] := .run hrun (by simp) .nil
          rwa [List.append_nil] at hlast
      | cons next others =>
          rw [List.intercalate_cons_cons, List.append_assoc, List.singleton_append]
          refine .run hrun ?_ (.skip rfl (ih hothers))
          exact fun c hc => Option.some.inj hc ▸ rfl

end Text
end Workplan
