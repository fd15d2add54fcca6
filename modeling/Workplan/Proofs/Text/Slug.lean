import Workplan.Proofs.Text.Lowercase
import Workplan.Proofs.Text.Runs

/-!
# Canonical slugs

A slug consists of the maximal runs of small ASCII letters and digits in the lower-case form of a
name, joined by single hyphens. Put differently, every stretch of other characters becomes one
hyphen, and the hyphens at the ends are trimmed. Slugs are their own slugs: they are in lower case
already, and their runs are those that they were joined of.
-/

namespace Workplan
namespace Text

variable {s rest run lowered : List Char} {runs : List (List Char)} {c : Char}

/-! ## The characters of a slug -/

theorem isSlugChar_iff : isSlugChar c = true ↔
    (97 ≤ c.toNat ∧ c.toNat ≤ 122) ∨ (48 ≤ c.toNat ∧ c.toNat ≤ 57) := by
  simp only [isSlugChar, Bool.or_eq_true, Bool.and_eq_true, decide_eq_true_eq]
  rfl

/-- Of the letters and digits of ASCII, a slug drops the capitals only. -/
theorem isAlphanum_eq_isSlugChar (h : c.isUpper = false) : c.isAlphanum = isSlugChar c := by
  have hlower : c.isLower = true ↔ 97 ≤ c.toNat ∧ c.toNat ≤ 122 := by
    simp only [Char.isLower, Bool.and_eq_true, decide_eq_true_eq]
    rfl
  have hdigit : c.isDigit = true ↔ 48 ≤ c.toNat ∧ c.toNat ≤ 57 := by
    simp only [Char.isDigit, Bool.and_eq_true, decide_eq_true_eq]
    rfl
  rw [Bool.eq_iff_iff, isSlugChar_iff, ← hlower, ← hdigit, Char.isAlphanum, Char.isAlpha, h,
    Bool.false_or, Bool.or_eq_true]

theorem IsSlug.lowercase_eq_self (h : IsSlug s) : lowercase s = s := by
  refine Text.lowercase_eq_self fun c hc => ?_
  rcases h.chars c hc with hkept | rfl
  · have hrange := isSlugChar_iff.mp hkept
    refine ⟨by omega, ?_⟩
    rw [Bool.eq_false_iff, ne_eq, isUpper_iff]
    omega
  · exact ⟨by decide, by decide⟩

/-! ## The slug under construction -/

/-- What the next character of a slug is put behind: a gap inside the slug is a hyphen. -/
def closeGap (made : List Char) (gap : Bool) : List Char :=
  if gap && !made.isEmpty then '-' :: made else made

theorem closeGap_nil (gap : Bool) : closeGap [] gap = [] := by
  simp [closeGap]

theorem closeGap_of_ne_nil {made : List Char} (h : made ≠ []) :
    closeGap made true = '-' :: made := by
  simp [closeGap, h]

theorem slugStep_of_dropped (h : isSlugChar c = false) (state : List Char × Bool) :
    slugStep state c = (state.1, true) := by
  simp [slugStep, h]

theorem slugStep_of_kept (h : isSlugChar c = true) (made : List Char) (gap : Bool) :
    slugStep (made, gap) c = (c :: closeGap made gap, false) := by
  simp only [slugStep, if_pos h, closeGap]
  split <;> rfl

/-- Only before the first character of a run there can be a gap. -/
theorem foldl_slugStep_run (h : IsRun run) (made : List Char) (gap : Bool) :
    run.foldl slugStep (made, gap) = (run.reverse ++ closeGap made gap, false) := by
  obtain ⟨hne, hkept⟩ := h
  induction run generalizing made gap with
  | nil => exact absurd rfl hne
  | cons c rest ih =>
      obtain ⟨hc, hrest⟩ := List.forall_mem_cons.mp hkept
      rw [List.foldl_cons, slugStep_of_kept hc, List.reverse_cons, List.append_assoc,
        List.singleton_append]
      cases rest with
      | nil => rfl
      | cons d rest => exact ih _ _ (List.cons_ne_nil d rest) hrest

/-- After a run comes a gap or the end, so the slug does not depend on whether the gap was seen. -/
theorem foldl_slugStep_gap (h : ∀ c ∈ s.head?, isSlugChar c = false) (made : List Char)
    (gap : Bool) :
    (s.foldl slugStep (made, gap)).1 = (s.foldl slugStep (made, true)).1 := by
  cases s with
  | nil => rfl
  | cons c rest =>
      have hc : isSlugChar c = false := h c rfl
      rw [List.foldl_cons, List.foldl_cons, slugStep_of_dropped hc, slugStep_of_dropped hc]

/-- Behind what is made already, the runs follow with a hyphen before each. -/
theorem MaximalRuns.foldl_slugStep_of_ne_nil (h : MaximalRuns s runs) {made : List Char}
    (hmade : made ≠ []) :
    (s.foldl slugStep (made, true)).1.reverse = ['-'].intercalate (made.reverse :: runs) := by
  induction h generalizing made with
  | nil => simp
  | skip hc _ ih => rw [List.foldl_cons, slugStep_of_dropped hc, ih hmade]
  | @run run rest runs hrun hnext _ ih =>
      have hmore : (run.reverse ++ '-' :: made).reverse = (made.reverse ++ ['-']) ++ run := by simp
      rw [List.foldl_append, foldl_slugStep_run hrun, closeGap_of_ne_nil hmade,
        foldl_slugStep_gap hnext, ih (by simp), hmore, intercalate_append_cons,
        List.intercalate_cons_cons]

theorem MaximalRuns.foldl_slugStep (h : MaximalRuns s runs) (gap : Bool) :
    (s.foldl slugStep ([], gap)).1.reverse = ['-'].intercalate runs := by
  induction h generalizing gap with
  | nil => rfl
  | skip hc _ ih => rw [List.foldl_cons, slugStep_of_dropped hc, ih]
  | run hrun hnext hrest _ =>
      rw [List.foldl_append, foldl_slugStep_run hrun, closeGap_nil, List.append_nil,
        foldl_slugStep_gap hnext, hrest.foldl_slugStep_of_ne_nil (by simpa using hrun.1),
        List.reverse_reverse]

/-! ## Stretches of other characters -/

/-- The text with each stretch of characters that a slug drops replaced by one hyphen. -/
def hyphenate : List Char → List Char
  | [] => []
  | c :: rest =>
    if isSlugChar c then c :: hyphenate rest
    else '-' :: hyphenate (rest.dropWhile fun d => !isSlugChar d)
termination_by s => s.length
decreasing_by
  · exact Nat.lt_succ_self _
  · exact Nat.lt_succ_of_le (List.length_dropWhile_le _ _)

def trimHyphens (s : List Char) : List Char :=
  (s.dropWhile (· == '-')).rdropWhile (· == '-')

theorem hyphenate_kept (h : ∀ c ∈ run, isSlugChar c = true) :
    hyphenate (run ++ rest) = run ++ hyphenate rest := by
  induction run with
  | nil => rfl
  | cons c run ih =>
      obtain ⟨hc, hrun⟩ := List.forall_mem_cons.mp h
      rw [List.cons_append, hyphenate, if_pos hc, ih hrun, List.cons_append]

theorem hyphenate_dropped (h : isSlugChar c = false) :
    hyphenate (c :: rest) = '-' :: hyphenate (rest.dropWhile fun d => !isSlugChar d) := by
  rw [hyphenate, if_neg (by simp [h])]

/-- From the first run on, only hyphens at the end are left to trim. -/
theorem MaximalRuns.hyphenate_dropWhile (h : MaximalRuns s runs) :
    ∃ back, (∀ c ∈ back, c = '-') ∧
      hyphenate (s.dropWhile fun c => !isSlugChar c) = ['-'].intercalate runs ++ back := by
  induction h with
  | nil => exact ⟨[], List.forall_mem_nil _, by simp [hyphenate]⟩
  | skip hc _ ih =>
      rw [List.dropWhile_cons_of_pos (by simp [hc])]
      exact ih
  | @run run rest runs hrun hnext hrest ih =>
      obtain ⟨hne, hkept⟩ := hrun
      have hstart : (run ++ rest).dropWhile (fun c => !isSlugChar c) = run ++ rest := by
        cases run with
        | nil => exact absurd rfl hne
        | cons c run => exact List.dropWhile_cons_of_neg (by simp [hkept c List.mem_cons_self])
      rw [hstart, hyphenate_kept hkept]
      cases rest with
      | nil =>
          obtain rfl : runs = [] := hrest.eq_nil_iff.mpr (List.forall_mem_nil _)
          exact ⟨[], List.forall_mem_nil _, by simp [hyphenate]⟩
      | cons d rest =>
          have hd : isSlugChar d = false := hnext d rfl
          obtain ⟨back, hback, heq⟩ := ih
          rw [List.dropWhile_cons_of_pos (by simp [hd])] at heq
          rw [hyphenate_dropped hd, heq]
          cases runs with
          | nil => exact ⟨'-' :: back, List.forall_mem_cons.mpr ⟨rfl, hback⟩, by simp⟩
          | cons next others => exact ⟨back, hback, by simp [List.intercalate_cons_cons]⟩

theorem MaximalRuns.hyphenate_eq (h : MaximalRuns s runs) :
    ∃ front back, (∀ c ∈ front, c = '-') ∧ (∀ c ∈ back, c = '-') ∧
      hyphenate s = front ++ (['-'].intercalate runs ++ back) := by
  obtain ⟨back, hback, heq⟩ := h.hyphenate_dropWhile
  cases s with
  | nil => exact ⟨[], back, List.forall_mem_nil _, hback, heq⟩
  | cons c rest =>
      cases hc : isSlugChar c with
      | true =>
          rw [List.dropWhile_cons_of_neg (by simp [hc])] at heq
          exact ⟨[], back, List.forall_mem_nil _, hback, heq⟩
      | false =>
          rw [List.dropWhile_cons_of_pos (by simp [hc])] at heq
          refine ⟨['-'], back, List.forall_mem_singleton.mpr rfl, hback, ?_⟩
          rw [hyphenate_dropped hc, heq, List.singleton_append]

theorem trimHyphens_append {front back : List Char} (h : IsSlug s) (hfront : ∀ c ∈ front, c = '-')
    (hback : ∀ c ∈ back, c = '-') : trimHyphens (front ++ (s ++ back)) = s := by
  have hends : s.rdropWhile (· == '-') = s := by
    refine List.rdropWhile_eq_self_iff.mpr fun hne hhyphen => h.ends ?_
    rw [List.getLast?_eq_some_getLast hne, eq_of_beq hhyphen]
  have hbackTrimmed : (s ++ back).rdropWhile (· == '-') = s := by
    rw [List.rdropWhile, List.reverse_append, List.dropWhile_append_of_pos (by simpa using hback)]
    exact hends
  rw [trimHyphens, List.dropWhile_append_of_pos (by simpa using hfront)]
  cases s with
  | nil =>
      have hnone : back.dropWhile (· == '-') = [] :=
        List.dropWhile_eq_nil_iff.mpr (by simpa using hback)
      rw [List.nil_append, hnone]
      rfl
  | cons c rest =>
      have hkept : (c :: rest ++ back).dropWhile (· == '-') = c :: rest ++ back :=
        List.dropWhile_cons_of_neg (by simpa using h.starts)
      rw [hkept]
      exact hbackTrimmed

theorem MaximalRuns.trimHyphens_hyphenate (h : MaximalRuns s runs) :
    trimHyphens (hyphenate s) = ['-'].intercalate runs := by
  obtain ⟨front, back, hfront, hback, heq⟩ := h.hyphenate_eq
  rw [heq, trimHyphens_append (isSlug_intercalate h.isRun) hfront hback]

/-! ## The two small sigmas -/

/-- The small sigma that ends a word as the one that stands elsewhere; other characters as they
are. -/
def plainSigma (c : Char) : Char :=
  if c = '\u03C2' then '\u03C3' else c

theorem slugStep_plainSigma (state : List Char × Bool) (c : Char) :
    slugStep state (plainSigma c) = slugStep state c := by
  rw [plainSigma]
  split
  · next h =>
      subst h
      rw [slugStep_of_dropped (by decide), slugStep_of_dropped (by decide)]
  · rfl

/-- A slug does not tell the small sigmas apart. -/
theorem foldl_slugStep_congr (h : lowered.map plainSigma = s.map plainSigma)
    (state : List Char × Bool) : lowered.foldl slugStep state = s.foldl slugStep state := by
  have hplain (t : List Char) :
      (t.map plainSigma).foldl slugStep state = t.foldl slugStep state := by
    rw [List.foldl_map]
    simp only [slugStep_plainSigma]
  rw [← hplain lowered, h, hplain]

theorem isUpper_plainSigma (c : Char) : (plainSigma c).isUpper = c.isUpper := by
  rw [plainSigma]
  split
  · next h =>
      subst h
      decide
  · rfl

theorem isUpper_of_mem_lowered (h : lowered.map plainSigma = (lowercase s).map plainSigma)
    (hc : c ∈ lowered) : c.isUpper = false := by
  obtain ⟨d, hd, heq⟩ := List.mem_map.mp (h ▸ List.mem_map_of_mem hc)
  rw [← isUpper_plainSigma c, ← heq, isUpper_plainSigma d]
  exact isUpper_of_mem_lowercase hd

/-! ## Slugs of names -/

theorem slug_eq_of_maximalRuns {name : String}
    (h : lowered.map plainSigma = (lowercase name.toList).map plainSigma)
    (hruns : MaximalRuns lowered runs) : slug name = String.ofList (['-'].intercalate runs) := by
  rw [slug, ← foldl_slugStep_congr h, hruns.foldl_slugStep]

theorem slug_ofList_intercalate (h : ∀ run ∈ runs, IsRun run) :
    slug (String.ofList (['-'].intercalate runs)) = String.ofList (['-'].intercalate runs) := by
  have hslug : IsSlug (['-'].intercalate runs) := isSlug_intercalate h
  refine slug_eq_of_maximalRuns ?_ (maximalRuns_intercalate h)
  rw [String.toList_ofList, hslug.lowercase_eq_self]

/-- Slugs are canonical. `lowered` is the lower-case form of the name, with either small sigma in
each place of one: its maximal runs joined by hyphens, or its other characters turned into hyphens,
none at the ends, are the slug, which has the form of slugs, is empty only if no ASCII letter or
digit is there, and is its own slug. -/
theorem slug_canonical (name : String) (lowered : List Char)
    (h : lowered.map plainSigma = (lowercase name.toList).map plainSigma) :
    (∃ runs, MaximalRuns lowered runs) ∧
      (∀ runs, MaximalRuns lowered runs → slug name = String.ofList (['-'].intercalate runs)) ∧
      slug name = String.ofList (trimHyphens (hyphenate lowered)) ∧
      IsSlug (slug name).toList ∧
      (slug name = "" ↔ ∀ c ∈ lowered, c.isAlphanum = false) ∧
      slug (slug name) = slug name := by
  obtain ⟨runs, hruns⟩ := exists_maximalRuns lowered
  have hslug : slug name = String.ofList (['-'].intercalate runs) := slug_eq_of_maximalRuns h hruns
  refine ⟨⟨runs, hruns⟩, fun _ hothers => slug_eq_of_maximalRuns h hothers, ?_, ?_, ?_, ?_⟩
  · rw [hslug, hruns.trimHyphens_hyphenate]
  · rw [hslug, String.toList_ofList]
    exact isSlug_intercalate hruns.isRun
  · rw [hslug, String.ofList_eq_empty_iff, intercalate_eq_nil_iff hruns.isRun, hruns.eq_nil_iff]
    refine forall₂_congr fun c hc => ?_
    rw [isAlphanum_eq_isSlugChar (isUpper_of_mem_lowered h hc)]
  · rw [hslug, slug_ofList_intercalate hruns.isRun]

/-- The first and the last capital are not of ASCII, but leave a small letter that is; the sigma
ends its word. -/
theorem slug_canonical_mixed :
    ['i', '\u0307', 'ς', '-', '2', '0', 'k'].map plainSigma =
        (lowercase "\u0130Σ-20\u212A".toList).map plainSigma ∧
      MaximalRuns ['i', '\u0307', 'ς', '-', '2', '0', 'k'] [['i'], ['2', '0', 'k']] ∧
      slug "\u0130Σ-20\u212A" = "i-20k" := by
  have hlowered : ['i', '\u0307', 'ς', '-', '2', '0', 'k'].map plainSigma =
      (lowercase "\u0130Σ-20\u212A".toList).map plainSigma := by
    decide +kernel
  have hnumber : MaximalRuns (['2', '0', 'k'] ++ []) [['2', '0', 'k']] :=
    .run ⟨List.cons_ne_nil _ _, List.all_eq_true.mp rfl⟩ (by simp) .nil
  have hruns : MaximalRuns (['i'] ++ ['\u0307', 'ς', '-', '2', '0', 'k'])
      [['i'], ['2', '0', 'k']] :=
    .run ⟨List.cons_ne_nil _ _, List.all_eq_true.mp rfl⟩ (fun c hc => Option.some.inj hc ▸ rfl)
      (.skip rfl (.skip rfl (.skip rfl hnumber)))
  obtain ⟨-, hjoined, -⟩ := slug_canonical _ _ hlowered
  exact ⟨hlowered, hruns, hjoined _ hruns⟩

end Text
end Workplan
