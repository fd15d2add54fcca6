import Workplan.Proofs.Rule.Printing
import Mathlib.Data.List.DropRight

/-!
# Reading in a place of a rank

What it means that a reader makes of a printed text the expression it was printed from: it does
so if what comes next cannot go on the text, and it refuses exactly where more levels open than
it may open. The reader of a rank reads an expression of another rank through the reader of the
next rank, and the tightest one through parentheses, so an expression that the reader of its own
rank reads is read in every place.
-/

namespace Workplan
namespace Rule

open Token

/-- `a` is read and `rest` is left over, but for blanks, where `fits` holds; or else refused. -/
structure Outcome.Reads {α : Type} (o : Outcome α) (fits : Prop) (a : α) (rest : List Char) :
    Prop where
  within : fits → ∃ r, o = .value a r ∧ skipSpace r = skipSpace rest
  beyond : ¬ fits → o = .tooDeep

namespace Outcome.Reads

variable {α β : Type} {o : Outcome α} {fits other : Prop} {a : α} {b : β}
  {r rest final : List Char}

theorem of_value (h : skipSpace r = skipSpace rest) : (Outcome.value a r).Reads True a rest where
  within _ := ⟨r, rfl, h⟩
  beyond h := absurd trivial h

theorem congr (h : o.Reads fits a rest) (hiff : fits ↔ other) : o.Reads other a rest where
  within hother := h.within (hiff.mpr hother)
  beyond hother := h.beyond fun hfits => hother (hiff.mp hfits)

/-- What is read next has to fit as well. -/
theorem thenElse {next : α → List Char → Outcome β} {otherwise : Outcome β}
    (h : o.Reads fits a rest)
    (hnext : ∀ r, skipSpace r = skipSpace rest → (next a r).Reads other b final) :
    (o.thenElse next otherwise).Reads (fits ∧ other) b final where
  within hboth := by
    obtain ⟨r, ho, hr⟩ := h.within hboth.1
    rw [ho, thenElse_value]
    exact (hnext r hr).within hboth.2
  beyond hboth := by
    by_cases hfits : fits
    · obtain ⟨r, ho, hr⟩ := h.within hfits
      rw [ho, thenElse_value]
      exact (hnext r hr).beyond fun hother => hboth ⟨hfits, hother⟩
    · rw [h.beyond hfits, thenElse_tooDeep]

/-- What comes after fits in any case. -/
theorem andThen {next : α → List Char → Outcome β} {otherwise : Outcome β}
    (h : o.Reads fits a rest)
    (hnext : ∀ r, skipSpace r = skipSpace rest → (next a r).Reads True b final) :
    (o.thenElse next otherwise).Reads fits b final :=
  (h.thenElse hnext).congr (iff_of_eq (and_true fits))

theorem map (f : α → β) (h : o.Reads fits a rest) : (o.map f).Reads fits (f a) rest :=
  h.andThen fun _ hr => of_value hr

end Outcome.Reads

/-! ## What may come next -/

/-- What comes next does not go on a part in a place that asks for rank `least`. -/
structure Ends (least : Nat) (next : List Char) : Prop where
  word : WordEnds next
  bare : ∀ c ∈ ['(', '[', '.'], (skipSpace next).head? ≠ some c
  comparison : least ≤ 2 → Token.comparison (skipSpace next) = none
  and : least ≤ 1 → andSign (skipSpace next) = none
  or : least ≤ 0 → orSign (skipSpace next) = none

namespace Ends

theorem succ {least : Nat} {next : List Char} (h : Ends least next) : Ends (least + 1) next where
  word := h.word
  bare := h.bare
  comparison hle := h.comparison (by omega)
  and hle := h.and (by omega)
  or hle := h.or (by omega)

theorem nil : Ends 0 [] where
  word := by simp [WordEnds]
  bare := by simp [skipSpace]
  comparison _ := rfl
  and _ := rfl
  or _ := rfl

theorem closing {c : Char} (hc : c ∈ [')', ']', ',']) (next : List Char) : Ends 0 (c :: next) := by
  simp only [List.mem_cons, List.not_mem_nil, or_false] at hc
  rcases hc with rfl | rfl | rfl
  all_goals
    refine ⟨wordEnds_cons (by decide), ?_, fun _ => rfl, fun _ => rfl, fun _ => rfl⟩
    simp [skipSpace, isSpace]

theorem orSign (next : List Char) : Ends 1 (" || ".toList ++ next) where
  word := wordEnds_cons (by decide)
  bare := by simp [skipSpace, isSpace]
  comparison _ := rfl
  and _ := rfl
  or h := absurd h (by decide)

theorem andSign (next : List Char) : Ends 2 (" && ".toList ++ next) where
  word := wordEnds_cons (by decide)
  bare := by simp [skipSpace, isSpace]
  comparison _ := rfl
  and h := absurd h (by decide)
  or h := absurd h (by decide)

theorem operator (op : Comparison) (next : List Char) :
    Ends 3 (' ' :: (op.symbol.toList ++ next)) where
  word := wordEnds_cons (by decide)
  bare := by cases op <;> simp [skipSpace, isSpace, Comparison.symbol]
  comparison h := absurd h (by decide)
  and h := absurd h (by decide)
  or h := absurd h (by decide)

end Ends

/-- The operator that is printed is the one that is read. -/
theorem comparison_symbol (op : Comparison) (next : List Char) :
    Token.comparison (skipSpace (' ' :: (op.symbol.toList ++ ' ' :: next))) =
      some (op, ' ' :: next) := by
  cases op <;> rfl

theorem skipSpace_skipSpace (s : List Char) : skipSpace (skipSpace s) = skipSpace s :=
  List.dropWhile_idempotent isSpace s

theorem closing_of_skipSpace {c : Char} {r rest : List Char} (hc : isSpace c = false)
    (h : skipSpace r = skipSpace (c :: rest)) : closing c r = some (skipSpace rest) := by
  have hr : skipSpace r = c :: rest := by simpa [skipSpace, hc] using h
  simp [Token.closing, hr]

/-! ## Sequences -/

/-- How a separator is printed between parts whose places ask for rank `least`. -/
structure Sign (sep : Separator) (least : Nat) (sign : List Char) : Prop where
  taken : ∀ next, sep.take (skipSpace (sign ++ next)) = some (' ' :: next)
  ends : ∀ next, Ends least (sign ++ next)

theorem sign_comma : Sign .comma 0 ", ".toList where
  taken _ := rfl
  ends _ := .closing (by decide) _

theorem sign_and : Sign .and 2 " && ".toList where
  taken _ := rfl
  ends := .andSign

theorem sign_or : Sign .or 1 " || ".toList where
  taken _ := rfl
  ends := .orSign

section Sequences

variable {sep : Separator} {least : Nat} {sign rest : List Char} {member : Parser Expr}
  {fits : Expr → Prop} {es : List Expr}

def later (sign : List Char) (least : Nat) (es : List Expr) : List Char :=
  es.flatMap fun e => sign ++ e.textIn least

theorem ends_later (hsign : Sign sep least sign) (hrest : Ends least rest) (es : List Expr) :
    Ends least (later sign least es ++ rest) := by
  cases es with
  | nil => exact hrest
  | cons e es =>
      simp only [later, List.flatMap_cons, List.append_assoc]
      exact hsign.ends _

theorem tail_reads (hsign : Sign sep least sign) (hrest : Ends least rest)
    (hstop : sep.take (skipSpace rest) = none)
    (hmember : ∀ e ∈ es, Opens (e.textIn least) ∧ ∀ next, Ends least next →
      (member (e.textIn least ++ next)).outcome.Reads (fits e) e next)
    {s : List Char} (hs : skipSpace s = skipSpace (later sign least es ++ rest)) :
    (Parser.tail sep member s).Reads (∀ e ∈ es, fits e) es rest := by
  induction es generalizing s with
  | nil =>
      have hnone : sep.take (skipSpace s) = none := by rw [hs]; exact hstop
      rw [Parser.tail_none hnone]
      exact (Outcome.Reads.of_value hs).congr (by simp)
  | cons e es ih =>
      obtain ⟨⟨hopens, hread⟩, hmember⟩ := List.forall_mem_cons.mp hmember
      have hsome : sep.take (skipSpace s) =
          some (' ' :: (e.textIn least ++ (later sign least es ++ rest))) := by
        rw [hs, ← hsign.taken]
        simp [later]
      have hspace : skipSpace (' ' :: (e.textIn least ++ (later sign least es ++ rest))) =
          e.textIn least ++ (later sign least es ++ rest) := (hopens.append _).skipSpace_eq
      rw [Parser.tail_some hsome, hspace]
      have hfirst := hread _ (ends_later hsign hrest es)
      refine Outcome.Reads.congr (hfirst.thenElse fun r hr => ?_) List.forall_mem_cons.symm
      exact (ih hmember hr).map (e :: ·)

theorem sequence_reads (hsign : Sign sep least sign) (hrest : Ends least rest)
    (hstop : sep.take (skipSpace rest) = none) (hne : es ≠ [])
    (hmember : ∀ e ∈ es, Opens (e.textIn least) ∧ ∀ next, Ends least next →
      (member (e.textIn least ++ next)).outcome.Reads (fits e) e next) :
    (Parser.sequence sep member
      (sign.intercalate (Expr.textAll least es) ++ rest)).outcome.Reads
      (∀ e ∈ es, fits e) es rest := by
  cases es with
  | nil => exact absurd rfl hne
  | cons e es =>
      obtain ⟨⟨-, hread⟩, hmember⟩ := List.forall_mem_cons.mp hmember
      rw [Expr.textAll_eq, Expr.intercalate_map_cons, List.append_assoc, Parser.outcome_sequence]
      have hfirst := hread _ (ends_later hsign hrest es)
      refine Outcome.Reads.congr (hfirst.thenElse fun r hr => ?_) List.forall_mem_cons.symm
      exact (tail_reads hsign hrest hstop hmember hr).map (e :: ·)

end Sequences

/-! ## The reader of each rank -/

/-- A reader reads `e` in a place that asks for rank `least`, at every level. -/
def ReadsAt (reader : Level → Parser Expr) (least : Nat) (e : Expr) : Prop :=
  ∀ m rest, Ends least rest →
    (reader (level m) (e.textIn least ++ rest)).outcome.Reads (e.heightIn least ≤ m) e rest

/-- After `e`, suffixes are read on from the level of its last suffix. -/
structure ReadsBase (e : Expr) : Prop where
  within : ∀ m rest, WordEnds rest → (skipSpace rest).head? ≠ some '(' → e.heightIn 4 ≤ m →
    ∃ r, skipSpace r = skipSpace rest ∧ ((level m).suffixed (e.textIn 4 ++ rest)).outcome =
      ((level (m - e.suffixes)).suffixesOver e r).outcome
  beyond : ∀ m rest, WordEnds rest → (skipSpace rest).head? ≠ some '(' → ¬ e.heightIn 4 ≤ m →
    ((level m).suffixed (e.textIn 4 ++ rest)).outcome = .tooDeep

def ReadsIn : Nat → Expr → Prop
  | 0 => ReadsAt Level.disjunctionOver 0
  | 1 => ReadsAt Level.conjunctionOver 1
  | 2 => ReadsAt Level.comparisonOver 2
  | 3 => ReadsAt Level.negationOver 3
  | _ => ReadsBase

section Ranks

variable {e : Expr} {m : Nat} {rest : List Char}

/-- The disjunction that a level reads takes a level of its own. -/
theorem level_disjunction (h : ReadsIn 0 e) (hends : Ends 0 rest) :
    ((level m).disjunction (e.text ++ rest)).outcome.Reads (e.height < m) e rest := by
  cases m with
  | zero => exact ⟨fun hlt => absurd hlt (Nat.not_lt_zero _), fun _ => rfl⟩
  | succ m =>
      have hread := h m rest hends
      rw [Expr.textIn_of_le (Nat.zero_le _), Expr.heightIn_of_le (Nat.zero_le _)] at hread
      exact hread.congr Nat.lt_succ_iff.symm

theorem level_negation (h : ReadsIn 3 e) (hends : Ends 3 rest) :
    ((level m).negation (e.textIn 3 ++ rest)).outcome.Reads (e.heightIn 3 < m) e rest := by
  cases m with
  | zero => exact ⟨fun hlt => absurd hlt (Nat.not_lt_zero _), fun _ => rfl⟩
  | succ m => exact (h m rest hends).congr Nat.lt_succ_iff.symm

theorem readsIn_three (hprint : e.Printable) (hrank : e.rank ≠ 3) (h : ReadsBase e) :
    ReadsIn 3 e := by
  intro m rest hends
  rw [← Expr.textIn_succ hrank, ← Expr.heightIn_succ hrank]
  have hnot : notSign (skipSpace (e.textIn 4 ++ rest)) = none := by
    rw [((hprint.opens_textIn 4).append rest).skipSpace_eq]
    exact hprint.notSign_textIn hends.word
  have hparen := hends.bare '(' (by decide)
  rw [Level.outcome_negationOver_none hnot]
  refine ⟨fun hfits => ?_, h.beyond m rest hends.word hparen⟩
  obtain ⟨r, hr, heq⟩ := h.within m rest hends.word hparen hfits
  have hbracket : (skipSpace r).head? ≠ some '[' := hr ▸ hends.bare '[' (by decide)
  have hdot : (skipSpace r).head? ≠ some '.' := hr ▸ hends.bare '.' (by decide)
  exact ⟨r, heq.trans (Level.outcome_suffixesOver_end hbracket hdot), hr⟩

theorem readsIn_two (hrank : e.rank ≠ 2) (h : ReadsIn 3 e) : ReadsIn 2 e := by
  intro m rest hends
  rw [← Expr.textIn_succ hrank, ← Expr.heightIn_succ hrank, Level.outcome_comparisonOver]
  refine (h m rest hends.succ).andThen fun r hr => ?_
  rw [hr, hends.comparison le_rfl]
  exact .of_value hr

/-- A chain is read, or its only term if it has only one. -/
theorem chain_reads {sep : Separator} {least : Nat} {sign : List Char} {es : List Expr}
    {reader : Level → Parser Expr} (node : List Expr → Expr) (hsign : Sign sep least sign)
    (hne : es ≠ []) (hprint : ∀ e ∈ es, e.Printable) (h : ∀ e ∈ es, ReadsAt reader least e)
    (hends : Ends least rest) (hstop : sep.take (skipSpace rest) = none) :
    ((Parser.sequence sep (reader (level m))
      (sign.intercalate (Expr.textAll least es) ++ rest)).outcome.map (Parser.joined node)).Reads
      (Expr.heightAll least es ≤ m) (Parser.joined node es) rest := by
  have hmember : ∀ e ∈ es, Opens (e.textIn least) ∧ ∀ next, Ends least next →
      (reader (level m) (e.textIn least ++ next)).outcome.Reads (e.heightIn least ≤ m) e next :=
    fun e he => ⟨(hprint e he).opens_textIn least, h e he m⟩
  have hsequence := sequence_reads hsign hends hstop hne hmember
  exact (hsequence.congr Expr.heightAll_le_iff.symm).map _

/-- A single term is read as itself. -/
theorem single_reads {sep : Separator} {least : Nat} {sign : List Char}
    {reader : Level → Parser Expr} (node : List Expr → Expr) (hsign : Sign sep least sign)
    (hprint : e.Printable) (h : ReadsAt reader least e) (hends : Ends least rest)
    (hstop : sep.take (skipSpace rest) = none) :
    ((Parser.sequence sep (reader (level m)) (e.textIn least ++ rest)).outcome.map
      (Parser.joined node)).Reads (e.heightIn least ≤ m) e rest := by
  have hchain := chain_reads (m := m) node hsign (List.cons_ne_nil e [])
    (List.forall_mem_singleton.mpr hprint) (List.forall_mem_singleton.mpr h) hends hstop
  have htext : sign.intercalate (Expr.textAll least [e]) = e.textIn least := by
    simp [Expr.textAll_eq]
  rw [htext] at hchain
  exact hchain.congr (by simp [Expr.heightAll_le_iff])

theorem readsIn_one (hprint : e.Printable) (hrank : e.rank ≠ 1) (h : ReadsIn 2 e) :
    ReadsIn 1 e := by
  intro m rest hends
  rw [← Expr.textIn_succ hrank, ← Expr.heightIn_succ hrank, Level.outcome_conjunctionOver]
  exact single_reads _ sign_and hprint h hends.succ (hends.and le_rfl)

theorem readsIn_zero (hprint : e.Printable) (hrank : e.rank ≠ 0) (h : ReadsIn 1 e) :
    ReadsIn 0 e := by
  intro m rest hends
  rw [← Expr.textIn_succ hrank, ← Expr.heightIn_succ hrank, Level.outcome_disjunctionOver]
  exact single_reads _ sign_or hprint h hends.succ (hends.or le_rfl)

/-- What the parts of a primary expression are read as is followed by suffixes. -/
theorem readsBase_of_primaryAt (hprint : e.Printable) (hsuffixes : e.suffixes = 0)
    (h : ∀ m rest, WordEnds rest → (skipSpace rest).head? ≠ some '(' →
      ((level m).primaryAt (e.textIn 4 ++ rest)).outcome.Reads (e.heightIn 4 ≤ m) e rest) :
    ReadsBase e := by
  have hopens : ∀ rest, skipSpace (e.textIn 4 ++ rest) = e.textIn 4 ++ rest :=
    fun rest => ((hprint.opens_textIn 4).append rest).skipSpace_eq
  constructor
  · intro m rest hword hparen hfits
    obtain ⟨r, hread, hr⟩ := (h m rest hword hparen).within hfits
    refine ⟨skipSpace r, (skipSpace_skipSpace r).trans hr, ?_⟩
    rw [Level.outcome_suffixed, Level.outcome_primary, hopens, hread, hsuffixes]
    rfl
  · intro m rest hword hparen hfits
    have hread := (h m rest hword hparen).beyond hfits
    rw [Level.outcome_suffixed, Level.outcome_primary, hopens, hread]
    rfl

/-- What binds less tightly is a primary expression in parentheses. -/
theorem readsIn_four (hprint : e.Printable) (hrank : e.rank < 4) (h : ReadsIn 0 e) :
    ReadsIn 4 e := by
  have hsuffixes : e.suffixes = 0 := by
    cases e <;> simp_all [Expr.rank, Expr.suffixes]
  refine readsBase_of_primaryAt hprint hsuffixes fun m rest _ _ => ?_
  have hends : Ends 0 (')' :: rest) := .closing (by decide) rest
  rw [Expr.textIn_of_lt hrank, Expr.heightIn_of_lt hrank, List.cons_append, List.append_assoc,
    Level.outcome_primaryAt_parens]
  refine (level_disjunction h hends).andThen fun r hr => ?_
  rw [closing_of_skipSpace (by decide) hr]
  exact .of_value (skipSpace_skipSpace rest)

/-- Being read goes down the ranks until the rank of the expression itself. -/
theorem readsIn_of_le (hprint : e.Printable) {low high : Nat} (hle : low ≤ high) (hfour : high ≤ 4)
    (hrank : e.rank < low ∨ high ≤ e.rank) (h : ReadsIn high e) : ReadsIn low e := by
  induction high, hle using Nat.le_induction with
  | base => exact h
  | succ high hle ih =>
      have hne : e.rank ≠ high := by omega
      have hprevious : ReadsIn high e := by
        match high with
        | 0 => exact readsIn_zero hprint hne h
        | 1 => exact readsIn_one hprint hne h
        | 2 => exact readsIn_two hne h
        | 3 => exact readsIn_three hprint hne h
        | _ + 4 => omega
      exact ih (by omega) (by omega) hprevious

/-- What the reader of its own rank reads is read everywhere. -/
theorem readsIn_of_rank (hprint : e.Printable) (h : ReadsIn e.rank e) {least : Nat}
    (hfour : least ≤ 4) : ReadsIn least e := by
  rcases Nat.lt_or_ge e.rank least with hlt | hge
  · have hzero : ReadsIn 0 e := readsIn_of_le hprint (Nat.zero_le _) e.rank_le_four (.inr le_rfl) h
    have htight : ReadsIn 4 e := readsIn_four hprint (by omega) hzero
    exact readsIn_of_le hprint hfour le_rfl (.inl hlt) htight
  · exact readsIn_of_le hprint hge e.rank_le_four (.inr le_rfl) h

end Ranks

end Rule
end Workplan
