import Workplan.Proofs.Rule.Rank

/-!
# Printed expressions read back

Every printable expression is read by the reader of its own rank, one case for each node, and
hence by all. A suffix is read on from the level of the last suffix before it.
-/

namespace Workplan
namespace Rule

open Token

section Nodes

variable {m : Nat} {rest : List Char}

/-- No bracket stands where a token can be read that begins with none. -/
theorem primaryAt_of_token (inner : Level) {α : Type} {token : List Char → Option α}
    {s : List Char} {a : α} (htoken : ∀ t, token ('(' :: t) = none ∧ token ('[' :: t) = none)
    (h : token s = some a) : (inner.primaryAt s).outcome = (inner.atom s).outcome := by
  refine Level.outcome_primaryAt_atom ?_ ?_
  all_goals
    intro hhead
    obtain ⟨t, rfl⟩ := List.head?_eq_some_iff.mp hhead
    simp [htoken] at h

theorem reads_literal (v : Literal) : ReadsBase (.literal v) := by
  refine readsBase_of_primaryAt (.literal v) rfl fun m rest hword _ => ?_
  have hread := literal?_text v hword
  show ((level m).primaryAt (v.text ++ rest)).outcome.Reads _ _ rest
  rw [primaryAt_of_token _ (fun t => ⟨rfl, rfl⟩) hread, Level.outcome_atom, hread]
  exact (Outcome.Reads.of_value rfl).congr (iff_of_true trivial (Nat.zero_le m))

theorem primaryAt_identifier (inner : Level) {name : String} (h : IsIdentifier name)
    (hword : WordEnds rest) : (inner.primaryAt (name.toList ++ rest)).outcome =
      (inner.callOrIdent (name.toList ++ rest)).outcome := by
  rw [primaryAt_of_token _ (fun t => ⟨rfl, rfl⟩) (identifier_name h hword), Level.outcome_atom,
    literal?_identifier h hword]

theorem reads_ident {name : String} (h : IsIdentifier name) : ReadsBase (.ident name) := by
  refine readsBase_of_primaryAt (.ident h) rfl fun m rest hword hparen => ?_
  show ((level m).primaryAt (name.toList ++ rest)).outcome.Reads _ _ rest
  rw [primaryAt_identifier _ h hword,
    Level.outcome_callOrIdent_ident (identifier_name h hword) hparen]
  exact (Outcome.Reads.of_value rfl).congr (iff_of_true trivial (Nat.zero_le m))

/-- Nothing begins where a list or a call ends. -/
theorem disjunctionOver_closing (inner : Level) {c : Char} (hc : c ∈ [')', ']']) {s : List Char}
    (hspace : skipSpace s = c :: rest) : (inner.disjunctionOver s).outcome = .noMatch := by
  have hprimary : (inner.primary s).outcome = .noMatch := by
    have hliteral : literal? (c :: rest) = none := by
      rcases List.mem_pair.mp hc with rfl | rfl <;> rfl
    have hname : identifier (c :: rest) = none := by
      rcases List.mem_pair.mp hc with rfl | rfl <;> rfl
    have hhead : (c :: rest).head? ≠ some '(' ∧ (c :: rest).head? ≠ some '[' := by
      rcases List.mem_pair.mp hc with rfl | rfl <;> simp
    rw [Level.outcome_primary, hspace, Level.outcome_primaryAt_atom hhead.1 hhead.2,
      Level.outcome_atom, hliteral]
    show (inner.callOrIdent (c :: rest)).outcome.thenElse _ _ = _
    rw [Level.outcome_callOrIdent_none hname, Outcome.thenElse_noMatch]
  have hnegation : (inner.negationOver s).outcome = .noMatch := by
    have hnot : notSign (skipSpace s) = none := by
      rw [hspace]
      rcases List.mem_pair.mp hc with rfl | rfl <;> rfl
    rw [Level.outcome_negationOver_none hnot, Level.outcome_suffixed, hprimary]
    rfl
  simp only [Level.outcome_disjunctionOver, Level.outcome_conjunctionOver,
    Level.outcome_comparisonOver, Parser.outcome_sequence, hnegation, Outcome.thenElse_noMatch,
    Outcome.map_noMatch]

theorem arguments_reads {items : List Expr} (hprint : ∀ e ∈ items, e.Printable)
    (h : ∀ e ∈ items, ReadsIn 0 e) {c : Char} (hc : c ∈ [')', ']']) :
    ((level m).arguments
      (", ".toList.intercalate (Expr.textAll 0 items) ++ c :: rest)).outcome.Reads
      (Expr.heightAll 0 items < m) items (c :: rest) := by
  cases items with
  | nil =>
      show ((level m).arguments (c :: rest)).outcome.Reads (0 < m) [] (c :: rest)
      rw [Level.outcome_arguments, Parser.outcome_sequence]
      cases m with
      | zero => exact ⟨fun hlt => absurd hlt (Nat.not_lt_zero _), fun _ => rfl⟩
      | succ m =>
          have hspace : skipSpace (c :: rest) = c :: rest := by
            rcases List.mem_pair.mp hc with rfl | rfl <;> rfl
          have hnone : ((level (m + 1)).disjunction (c :: rest)).outcome = .noMatch :=
            disjunctionOver_closing (level m) hc hspace
          rw [hnone]
          exact (Outcome.Reads.of_value rfl).congr (iff_of_true trivial (Nat.succ_pos m))
  | cons e es =>
      have hends : Ends 0 (c :: rest) := .closing (List.mem_append_left [','] hc) rest
      have hstop : Separator.comma.take (skipSpace (c :: rest)) = none := by
        rcases List.mem_pair.mp hc with rfl | rfl <;> rfl
      have hmember : ∀ f ∈ e :: es, Opens (f.textIn 0) ∧ ∀ next, Ends 0 next →
          ((level m).disjunction (f.textIn 0 ++ next)).outcome.Reads (f.heightIn 0 < m) f next :=
        fun f hf => ⟨(hprint f hf).opens_textIn 0, fun _ => level_disjunction (h f hf)⟩
      have hsequence := sequence_reads sign_comma hends hstop (List.cons_ne_nil e es) hmember
      rw [Level.outcome_arguments]
      refine (hsequence.andThen fun r hr => .of_value hr).congr ?_
      rw [Expr.heightAll_lt_iff, iff_and_self]
      exact fun hall => Nat.lt_of_le_of_lt (Nat.zero_le _) (hall e List.mem_cons_self)

theorem reads_list {items : List Expr} (hprint : ∀ e ∈ items, e.Printable)
    (h : ∀ e ∈ items, ReadsIn 0 e) : ReadsBase (.list items) := by
  refine readsBase_of_primaryAt (.list hprint) rfl fun m rest _ _ => ?_
  rw [Expr.textIn_list, List.cons_append, List.append_assoc, Level.outcome_primaryAt_list]
  refine (arguments_reads hprint h (by decide)).andThen fun r hr => ?_
  rw [closing_of_skipSpace (by decide) hr]
  exact .of_value (skipSpace_skipSpace rest)

theorem opens_arguments {items : List Expr} (hprint : ∀ e ∈ items, e.Printable) {c : Char}
    (hc : c ∈ [')', ']']) :
    Opens (", ".toList.intercalate (Expr.textAll 0 items) ++ c :: rest) := by
  cases items with
  | nil =>
      refine ⟨c, rest, rfl, ?_, ?_⟩
      all_goals rcases List.mem_pair.mp hc with rfl | rfl <;> decide
  | cons e es =>
      rw [Expr.textAll_eq, Expr.intercalate_map_cons, List.append_assoc]
      exact ((hprint e List.mem_cons_self).opens_textIn 0).append _

theorem reads_call {function : String} {arguments : List Expr} (hname : IsIdentifier function)
    (hprint : ∀ e ∈ arguments, e.Printable) (h : ∀ e ∈ arguments, ReadsIn 0 e) :
    ReadsBase (.call function arguments) := by
  refine readsBase_of_primaryAt (.call hname hprint) rfl fun m rest _ _ => ?_
  have htext : (Expr.call function arguments).textIn 4 ++ rest = function.toList ++
      '(' :: (", ".toList.intercalate (Expr.textAll 0 arguments) ++ ')' :: rest) := by
    rw [Expr.textIn_call]
    simp
  have hopens : Opens (", ".toList.intercalate (Expr.textAll 0 arguments) ++ ')' :: rest) :=
    opens_arguments hprint (by decide)
  rw [htext]
  generalize hinside : ", ".toList.intercalate (Expr.textAll 0 arguments) ++ ')' :: rest = inside
    at hopens ⊢
  have hword : WordEnds ('(' :: inside) := wordEnds_cons (by decide)
  have hparen : skipSpace ('(' :: inside) = '(' :: inside := rfl
  rw [primaryAt_identifier _ hname hword,
    Level.outcome_callOrIdent_call (identifier_name hname hword) hparen, hopens.skipSpace_eq,
    ← hinside]
  refine (arguments_reads hprint h (by decide)).andThen fun r hr => ?_
  rw [closing_of_skipSpace (by decide) hr]
  exact .of_value (skipSpace_skipSpace rest)

/-- One suffix more, which lies a level below the last one before it. -/
theorem ReadsBase.suffix {base e : Expr} (hbase : ReadsBase base) {c : Char} {text : List Char}
    (fits : Nat → Prop) (hc : c ∈ ['[', '.']) (htext : e.textIn 4 = base.textIn 4 ++ c :: text)
    (hsuffixes : e.suffixes = base.suffixes + 1)
    (hheight : ∀ m, e.heightIn 4 ≤ m ↔ base.heightIn 4 ≤ m ∧ fits (m - base.suffixes))
    (hwithin : ∀ m r rest, WordEnds rest → skipSpace r = c :: (text ++ rest) → fits m →
      ∃ q, skipSpace q = skipSpace rest ∧ ((level m).suffixesOver base r).outcome =
        ((level (m - 1)).suffixesOver e q).outcome)
    (hbeyond : ∀ m r rest, WordEnds rest → skipSpace r = c :: (text ++ rest) → ¬ fits m →
      ((level m).suffixesOver base r).outcome = .tooDeep) : ReadsBase e := by
  have hnext : ∀ rest, e.textIn 4 ++ rest = base.textIn 4 ++ c :: (text ++ rest) := by
    simp [htext]
  have hword : ∀ s, WordEnds (c :: s) := by
    rcases List.mem_pair.mp hc with rfl | rfl <;> exact fun s => wordEnds_cons (by decide)
  have hspace : ∀ s, skipSpace (c :: s) = c :: s := by
    rcases List.mem_pair.mp hc with rfl | rfl <;> exact fun s => rfl
  have hparen : ∀ s, (skipSpace (c :: s)).head? ≠ some '(' := by
    rcases List.mem_pair.mp hc with rfl | rfl <;> simp [hspace]
  constructor
  · intro m rest hends _ hfits
    obtain ⟨hlow, hsuffix⟩ := (hheight m).mp hfits
    obtain ⟨r, hr, hread⟩ := hbase.within m _ (hword (text ++ rest)) (hparen _) hlow
    obtain ⟨q, hq, hstep⟩ := hwithin _ r rest hends (hr.trans (hspace _)) hsuffix
    exact ⟨q, hq, by rw [hnext, hread, hstep, hsuffixes, Nat.sub_sub]⟩
  · intro m rest hends _ hfits
    rw [hnext]
    by_cases hlow : base.heightIn 4 ≤ m
    · obtain ⟨r, hr, hread⟩ := hbase.within m _ (hword (text ++ rest)) (hparen _) hlow
      have hsuffix : ¬ fits (m - base.suffixes) := fun h => hfits ((hheight m).mpr ⟨hlow, h⟩)
      rw [hread, hbeyond _ r rest hends (hr.trans (hspace _)) hsuffix]
    · exact hbase.beyond m _ (hword _) (hparen _) hlow

theorem reads_index {base at_ : Expr} (hat : at_.Printable) (hbase : ReadsIn 4 base)
    (h : ReadsIn 0 at_) : ReadsBase (.index base at_) := by
  have hinside : ∀ m rest, ((level m).disjunction (at_.text ++ ']' :: rest)).outcome.Reads
      (at_.height < m) at_ (']' :: rest) :=
    fun m rest => level_disjunction h (.closing (by decide) rest)
  have hsuffix : ∀ m r rest, skipSpace r = '[' :: (at_.text ++ [']'] ++ rest) →
      ((level m).suffixesOver base r).outcome =
        ((level m).disjunction (at_.text ++ ']' :: rest)).outcome.thenElse (fun e next =>
          (closing ']' next).elim (.value base r)
            fun final => ((level m).suffixes (.index base e) final).outcome) (.value base r) := by
    intro m r rest hr
    rw [Level.outcome_suffixesOver_bracket hr, List.append_assoc,
      (hat.opens_text.append _).skipSpace_eq]
    congr 1
    funext e next
    cases closing ']' next <;> rfl
  refine ReadsBase.suffix hbase (fun m => at_.height < m) (by decide)
    (Expr.textIn_index base at_) rfl ?_ ?_ ?_
  · intro m
    have hchain := base.suffixes_le_heightIn
    show max (base.heightIn 4) (base.suffixes + 1 + at_.height) ≤ m ↔ _
    omega
  · intro m r rest _ hr hfits
    obtain ⟨next, hread, hnext⟩ := (hinside m rest).within hfits
    refine ⟨skipSpace rest, skipSpace_skipSpace rest, ?_⟩
    rw [hsuffix m r rest hr, hread, Outcome.thenElse_value, closing_of_skipSpace (by decide) hnext]
    cases m with
    | zero => exact absurd hfits (Nat.not_lt_zero _)
    | succ m => rfl
  · intro m r rest _ hr hfits
    rw [hsuffix m r rest hr, (hinside m rest).beyond hfits, Outcome.thenElse_tooDeep]

theorem reads_member {base : Expr} {field : String} (hbase : ReadsIn 4 base)
    (h : IsIdentifier field) : ReadsBase (.member base field) := by
  have hsuffix : ∀ m r rest, WordEnds rest → skipSpace r = '.' :: (field.toList ++ rest) →
      ((level m).suffixesOver base r).outcome =
        ((level m).suffixes (.member base field) rest).outcome := by
    intro m r rest hword hr
    rw [Level.outcome_suffixesOver_dot hr, ((opens_identifier h).append rest).skipSpace_eq,
      identifier_name h hword]
  refine ReadsBase.suffix hbase (fun m => 0 < m) (by decide)
    (Expr.textIn_member base field) rfl ?_ ?_ ?_
  · intro m
    have hchain := base.suffixes_le_heightIn
    show max (base.heightIn 4) (base.suffixes + 1) ≤ m ↔ _
    omega
  · intro m r rest hword hr hfits
    refine ⟨rest, rfl, ?_⟩
    rw [hsuffix m r rest hword hr]
    cases m with
    | zero => exact absurd hfits (Nat.lt_irrefl 0)
    | succ m => rfl
  · intro m r rest hword hr hfits
    obtain rfl : m = 0 := by omega
    exact hsuffix 0 r rest hword hr

theorem reads_negation {operand : Expr} (hprint : operand.Printable) (h : ReadsIn 3 operand) :
    ReadsIn 3 (.negation operand) := by
  intro m rest hends
  show ((level m).negationOver ('!' :: (operand.textIn 3 ++ rest))).outcome.Reads
    (operand.heightIn 3 + 1 ≤ m) _ rest
  have hopens : Opens (operand.textIn 3 ++ rest) := (hprint.opens_textIn 3).append rest
  have hnot : notSign (skipSpace ('!' :: (operand.textIn 3 ++ rest))) =
      some (operand.textIn 3 ++ rest) := hopens.notSign_eq
  rw [Level.outcome_negationOver_some hnot, hopens.skipSpace_eq]
  exact (level_negation h hends).andThen fun r hr => .of_value hr

theorem reads_compare {left right : Expr} (op : Comparison) (hprint : right.Printable)
    (hleft : ReadsIn 3 left) (hright : ReadsIn 3 right) :
    ReadsIn 2 (.compare op left right) := by
  intro m rest hends
  have htext : (Expr.compare op left right).textIn 2 ++ rest =
      left.textIn 3 ++ ' ' :: (op.symbol.toList ++ ' ' :: (right.textIn 3 ++ rest)) := by
    show left.textIn 3 ++ ' ' :: (op.symbol.toList ++ ' ' :: right.textIn 3) ++ rest = _
    simp
  have hspace : skipSpace (' ' :: (right.textIn 3 ++ rest)) = right.textIn 3 ++ rest :=
    ((hprint.opens_textIn 3).append rest).skipSpace_eq
  rw [htext, Level.outcome_comparisonOver]
  refine Outcome.Reads.congr ((hleft m _ (.operator op _)).thenElse fun r hr => ?_) Nat.max_le.symm
  rw [hr, comparison_symbol]
  show Outcome.Reads (((level m).negationOver
    (skipSpace (' ' :: (right.textIn 3 ++ rest)))).outcome.thenElse _ _) _ _ rest
  rw [hspace]
  exact (hright m rest hends.succ).andThen fun r hr => .of_value hr

theorem joined_of_two_le {node : List Expr → Expr} {terms : List Expr} (h : 2 ≤ terms.length) :
    Parser.joined node terms = node terms := by
  match terms with
  | [] => rfl
  | [e] => simp at h
  | _ :: _ :: _ => rfl

theorem reads_conjunction {terms : List Expr} (hlength : 2 ≤ terms.length)
    (hprint : ∀ e ∈ terms, e.Printable) (h : ∀ e ∈ terms, ReadsIn 2 e) :
    ReadsIn 1 (.conjunction terms) := by
  intro m rest hends
  have hne : terms ≠ [] := by
    rintro rfl
    simp at hlength
  have hchain := chain_reads (m := m) .conjunction sign_and hne hprint h hends.succ
    (hends.and le_rfl)
  rw [joined_of_two_le hlength] at hchain
  rw [Level.outcome_conjunctionOver]
  exact hchain

theorem reads_disjunction {terms : List Expr} (hlength : 2 ≤ terms.length)
    (hprint : ∀ e ∈ terms, e.Printable) (h : ∀ e ∈ terms, ReadsIn 1 e) :
    ReadsIn 0 (.disjunction terms) := by
  intro m rest hends
  have hne : terms ≠ [] := by
    rintro rfl
    simp at hlength
  have hchain := chain_reads (m := m) .disjunction sign_or hne hprint h hends.succ
    (hends.or le_rfl)
  rw [joined_of_two_le hlength] at hchain
  rw [Level.outcome_disjunctionOver]
  exact hchain

/-- Every printable expression is read by the reader of its own rank. -/
theorem Expr.Printable.reads {e : Expr} (h : e.Printable) : ReadsIn e.rank e := by
  induction h with
  | literal v => exact reads_literal v
  | ident hname => exact reads_ident hname
  | list hprint ih =>
      exact reads_list hprint fun e he => readsIn_of_rank (hprint e he) (ih e he) (by decide)
  | index hbase hat ihbase ihat =>
      exact reads_index hat (readsIn_of_rank hbase ihbase le_rfl)
        (readsIn_of_rank hat ihat (by decide))
  | member hbase hfield ih => exact reads_member (readsIn_of_rank hbase ih le_rfl) hfield
  | call hname hprint ih =>
      exact reads_call hname hprint fun e he => readsIn_of_rank (hprint e he) (ih e he) (by decide)
  | negation hoperand ih =>
      exact reads_negation hoperand (readsIn_of_rank hoperand ih (by decide))
  | compare op hleft hright ihleft ihright =>
      exact reads_compare op hright (readsIn_of_rank hleft ihleft (by decide))
        (readsIn_of_rank hright ihright (by decide))
  | conjunction hlength hprint ih =>
      exact reads_conjunction hlength hprint fun e he =>
        readsIn_of_rank (hprint e he) (ih e he) (by decide)
  | disjunction hlength hprint ih =>
      exact reads_disjunction hlength hprint fun e he =>
        readsIn_of_rank (hprint e he) (ih e he) (by decide)

end Nodes

theorem parse_of_value {source : String} {e : Expr} {rest : List Char}
    (h : ((level (maxNesting + 1)).disjunction (skipSpace source.toList)).outcome = .value e rest)
    (hrest : skipSpace rest = []) : Expr.parse source = .ok e := by
  rw [parse_eq, h]
  simp only [hrest]

theorem parse_of_tooDeep {source : String}
    (h : ((level (maxNesting + 1)).disjunction (skipSpace source.toList)).outcome = .tooDeep) :
    Expr.parse source = .error .tooDeep := by
  rw [parse_eq, h]

/-- What is printed is read back, unless a level lies beyond the limit. -/
theorem parse_print {e : Expr} (h : e.Printable) :
    Expr.parse e.print = if e.height ≤ maxNesting then .ok e else .error .tooDeep := by
  have hsource : skipSpace e.print.toList = e.text ++ [] := by
    rw [Expr.print, String.toList_ofList, h.opens_text.skipSpace_eq, List.append_nil]
  have hread := level_disjunction (m := maxNesting + 1)
    (readsIn_of_rank h h.reads (Nat.zero_le 4)) Ends.nil
  rw [← hsource] at hread
  split
  · next hfits =>
    obtain ⟨rest, hvalue, hrest⟩ := hread.within (Nat.lt_succ_of_le hfits)
    exact parse_of_value hvalue hrest
  · next hfits =>
    exact parse_of_tooDeep (hread.beyond fun hlt => hfits (Nat.le_of_lt_succ hlt))

/-- Negations are printed without parentheses, and one more of them is one too many. -/
theorem parse_print_limit :
    Expr.parse (Expr.negation^[64] (.ident "a")).print = .ok (Expr.negation^[64] (.ident "a")) ∧
      Expr.parse (Expr.negation^[65] (.ident "a")).print = .error .tooDeep := by
  have hname : IsIdentifier "a" := ⟨⟨'a', [], rfl, by decide, by simp⟩, by decide⟩
  have hprint : ∀ n, (Expr.negation^[n] (.ident "a")).Printable := by
    intro n
    induction n with
    | zero => exact .ident hname
    | succ n ih =>
        rw [Function.iterate_succ_apply']
        exact .negation ih
  have hrank : ∀ n, 3 ≤ (Expr.negation^[n] (.ident "a")).rank := by
    intro n
    cases n with
    | zero => decide
    | succ n =>
        rw [Function.iterate_succ_apply']
        exact le_rfl
  have hheight : ∀ n, (Expr.negation^[n] (.ident "a")).height = n := by
    intro n
    induction n with
    | zero => rfl
    | succ n ih =>
        rw [Function.iterate_succ_apply']
        show Expr.heightIn 3 _ + 1 = n + 1
        rw [Expr.heightIn_of_le (hrank n), ih]
  refine ⟨(parse_print (hprint 64)).trans (if_pos ?_), (parse_print (hprint 65)).trans (if_neg ?_)⟩
  · rw [hheight]
    decide
  · rw [hheight]
    decide

/-- Parentheses stand where a part binds less tightly than its place asks for, and nowhere else. -/
example :
    (Expr.conjunction [.compare .notIn (.negation (.ident "a")) (.member (.ident "b") "c"),
      .disjunction [.ident "order", .index (.negation (.ident "d")) (.literal (.int (-1)))],
      .call "f" [.literal (.str "x\"y")]]).print =
      "!a not in b.c && (order || (!d)[-1]) && f(\"x\\\"y\")" := by
  decide

end Rule
end Workplan
