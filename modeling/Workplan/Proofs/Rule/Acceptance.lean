import Workplan.Proofs.Rule.Follow
import Workplan.Proofs.Rule.RoundTrip

/-!
# Which rules are accepted

What may stand on a level is read by the readers of that level, if what comes next does not go on
it: the next symbol decides at each place which reader goes on, so nothing that was given back is
read another way. Together with what the readers may read at all, a text is accepted exactly if it
spells what may stand on the outermost level; and a text that would be accepted if more levels could
open is refused for its nesting and for nothing else.
-/

namespace Workplan
namespace Rule

open Token

variable {α β : Type} {safe : Prop} {s rest : List Char}

/-- `a` is read and `rest` is left over, but for blanks; or reading is refused, which it may not be
where it is `safe`. -/
def Outcome.Reaches (safe : Prop) (a : α) (rest : List Char) (o : Outcome α) : Prop :=
  (∃ r, o = .value a r ∧ skipSpace r = rest) ∨ ¬ safe ∧ o = .tooDeep

namespace Outcome.Reaches

variable {o : Outcome α} {a : α} {b : β} {final : List Char}

theorem of_value {r : List Char} (h : skipSpace r = rest) :
    (Outcome.value a r).Reaches safe a rest :=
  .inl ⟨r, rfl, h⟩

theorem of_tooDeep (h : ¬ safe) : (Outcome.tooDeep : Outcome α).Reaches safe a rest :=
  .inr ⟨h, rfl⟩

/-- Reading goes on after what was read; the other way is not taken. -/
theorem thenElse {next : α → List Char → Outcome β} {other : Outcome β}
    (h : o.Reaches safe a rest)
    (hnext : ∀ r, skipSpace r = rest → (next a r).Reaches safe b final) :
    (o.thenElse next other).Reaches safe b final := by
  rcases h with ⟨r, rfl, hr⟩ | ⟨hsafe, rfl⟩
  · exact hnext r hr
  · exact of_tooDeep hsafe

theorem map (f : α → β) (h : o.Reaches safe a rest) : (o.map f).Reaches safe (f a) rest :=
  h.thenElse fun _ hr => of_value hr

end Outcome.Reaches

/-- What `item` holds of is read where what comes next ends parts of rank `least`. -/
def Takes (safe : Prop) (least : Nat) (reader : List Char → Outcome Expr)
    (item : List Symbol → Expr → Prop) : Prop :=
  ∀ symbols e s rest, item symbols e → Spelled symbols s rest → Stops least rest →
    (reader s).Reaches safe e rest

/-- The readers of a level read all that may stand on it, or refuse. -/
structure Level.Completes (safe : Prop) (l : Level) (f : Forms) : Prop where
  disjunction : Takes safe 0 (fun s => (l.disjunction s).outcome) f.disjunction
  arguments : ∀ c ∈ [')', ']'], ∀ symbols es s rest, f.arguments symbols es →
    Spelled symbols s (c :: rest) → (l.arguments s).outcome.Reaches safe es (c :: rest)
  negation : Takes safe 3 (fun s => (l.negation s).outcome) f.negation
  suffixes : ∀ base, Takes safe 3 (fun s => (l.suffixes base s).outcome) (f.suffixes base)

/-! ## Sequences -/

/-- How a symbol separates parts whose places ask for rank `least`. -/
structure Separates (sep : Separator) (a : Symbol) (least : Nat) : Prop where
  taken : ∀ text next, Spells a text next → sep.take (text ++ next) = some next
  ends : a.Ends least

theorem separates_comma : Separates .comma .comma 0 where
  taken text next h := by
    cases h
    rfl
  ends := .comma

theorem separates_and : Separates .and .and 2 where
  taken _ _ := andSign_of_spells
  ends := .and

theorem separates_or : Separates .or .or 1 where
  taken _ _ := orSign_of_spells
  ends := .or

section Sequences

variable {sep : Separator} {a : Symbol} {least : Nat} {member : Parser Expr}
  {item : List Symbol → Expr → Prop} {symbols : List Symbol} {es : List Expr}

/-- A first member and those after it are read, whatever would be made of no member. -/
theorem members_reach (hsep : Separates sep a least)
    (hmember : Takes safe least (fun s => (member s).outcome) item)
    (h : Separated a item symbols es) (hs : Spelled symbols s rest) (hrest : Stops least rest)
    (hstop : sep.take rest = none) (other : Outcome (List Expr)) :
    ((member s).outcome.thenElse
      (fun e r => (Parser.tail sep member r).map (e :: ·)) other).Reaches safe es rest := by
  -- on the members; `other` varies, since only a first member has none before it to fall back on
  induction h generalizing s other with
  | one he =>
      refine (hmember _ _ s rest he hs hrest).thenElse fun r hr => ?_
      have hnone : sep.take (skipSpace r) = none := hr ▸ hstop
      rw [Parser.tail_none hnone]
      exact .of_value hr
  | more he _ ih =>
      obtain ⟨text, next, hfirst, hspells, hlater⟩ := hs.append_cons
      have hends : Stops least (text ++ next) := stops_of_spells hsep.ends hspells
      refine (hmember _ _ s _ he hfirst hends).thenElse fun r hr => ?_
      have hsome : sep.take (skipSpace r) = some next := hr ▸ hsep.taken text next hspells
      rw [Parser.tail_some hsome]
      exact (ih (hlater.trim hrest.trimmed) (.value [] r)).map _

theorem sequence_reaches (hsep : Separates sep a least)
    (hmember : Takes safe least (fun s => (member s).outcome) item)
    (h : Separated a item symbols es) (hs : Spelled symbols s rest) (hrest : Stops least rest)
    (hstop : sep.take rest = none) :
    (Parser.sequence sep member s).outcome.Reaches safe es rest := by
  rw [Parser.outcome_sequence]
  exact members_reach hsep hmember h hs hrest hstop .noMatch

theorem chain_reaches (hsep : Separates sep a least)
    (hmember : Takes safe least (fun s => (member s).outcome) item) {node : List Expr → Expr}
    {e : Expr} (h : Chained a node item symbols e) (hs : Spelled symbols s rest)
    (hrest : Stops least rest) (hstop : sep.take rest = none) :
    ((Parser.sequence sep member s).outcome.map (Parser.joined node)).Reaches safe e rest := by
  cases h with
  | single he => exact (sequence_reaches hsep hmember (.one he) hs hrest hstop).map _
  | @chain es hes hlength =>
      have hnode : Parser.joined node es = node es := joined_of_two_le hlength
      rw [← hnode]
      exact (sequence_reaches hsep hmember hes hs hrest hstop).map _

end Sequences

/-! ## How parts begin and end -/

namespace Forms

variable {f : Forms} {symbols later : List Symbol} {base e : Expr}

theorem PrimaryOver.first (h : f.PrimaryOver symbols e) :
    ∃ a more, symbols = a :: more ∧ a.Primary := by
  cases h with
  | parens _ => exact ⟨_, _, rfl, .openParen⟩
  | list _ => exact ⟨_, _, rfl, .openBracket⟩
  | literal v => exact ⟨_, _, rfl, .literal v⟩
  | call _ => exact ⟨_, _, rfl, .name _⟩
  | ident name => exact ⟨_, _, rfl, .name name⟩

theorem NegationOver.first (h : f.NegationOver symbols e) :
    ∃ a more, symbols = a :: more ∧ (a.Primary ∨ a = .not) := by
  cases h with
  | plain hprimary _ =>
      obtain ⟨a, more, rfl, ha⟩ := hprimary.first
      exact ⟨a, _, rfl, .inl ha⟩
  | negated _ => exact ⟨.not, _, rfl, .inr rfl⟩

/-- A base ends where its suffixes begin. -/
theorem SuffixesOver.exists_split (h : f.SuffixesOver base later e)
    (hs : Spelled (symbols ++ later) s rest) (hrest : Stops 3 rest) :
    ∃ mid, Spelled symbols s mid ∧ Spelled later mid rest ∧ Stops 4 mid := by
  have hnone : ∀ c ∈ ([] : List Char), IsBlank c := by simp
  cases h with
  | none => exact ⟨rest, by simpa using hs, .refl rest, hrest.succ⟩
  | index _ _ =>
      obtain ⟨text, next, hfront, hopen, hlater⟩ := hs.append_cons
      exact ⟨_, hfront, .symbol hnone hopen hlater, stops_of_spells .openBracket hopen⟩
  | member _ =>
      obtain ⟨text, next, hfront, hdot, hlater⟩ := hs.append_cons
      exact ⟨_, hfront, .symbol hnone hdot hlater, stops_of_spells .dot hdot⟩

end Forms

/-! ## The readers of a level -/

namespace Level

variable {inner : Level} {f : Forms}

theorem closing_of_trimmed {c : Char} {r next : List Char} (h : skipSpace r = c :: next) :
    closing c r = some (skipSpace next) := by
  simp [closing, h]

theorem arguments_reach {item : List Symbol → Expr → Prop}
    (hitem : Takes safe 0 (fun s => (inner.disjunctionOver s).outcome) item) {c : Char}
    (hc : c ∈ [')', ']']) {symbols : List Symbol} {es : List Expr} (h : Listed item symbols es)
    (hs : Spelled symbols s (c :: rest)) :
    (inner.around.arguments s).outcome.Reaches safe es (c :: rest) := by
  have hends : Stops 0 (c :: rest) := by
    rcases List.mem_pair.mp hc with rfl | rfl
    · exact stops_of_spells .closeParen (.closeParen rest)
    · exact stops_of_spells .closeBracket (.closeBracket rest)
  have hstop : Separator.comma.take (c :: rest) = none := by
    rcases List.mem_pair.mp hc with rfl | rfl <;> rfl
  rw [outcome_arguments]
  cases h with
  | none =>
      have hspace := hs.skipSpace_eq hends.trimmed
      have hnone : (inner.around.disjunction s).outcome = .noMatch :=
        disjunctionOver_closing inner hc hspace
      rw [Parser.outcome_sequence, hnone]
      exact .of_value hspace
  | some hes =>
      exact (sequence_reaches separates_comma hitem hes hs hends hstop).thenElse
        fun _ hr => .of_value hr

theorem suffixesOver_takes (hinner : inner.Completes safe f) (base : Expr) :
    Takes safe 3 (fun s => (inner.suffixesOver base s).outcome) (f.SuffixesOver base) := by
  intro symbols e s rest h hs hrest
  cases h with
  | none =>
      have hspace := hs.skipSpace_eq hrest.trimmed
      have hhead := hrest.suffix le_rfl
      show (inner.suffixesOver base s).outcome.Reaches safe base rest
      rw [outcome_suffixesOver_end (hspace ▸ hhead '[' (by decide))
        (hspace ▸ hhead '.' (by decide))]
      exact .of_value hspace
  | index hinside hlater =>
      obtain ⟨text, r, hr, hopen, hs⟩ := hs.cons
      cases hopen
      obtain ⟨text, next, hat, hclose, hs⟩ := hs.append_cons
      have hends := stops_of_spells .closeBracket hclose
      cases hclose
      show (inner.suffixesOver base s).outcome.Reaches safe e rest
      rw [outcome_suffixesOver_bracket (r := r) hr]
      refine (hinner.disjunction _ _ _ _ hinside (hat.trim hends.trimmed) hends).thenElse
        fun q hq => ?_
      simp only [closing_of_trimmed hq]
      exact hinner.suffixes _ _ _ _ _ hlater (hs.trim hrest.trimmed) hrest
  | member hlater =>
      obtain ⟨text, r, hr, hdot, hs⟩ := hs.cons
      cases hdot
      obtain ⟨text, next, hfield, hname, hs⟩ := hs.cons
      show (inner.suffixesOver base s).outcome.Reaches safe e rest
      rw [outcome_suffixesOver_dot (r := r) hr, hfield,
        identifier_eq_some_iff.mpr ⟨text, rfl, hname⟩]
      exact hinner.suffixes _ _ _ _ _ hlater hs hrest

/-- A primary expression is read where no suffix or call goes on it. -/
theorem primaryAt_takes (hinner : inner.Completes safe f) :
    Takes safe 4 (fun s => (inner.primaryAt (skipSpace s)).outcome) f.PrimaryOver := by
  intro symbols e s rest h hs hrest
  show (inner.primaryAt (skipSpace s)).outcome.Reaches safe e rest
  cases h with
  | parens hinside =>
      obtain ⟨text, r, hr, hopen, hs⟩ := hs.cons
      cases hopen
      obtain ⟨text, next, hin, hclose, hs⟩ := hs.append_cons
      have hends := stops_of_spells .closeParen hclose
      cases hclose
      rw [hr]
      show (inner.primaryAt ('(' :: r)).outcome.Reaches safe e rest
      rw [outcome_primaryAt_parens]
      refine (hinner.disjunction _ _ _ _ hinside hin hends).thenElse fun q hq => ?_
      simp only [closing_of_trimmed hq]
      exact .of_value ((skipSpace_skipSpace next).trans (hs.skipSpace_eq hrest.trimmed))
  | list hinside =>
      obtain ⟨text, r, hr, hopen, hs⟩ := hs.cons
      cases hopen
      obtain ⟨text, next, hin, hclose, hs⟩ := hs.append_cons
      cases hclose
      rw [hr]
      show (inner.primaryAt ('[' :: r)).outcome.Reaches safe _ rest
      rw [outcome_primaryAt_list]
      refine (hinner.arguments ']' (by decide) _ _ _ _ hinside hin).thenElse fun q hq => ?_
      simp only [closing_of_trimmed hq]
      exact .of_value ((skipSpace_skipSpace next).trans (hs.skipSpace_eq hrest.trimmed))
  | literal v =>
      obtain ⟨text, next, hr, hspells, hs⟩ := hs.cons
      have hread := literal?_of_spells hspells (hrest.digit_of_spelled hs)
      rw [hr, primaryAt_of_token _ (fun t => ⟨rfl, rfl⟩) hread, outcome_atom, hread]
      exact .of_value (hs.skipSpace_eq hrest.trimmed)
  | call hinside =>
      obtain ⟨text, next, hr, hspells, hs⟩ := hs.cons
      obtain ⟨open_, r, hparen, hopen, hs⟩ := hs.cons
      cases hopen
      obtain ⟨close, final, hin, hclose, hs⟩ := hs.append_cons
      have hends := stops_of_spells .closeParen hclose
      cases hclose
      cases hspells with
      | name hname hword =>
          rw [hr, primaryAt_identifier _ hname hword,
            outcome_callOrIdent_call (identifier_name hname hword) hparen]
          refine (hinner.arguments ')' (by decide) _ _ _ _ hinside
            (hin.trim hends.trimmed)).thenElse fun q hq => ?_
          simp only [closing_of_trimmed hq]
          exact .of_value ((skipSpace_skipSpace final).trans (hs.skipSpace_eq hrest.trimmed))
  | ident name =>
      obtain ⟨text, next, hr, hspells, hs⟩ := hs.cons
      have hspace := hs.skipSpace_eq hrest.trimmed
      cases hspells with
      | name hname hword =>
          rw [hr, primaryAt_identifier _ hname hword,
            outcome_callOrIdent_ident (identifier_name hname hword) (hspace ▸ hrest.call)]
          exact .of_value hspace

theorem primary_takes (hinner : inner.Completes safe f) :
    Takes safe 4 (fun s => (inner.primary s).outcome) f.PrimaryOver := by
  intro symbols e s rest h hs hrest
  show (inner.primary s).outcome.Reaches safe e rest
  rw [outcome_primary]
  exact (primaryAt_takes hinner symbols e s rest h hs hrest).thenElse
    fun r hr => .of_value ((skipSpace_skipSpace r).trans hr)

theorem negationOver_takes (hinner : inner.Completes safe f) :
    Takes safe 3 (fun s => (inner.negationOver s).outcome) f.NegationOver := by
  intro symbols e s rest h hs hrest
  show (inner.negationOver s).outcome.Reaches safe e rest
  cases h with
  | plain hprimary hsuffixes =>
      have hnot : notSign (skipSpace s) = none := by
        obtain ⟨a, more, rfl, ha⟩ := hprimary.first
        obtain ⟨text, next, hr, hspells, -⟩ := Spelled.cons hs
        rw [hr, notSign_of_primary hspells ha]
      obtain ⟨mid, hfront, hlater, hends⟩ := hsuffixes.exists_split hs hrest
      rw [outcome_negationOver_none hnot, outcome_suffixed]
      -- a primary expression leaves no blanks, and suffixes may skip them again
      refine (primary_takes hinner _ _ _ _ hprimary hfront hends).thenElse fun r hr => ?_
      have hspelled := (Spelled.skipSpace r).append (hr ▸ hlater)
      exact suffixesOver_takes hinner _ _ _ _ _ hsuffixes hspelled hrest
  | negated hnegation =>
      obtain ⟨text, next, hr, hspells, hs⟩ := hs.cons
      have hnot : notSign (skipSpace s) = some next := hr ▸ notSign_of_spells hspells
      rw [outcome_negationOver_some hnot]
      exact (hinner.negation _ _ _ _ hnegation (hs.trim hrest.trimmed) hrest).thenElse
        fun r hr => .of_value hr

theorem comparisonOver_takes (hinner : inner.Completes safe f) :
    Takes safe 2 (fun s => (inner.comparisonOver s).outcome) f.ComparisonOver := by
  intro symbols e s rest h hs hrest
  show (inner.comparisonOver s).outcome.Reaches safe e rest
  rw [outcome_comparisonOver]
  cases h with
  | single hnegation =>
      refine (negationOver_takes hinner _ _ _ _ hnegation hs hrest.succ).thenElse fun r hr => ?_
      rw [hr, hrest.comparison le_rfl]
      exact .of_value hr
  | compare hleft hright =>
      obtain ⟨text, next, hfirst, hspells, hs⟩ := hs.append_cons
      have hnext : next.head? ≠ some '=' := by
        obtain ⟨a, more, rfl, ha⟩ := hright.first
        exact Spelled.head_ne_eq hs ha
      have hends := stops_of_spells (.operator _) hspells
      refine (negationOver_takes hinner _ _ _ _ hleft hfirst hends).thenElse fun r hr => ?_
      rw [hr, comparison_of_spells hspells hnext]
      exact (negationOver_takes hinner _ _ _ _ hright (hs.trim hrest.trimmed)
        hrest.succ).thenElse fun r hr => .of_value hr

theorem conjunctionOver_takes (hinner : inner.Completes safe f) :
    Takes safe 1 (fun s => (inner.conjunctionOver s).outcome) f.ConjunctionOver := by
  intro symbols e s rest h hs hrest
  show (inner.conjunctionOver s).outcome.Reaches safe e rest
  rw [outcome_conjunctionOver]
  exact chain_reaches separates_and (comparisonOver_takes hinner) h hs hrest.succ (hrest.and le_rfl)

theorem disjunctionOver_takes (hinner : inner.Completes safe f) :
    Takes safe 0 (fun s => (inner.disjunctionOver s).outcome) f.DisjunctionOver := by
  intro symbols e s rest h hs hrest
  show (inner.disjunctionOver s).outcome.Reaches safe e rest
  rw [outcome_disjunctionOver]
  exact chain_reaches separates_or (conjunctionOver_takes hinner) h hs hrest.succ (hrest.or rfl)

/-- Where nothing is safe, it is enough to refuse. -/
theorem beyond_completes (h : ¬ safe) (f : Forms) : Level.beyond.Completes safe f where
  disjunction _ _ _ _ _ _ _ := .of_tooDeep h
  arguments _ _ _ _ s _ _ _ := by
    rw [outcome_arguments, Parser.outcome_sequence]
    exact .of_tooDeep h
  negation _ _ _ _ _ _ _ := .of_tooDeep h
  suffixes _ _ _ _ _ _ _ _ := .of_tooDeep h

/-- Nothing is to be read where nothing may stand. -/
theorem completes_beyond (l : Level) : l.Completes safe .beyond where
  disjunction _ _ _ _ h := h.elim
  arguments _ _ _ _ _ _ h := h.elim
  negation _ _ _ _ h := h.elim
  suffixes _ _ _ _ _ h := h.elim

theorem around_completes (hinner : inner.Completes safe f) :
    inner.around.Completes safe f.around where
  disjunction := disjunctionOver_takes hinner
  arguments _ hc _ _ _ _ h hs := arguments_reach (disjunctionOver_takes hinner) hc h hs
  negation := negationOver_takes hinner
  suffixes := suffixesOver_takes hinner

end Level

/-- A level reads what may stand on any level, and may refuse it only if that one is further
out. -/
theorem level_completes (m n : Nat) : (level m).Completes (n ≤ m) (forms n) := by
  -- both levels are peeled together: what is left of the smaller one decides whether it is safe
  induction m generalizing n with
  | zero =>
      cases n with
      | zero => exact Level.completes_beyond _
      | succ n => exact Level.beyond_completes (Nat.not_succ_le_zero n) _
  | succ m ih =>
      cases n with
      | zero => exact Level.completes_beyond _
      | succ n =>
          rw [Nat.add_le_add_iff_right]
          exact Level.around_completes (ih n)

/-! ## Whole texts -/

theorem value_of_parse {source : String} {e : Expr} (h : Expr.parse source = .ok e) :
    ∃ rest, ((level (maxNesting + 1)).disjunction (skipSpace source.toList)).outcome =
      .value e rest ∧ skipSpace rest = [] := by
  rw [parse_eq] at h
  split at h
  · cases h
  · cases h
  · next f rest hread =>
    split at h
    · next hrest =>
      obtain rfl := Except.ok.inj h
      exact ⟨rest, hread, hrest⟩
    · cases h

/-- What may stand on some level is accepted, or else refused for its nesting if that level lies
further out than the outermost one. -/
theorem parse_of_forms {source : String} {symbols : List Symbol} {e : Expr} {n : Nat}
    (hs : Spelled symbols source.toList []) (h : (forms n).disjunction symbols e) :
    Expr.parse source = .ok e ∨
      maxNesting + 1 < n ∧ Expr.parse source = .error .tooDeep := by
  have hread := (level_completes (maxNesting + 1) n).disjunction symbols e _ [] h
    (hs.trim rfl) stops_nil
  rcases hread with ⟨r, hvalue, hr⟩ | ⟨hn, hrefused⟩
  · exact .inl (parse_of_value hvalue hr)
  · exact .inr ⟨Nat.lt_of_not_le hn, parse_of_tooDeep hrefused⟩

/-- The texts that are accepted are those that spell what may stand on the outermost level. -/
theorem parse_eq_ok_iff {source : String} {e : Expr} : Expr.parse source = .ok e ↔
    ∃ symbols, Spelled symbols source.toList [] ∧
      (forms (maxNesting + 1)).disjunction symbols e := by
  constructor
  · intro h
    obtain ⟨rest, hvalue, hrest⟩ := value_of_parse h
    obtain ⟨symbols, hsymbols, hitem⟩ := (level_obeys _).disjunction _ e rest hvalue
    have hend : Spelled [] rest [] := hrest ▸ Spelled.skipSpace rest
    refine ⟨symbols, ?_, hitem⟩
    simpa using ((Spelled.skipSpace source.toList).append hsymbols).append hend
  · intro h
    obtain ⟨symbols, hs, hitem⟩ := h
    rcases parse_of_forms hs hitem with hok | ⟨hn, -⟩
    · exact hok
    · exact absurd hn (Nat.lt_irrefl _)

/-- Expressions cannot be compared, but what a function makes of them can. -/
theorem exists_of_parse_map {source : String} {f : Expr → α} {a : α}
    (h : (Expr.parse source).toOption.map f = some a) :
    ∃ e, Expr.parse source = .ok e ∧ f e = a := by
  cases hparse : Expr.parse source with
  | error cause => simp [hparse, Except.toOption] at h
  | ok e => exact ⟨e, rfl, by simpa [hparse, Except.toOption] using h⟩

theorem parse_of_map_error {source : String} {f : Expr → α} {cause : SyntaxError}
    (h : (Expr.parse source).map f = .error cause) : Expr.parse source = .error cause := by
  cases hparse : Expr.parse source with
  | error other => simpa [hparse, Except.map] using h
  | ok e => simp [hparse, Except.map] at h

end Rule
end Workplan
