import Workplan.Proofs.Rule.Reading
import Workplan.Proofs.Rule.Spelling

/-!
# What may stand on a nesting level

Which texts spell a sequence of symbols, and which sequences of symbols may stand in each place of
a nesting level, given what may stand on the level inside it. So how deep an expression nests is
the index of the level, not a measure of its tree: parentheses open a level and leave no node.
The readers of a level read nothing but what may stand on it.
-/

namespace Workplan
namespace Rule

open Token

/-- At least one item, each of which stands for an expression, with `sep` between them. -/
inductive Separated (sep : Symbol) (item : List Symbol → Expr → Prop) :
    List Symbol → List Expr → Prop where
  | one {symbols : List Symbol} {e : Expr} : item symbols e → Separated sep item symbols [e]
  | more {symbols later : List Symbol} {e : Expr} {es : List Expr} : item symbols e →
      Separated sep item later es → Separated sep item (symbols ++ sep :: later) (e :: es)

/-- A text spells symbols, with blanks anywhere between them and at both ends, up to `rest`. -/
inductive Spelled : List Symbol → (s rest : List Char) → Prop where
  | done {blanks rest : List Char} : (∀ c ∈ blanks, IsBlank c) → Spelled [] (blanks ++ rest) rest
  | symbol {a : Symbol} {symbols : List Symbol} {blanks text next rest : List Char} :
      (∀ c ∈ blanks, IsBlank c) → Spells a text next → Spelled symbols next rest →
        Spelled (a :: symbols) (blanks ++ (text ++ next)) rest

/-! ## Places on a level -/

/-- What may stand on a nesting level, by the places where it does: in brackets, as arguments,
after `!`, and as the suffixes of a base. -/
structure Forms where
  disjunction : List Symbol → Expr → Prop
  arguments : List Symbol → List Expr → Prop
  negation : List Symbol → Expr → Prop
  suffixes : Expr → List Symbol → Expr → Prop

/-- One item for itself, or several with `sep` between them for a node. -/
inductive Chained (sep : Symbol) (node : List Expr → Expr) (item : List Symbol → Expr → Prop) :
    List Symbol → Expr → Prop where
  | single {symbols : List Symbol} {e : Expr} : item symbols e → Chained sep node item symbols e
  | chain {symbols : List Symbol} {es : List Expr} : Separated sep item symbols es →
      2 ≤ es.length → Chained sep node item symbols (node es)

inductive Listed (item : List Symbol → Expr → Prop) : List Symbol → List Expr → Prop where
  | none : Listed item [] []
  | some {symbols : List Symbol} {es : List Expr} : Separated .comma item symbols es →
      Listed item symbols es

namespace Forms

def beyond : Forms where
  disjunction _ _ := False
  arguments _ _ := False
  negation _ _ := False
  suffixes _ _ _ := False

/-- A primary expression whose brackets open the level `inner`. -/
inductive PrimaryOver (inner : Forms) : List Symbol → Expr → Prop where
  | parens {symbols : List Symbol} {e : Expr} : inner.disjunction symbols e →
      PrimaryOver inner (.openParen :: (symbols ++ [.closeParen])) e
  | list {symbols : List Symbol} {items : List Expr} : inner.arguments symbols items →
      PrimaryOver inner (.openBracket :: (symbols ++ [.closeBracket])) (.list items)
  | literal (value : Literal) : PrimaryOver inner [.literal value] (.literal value)
  | call {symbols : List Symbol} {function : String} {arguments : List Expr} :
      inner.arguments symbols arguments →
        PrimaryOver inner (.name function :: .openParen :: (symbols ++ [.closeParen]))
          (.call function arguments)
  | ident (name : String) : PrimaryOver inner [.name name] (.ident name)

/-- The suffixes of `base`, the first of which opens the level `inner` for those after it. -/
inductive SuffixesOver (inner : Forms) (base : Expr) : List Symbol → Expr → Prop where
  | none : SuffixesOver inner base [] base
  | index {inside later : List Symbol} {at_ e : Expr} : inner.disjunction inside at_ →
      inner.suffixes (.index base at_) later e →
        SuffixesOver inner base (.openBracket :: (inside ++ .closeBracket :: later)) e
  | member {later : List Symbol} {field : String} {e : Expr} :
      inner.suffixes (.member base field) later e →
        SuffixesOver inner base (.dot :: .name field :: later) e

inductive NegationOver (inner : Forms) : List Symbol → Expr → Prop where
  | plain {symbols later : List Symbol} {base e : Expr} : PrimaryOver inner symbols base →
      SuffixesOver inner base later e → NegationOver inner (symbols ++ later) e
  | negated {symbols : List Symbol} {e : Expr} : inner.negation symbols e →
      NegationOver inner (.not :: symbols) (.negation e)

inductive ComparisonOver (inner : Forms) : List Symbol → Expr → Prop where
  | single {symbols : List Symbol} {e : Expr} : NegationOver inner symbols e →
      ComparisonOver inner symbols e
  | compare {symbols later : List Symbol} {op : Comparison} {left right : Expr} :
      NegationOver inner symbols left → NegationOver inner later right →
        ComparisonOver inner (symbols ++ .operator op :: later) (.compare op left right)

abbrev ConjunctionOver (inner : Forms) : List Symbol → Expr → Prop :=
  Chained .and .conjunction (ComparisonOver inner)

abbrev DisjunctionOver (inner : Forms) : List Symbol → Expr → Prop :=
  Chained .or .disjunction (ConjunctionOver inner)

def around (inner : Forms) : Forms where
  disjunction := DisjunctionOver inner
  arguments := Listed (DisjunctionOver inner)
  negation := NegationOver inner
  suffixes := SuffixesOver inner

end Forms

/-- What may stand on a level inside which `n - 1` further levels may open. -/
def forms : Nat → Forms
  | 0 => .beyond
  | n + 1 => (forms n).around

/-! ## Spelled texts -/

namespace Spelled

variable {a : Symbol} {symbols later : List Symbol} {blanks s r rest : List Char}

theorem refl (s : List Char) : Spelled [] s s := by
  have hblanks : ∀ c ∈ ([] : List Char), IsBlank c := by simp
  exact .done hblanks

theorem skipSpace (s : List Char) : Spelled [] s (skipSpace s) := by
  obtain ⟨blanks, hs, hblanks⟩ := exists_blanks s
  have hdone : Spelled [] (blanks ++ Token.skipSpace s) (Token.skipSpace s) := .done hblanks
  rwa [← hs] at hdone

/-- More blanks may stand in front. -/
theorem blanks_append (hblanks : ∀ c ∈ blanks, IsBlank c) (h : Spelled symbols s rest) :
    Spelled symbols (blanks ++ s) rest := by
  cases h with
  | @done others _ hothers =>
      rw [← List.append_assoc]
      exact .done (List.forall_mem_append.mpr ⟨hblanks, hothers⟩)
  | @symbol _ _ others _ _ _ hothers hspells hnext =>
      rw [← List.append_assoc]
      exact .symbol (List.forall_mem_append.mpr ⟨hblanks, hothers⟩) hspells hnext

theorem append (h : Spelled symbols s r) (hlater : Spelled later r rest) :
    Spelled (symbols ++ later) s rest := by
  induction h with
  | done hblanks => exact hlater.blanks_append hblanks
  | symbol hblanks hspells _ ih => exact .symbol hblanks hspells (ih hlater)

theorem of_begins (h : Begins a s rest) : Spelled [a] s rest := by
  obtain ⟨text, rfl, hspells⟩ := h
  have hblanks : ∀ c ∈ ([] : List Char), IsBlank c := by simp
  exact .symbol hblanks hspells (refl rest)

/-- A symbol after blanks. -/
theorem of_begins_skipSpace (h : Begins a (Token.skipSpace s) rest) : Spelled [a] s rest :=
  (skipSpace s).append (of_begins h)

/-- A symbol between blanks. -/
theorem of_closing {c : Char} (hspells : ∀ next, Spells a [c] next)
    (h : closing c s = some rest) : Spelled [a] s rest := by
  unfold closing at h
  split at h
  · next d r heq =>
    obtain ⟨rfl, rfl⟩ : d = c ∧ Token.skipSpace r = rest := by simpa using h
    have hbegins : Begins a (Token.skipSpace s) r := ⟨[d], heq, hspells r⟩
    exact (of_begins_skipSpace hbegins).append (skipSpace r)
  · cases h

end Spelled

/-! ## What is read may stand there -/

/-- Whatever is read is spelled by symbols that stand for it. -/
def Yields {α : Type} (reader : List Char → Outcome α) (item : List Symbol → α → Prop) : Prop :=
  ∀ s a rest, reader s = .value a rest → ∃ symbols, Spelled symbols s rest ∧ item symbols a

structure Level.Obeys (l : Level) (f : Forms) : Prop where
  disjunction : Yields (fun s => (l.disjunction s).outcome) f.disjunction
  arguments : Yields (fun s => (l.arguments s).outcome) f.arguments
  negation : Yields (fun s => (l.negation s).outcome) f.negation
  suffixes : ∀ base, Yields (fun s => (l.suffixes base s).outcome) (f.suffixes base)

theorem Parsed.length_lt {α : Type} {bound : Nat} {p : Parsed α bound} {a : α} {rest : List Char}
    (h : p.outcome = .value a rest) : rest.length < bound := by
  cases p with
  | value _ _ shorter =>
      obtain ⟨-, rfl⟩ := Outcome.value.inj h
      exact shorter
  | noMatch => cases h
  | tooDeep => cases h

section Sequences

variable {sep : Separator} {a : Symbol} {member : Parser Expr} {item : List Symbol → Expr → Prop}

theorem tail_yields (hsep : ∀ s r, sep.take s = some r → Begins a s r)
    (hmember : Yields (fun s => (member s).outcome) item) {symbols : List Symbol} {e : Expr}
    (he : item symbols e) :
    Yields (Parser.tail sep member) fun later es =>
      Separated a item (symbols ++ later) (e :: es) := by
  intro s es rest h
  induction hn : s.length using Nat.strongRecOn generalizing s es symbols e with
  | _ n ih =>
      subst hn
      have hdone : Spelled [] s s ∧ Separated a item (symbols ++ []) [e] :=
        ⟨.refl s, by simpa using .one he⟩
      cases htake : sep.take (skipSpace s) with
      | none =>
          rw [Parser.tail_none htake] at h
          obtain ⟨rfl, rfl⟩ := Outcome.value.inj h
          exact ⟨[], hdone⟩
      | some r =>
          rw [Parser.tail_some htake, Outcome.thenElse_eq_value] at h
          rcases h with ⟨f, next, hf, h⟩ | ⟨-, h⟩
          · have hshorter : next.length < s.length := by
              have hread := Parsed.length_lt hf
              have hsign := sep.shorter htake
              have hspace := length_skipSpace_le s
              have hafter := length_skipSpace_le r
              omega
            obtain ⟨fs, hfs, rfl⟩ := Outcome.map_eq_value.mp h
            obtain ⟨between, hbetween, hitem⟩ := hmember _ f next hf
            obtain ⟨later, hlater, hseparated⟩ := ih _ hshorter hitem next fs hfs rfl
            refine ⟨a :: (between ++ later), ?_, .more he hseparated⟩
            have hsign := Spelled.of_begins_skipSpace (hsep _ r htake)
            exact hsign.append (((Spelled.skipSpace r).append hbetween).append hlater)
          · obtain ⟨rfl, rfl⟩ := Outcome.value.inj h
            exact ⟨[], hdone⟩

theorem sequence_yields (hsep : ∀ s r, sep.take s = some r → Begins a s r)
    (hmember : Yields (fun s => (member s).outcome) item) :
    Yields (fun s => (Parser.sequence sep member s).outcome) (Separated a item) := by
  intro s es rest h
  simp only [Parser.outcome_sequence, Outcome.thenElse_eq_value] at h
  rcases h with ⟨e, next, he, h⟩ | ⟨-, h⟩
  · obtain ⟨later, hlater, rfl⟩ := Outcome.map_eq_value.mp h
    obtain ⟨symbols, hsymbols, hitem⟩ := hmember s e next he
    obtain ⟨others, hothers, hseparated⟩ := tail_yields hsep hmember hitem next later rest hlater
    exact ⟨symbols ++ others, hsymbols.append hothers, hseparated⟩
  · cases h

/-- A chain of one member is that member, a longer one is a node. -/
theorem Separated.chained {symbols : List Symbol} {es : List Expr} (node : List Expr → Expr)
    (h : Separated a item symbols es) : Chained a node item symbols (Parser.joined node es) := by
  cases h with
  | one hitem => exact .single hitem
  | @more first others f fs hitem hmore =>
      have hlength : 2 ≤ (f :: fs).length := by
        cases hmore <;> simp
      have hnode : Parser.joined node (f :: fs) = node (f :: fs) := by
        cases fs with
        | nil => simp at hlength
        | cons g gs => rfl
      rw [hnode]
      exact .chain (.more hitem hmore) hlength

theorem chain_yields (node : List Expr → Expr)
    (hsep : ∀ s r, sep.take s = some r → Begins a s r)
    (hmember : Yields (fun s => (member s).outcome) item) :
    Yields (fun s => (Parser.sequence sep member s).outcome.map (Parser.joined node))
      (Chained a node item) := by
  intro s e rest h
  obtain ⟨es, hes, rfl⟩ := Outcome.map_eq_value.mp h
  obtain ⟨symbols, hsymbols, hseparated⟩ := sequence_yields hsep hmember s es rest hes
  exact ⟨symbols, hsymbols, hseparated.chained node⟩

end Sequences

namespace Level

variable {l inner : Level} {f : Forms}

theorem comma_begins {s r : List Char} (h : Separator.comma.take s = some r) :
    Begins .comma s r :=
  ⟨[','], exactly_eq_some_iff.mp h, .comma r⟩

theorem arguments_yields {item : List Symbol → Expr → Prop}
    (hitem : Yields (fun s => (l.disjunction s).outcome) item) :
    Yields (fun s => (l.arguments s).outcome) (Listed item) := by
  intro s es rest h
  simp only [outcome_arguments, Outcome.thenElse_eq_value] at h
  rcases h with ⟨fs, next, hfs, h⟩ | ⟨-, h⟩
  · obtain ⟨rfl, rfl⟩ := Outcome.value.inj h
    obtain ⟨symbols, hsymbols, hseparated⟩ :=
      sequence_yields (fun _ _ => comma_begins) hitem s fs next hfs
    exact ⟨symbols, hsymbols, .some hseparated⟩
  · obtain ⟨rfl, rfl⟩ := Outcome.value.inj h
    exact ⟨[], .refl s, .none⟩

theorem suffixesOver_yields (hinner : inner.Obeys f) (base : Expr) :
    Yields (fun s => (inner.suffixesOver base s).outcome) (f.SuffixesOver base) := by
  intro s e rest h
  by_cases hbracket : (skipSpace s).head? = some '['
  · obtain ⟨r, hr⟩ := List.head?_eq_some_iff.mp hbracket
    have hopen : Spelled [.openBracket] s r :=
      .of_begins_skipSpace ⟨['['], hr, .openBracket r⟩
    simp only [outcome_suffixesOver_bracket hr, Outcome.thenElse_eq_value] at h
    rcases h with ⟨at_, next, hat, h⟩ | ⟨-, h⟩
    · split at h
      · next final hclosing =>
        obtain ⟨inside, hinside, hdisjunction⟩ := hinner.disjunction _ at_ next hat
        obtain ⟨later, hlater, hsuffixes⟩ := hinner.suffixes _ final e rest h
        have hclose := Spelled.of_closing .closeBracket hclosing
        exact ⟨_, hopen.append (((Spelled.skipSpace r).append hinside).append
          (hclose.append hlater)), .index hdisjunction hsuffixes⟩
      · obtain ⟨rfl, rfl⟩ := Outcome.value.inj h
        exact ⟨[], .refl s, .none⟩
    · obtain ⟨rfl, rfl⟩ := Outcome.value.inj h
      exact ⟨[], .refl s, .none⟩
  · by_cases hdot : (skipSpace s).head? = some '.'
    · obtain ⟨r, hr⟩ := List.head?_eq_some_iff.mp hdot
      have hopen : Spelled [.dot] s r := .of_begins_skipSpace ⟨['.'], hr, .dot r⟩
      simp only [outcome_suffixesOver_dot hr] at h
      split at h
      · next field final hfield =>
        obtain ⟨later, hlater, hsuffixes⟩ := hinner.suffixes _ final e rest h
        have hname := Spelled.of_begins_skipSpace (identifier_eq_some_iff.mp hfield)
        exact ⟨_, hopen.append (hname.append hlater), .member hsuffixes⟩
      · obtain ⟨rfl, rfl⟩ := Outcome.value.inj h
        exact ⟨[], .refl s, .none⟩
    · simp only [outcome_suffixesOver_end hbracket hdot] at h
      obtain ⟨rfl, rfl⟩ := Outcome.value.inj h
      exact ⟨[], .refl s, .none⟩

theorem callOrIdent_yields (hinner : inner.Obeys f) :
    Yields (fun s => (inner.callOrIdent s).outcome) f.PrimaryOver := by
  intro s e final h
  cases hname : identifier s with
  | none => simp [outcome_callOrIdent_none hname] at h
  | some x =>
      obtain ⟨name, rest⟩ := x
      have hspelled := Spelled.of_begins (identifier_eq_some_iff.mp hname)
      by_cases hparen : (skipSpace rest).head? = some '('
      · obtain ⟨r, hr⟩ := List.head?_eq_some_iff.mp hparen
        have hopen : Spelled [.openParen] rest r :=
          .of_begins_skipSpace ⟨['('], hr, .openParen r⟩
        simp only [outcome_callOrIdent_call hname hr, Outcome.thenElse_eq_value] at h
        rcases h with ⟨es, next, hes, h⟩ | ⟨-, h⟩
        · split at h
          · next last hclosing =>
            obtain ⟨rfl, rfl⟩ := Outcome.value.inj h
            obtain ⟨symbols, hsymbols, harguments⟩ := hinner.arguments _ es next hes
            have hclose := Spelled.of_closing .closeParen hclosing
            exact ⟨_, hspelled.append (hopen.append (((Spelled.skipSpace r).append hsymbols).append
              hclose)), .call harguments⟩
          · obtain ⟨rfl, rfl⟩ := Outcome.value.inj h
            exact ⟨_, hspelled, .ident name⟩
        · obtain ⟨rfl, rfl⟩ := Outcome.value.inj h
          exact ⟨_, hspelled, .ident name⟩
      · simp only [outcome_callOrIdent_ident hname hparen] at h
        obtain ⟨rfl, rfl⟩ := Outcome.value.inj h
        exact ⟨_, hspelled, .ident name⟩

theorem begins_of_literal? {s rest : List Char} {v : Literal}
    (h : literal? s = some (v, rest)) : Begins (.literal v) s rest := by
  simp only [literal?, Option.or_eq_some_iff, Option.map_eq_some_iff, Prod.mk.injEq] at h
  rcases h with ⟨x, hx, rfl, rfl⟩ | ⟨-, ⟨x, hx, rfl, rfl⟩ | ⟨-, ⟨r, hr, rfl, rfl⟩ |
    ⟨-, ⟨r, hr, rfl, rfl⟩ | ⟨-, r, hr, rfl, rfl⟩⟩⟩⟩
  · exact string_eq_some_iff.mp hx
  · exact begins_of_integer hx
  · obtain ⟨hs, hends⟩ := word_eq_some_iff.mp hr
    exact ⟨_, hs, .true hends⟩
  · obtain ⟨hs, hends⟩ := word_eq_some_iff.mp hr
    exact ⟨_, hs, .false hends⟩
  · obtain ⟨hs, hends⟩ := word_eq_some_iff.mp hr
    exact ⟨_, hs, .nil hends⟩

theorem atom_yields (hinner : inner.Obeys f) :
    Yields (fun s => (inner.atom s).outcome) f.PrimaryOver := by
  intro s e rest h
  simp only [outcome_atom] at h
  split at h
  · next v r hv =>
    obtain ⟨rfl, rfl⟩ := Outcome.value.inj h
    exact ⟨_, .of_begins (begins_of_literal? hv), .literal v⟩
  · exact callOrIdent_yields hinner s e rest h

theorem primaryAt_yields (hinner : inner.Obeys f) :
    Yields (fun s => (inner.primaryAt s).outcome) f.PrimaryOver := by
  intro s e rest h
  by_cases hparen : s.head? = some '('
  · obtain ⟨r, rfl⟩ := List.head?_eq_some_iff.mp hparen
    have hopen : Spelled [.openParen] ('(' :: r) r := .of_begins ⟨['('], rfl, .openParen r⟩
    simp only [outcome_primaryAt_parens, Outcome.thenElse_eq_value] at h
    rcases h with ⟨f, next, hf, h⟩ | ⟨-, h⟩
    · split at h
      · next final hclosing =>
        obtain ⟨rfl, rfl⟩ := Outcome.value.inj h
        obtain ⟨symbols, hsymbols, hdisjunction⟩ := hinner.disjunction _ f next hf
        have hclose := Spelled.of_closing .closeParen hclosing
        exact ⟨_, hopen.append (hsymbols.append hclose), .parens hdisjunction⟩
      · cases h
    · cases h
  · by_cases hbracket : s.head? = some '['
    · obtain ⟨r, rfl⟩ := List.head?_eq_some_iff.mp hbracket
      have hopen : Spelled [.openBracket] ('[' :: r) r := .of_begins ⟨['['], rfl, .openBracket r⟩
      simp only [outcome_primaryAt_list, Outcome.thenElse_eq_value] at h
      rcases h with ⟨es, next, hes, h⟩ | ⟨-, h⟩
      · split at h
        · next final hclosing =>
          obtain ⟨rfl, rfl⟩ := Outcome.value.inj h
          obtain ⟨symbols, hsymbols, harguments⟩ := hinner.arguments _ es next hes
          have hclose := Spelled.of_closing .closeBracket hclosing
          exact ⟨_, hopen.append (hsymbols.append hclose), .list harguments⟩
        · cases h
      · cases h
    · simp only [outcome_primaryAt_atom hparen hbracket] at h
      exact atom_yields hinner s e rest h

/-- An expression without a negation is a primary one with its suffixes. -/
theorem suffixed_yields (hinner : inner.Obeys f) :
    Yields (fun s => (inner.suffixed s).outcome) f.NegationOver := by
  intro s e rest h
  simp only [outcome_suffixed, outcome_primary, Outcome.thenElse_eq_value] at h
  rcases h with ⟨base, next, ⟨g, r, hg, hvalue⟩ | ⟨-, hvalue⟩, h⟩ | ⟨-, h⟩
  · obtain ⟨rfl, rfl⟩ := Outcome.value.inj hvalue
    obtain ⟨symbols, hsymbols, hprimary⟩ := primaryAt_yields hinner _ g r hg
    obtain ⟨later, hlater, hsuffixes⟩ := suffixesOver_yields hinner g _ e rest h
    have hfront := (Spelled.skipSpace s).append (hsymbols.append (Spelled.skipSpace r))
    exact ⟨_, by simpa using hfront.append hlater, .plain hprimary hsuffixes⟩
  · cases hvalue
  · cases h

theorem negationOver_yields (hinner : inner.Obeys f) :
    Yields (fun s => (inner.negationOver s).outcome) f.NegationOver := by
  intro s e rest h
  cases hnot : notSign (skipSpace s) with
  | none =>
      simp only [outcome_negationOver_none hnot] at h
      exact suffixed_yields hinner s e rest h
  | some r =>
      simp only [outcome_negationOver_some hnot, Outcome.thenElse_eq_value] at h
      rcases h with ⟨g, next, hg, h⟩ | ⟨-, h⟩
      · obtain ⟨rfl, rfl⟩ := Outcome.value.inj h
        obtain ⟨symbols, hsymbols, hitem⟩ := hinner.negation _ g next hg
        have hsign := Spelled.of_begins_skipSpace (begins_of_notSign hnot)
        exact ⟨_, hsign.append ((Spelled.skipSpace r).append hsymbols), .negated hitem⟩
      · exact suffixed_yields hinner s e rest h

theorem comparisonOver_yields (hinner : inner.Obeys f) :
    Yields (fun s => (inner.comparisonOver s).outcome) f.ComparisonOver := by
  intro s e rest h
  simp only [outcome_comparisonOver, Outcome.thenElse_eq_value] at h
  rcases h with ⟨left, next, hleft, h⟩ | ⟨-, h⟩
  · obtain ⟨symbols, hsymbols, hitem⟩ := negationOver_yields hinner s left next hleft
    split at h
    · next op r hop =>
      rcases Outcome.thenElse_eq_value.mp h with ⟨right, final, hright, h⟩ | ⟨-, h⟩
      · obtain ⟨rfl, rfl⟩ := Outcome.value.inj h
        obtain ⟨later, hlater, hother⟩ := negationOver_yields hinner _ right final hright
        have hsign := Spelled.of_begins_skipSpace (begins_of_comparison hop)
        exact ⟨_, hsymbols.append (hsign.append ((Spelled.skipSpace r).append hlater)),
          .compare hitem hother⟩
      · obtain ⟨rfl, rfl⟩ := Outcome.value.inj h
        exact ⟨symbols, hsymbols, .single hitem⟩
    · obtain ⟨rfl, rfl⟩ := Outcome.value.inj h
      exact ⟨symbols, hsymbols, .single hitem⟩
  · cases h

theorem conjunctionOver_yields (hinner : inner.Obeys f) :
    Yields (fun s => (inner.conjunctionOver s).outcome) f.ConjunctionOver := by
  simp only [outcome_conjunctionOver]
  exact chain_yields .conjunction (fun _ _ => begins_of_andSign) (comparisonOver_yields hinner)

theorem disjunctionOver_yields (hinner : inner.Obeys f) :
    Yields (fun s => (inner.disjunctionOver s).outcome) f.DisjunctionOver := by
  simp only [outcome_disjunctionOver]
  exact chain_yields .disjunction (fun _ _ => begins_of_orSign) (conjunctionOver_yields hinner)

theorem beyond_obeys : Level.beyond.Obeys .beyond where
  disjunction _ _ _ h := nomatch h
  arguments _ _ _ h := by simp [outcome_arguments, Parser.outcome_sequence, beyond] at h
  negation _ _ _ h := nomatch h
  suffixes _ _ _ _ h := nomatch h

/-- The level around another one obeys what may stand there if that one does. -/
theorem around_obeys (hinner : inner.Obeys f) : inner.around.Obeys f.around where
  disjunction := disjunctionOver_yields hinner
  arguments := arguments_yields (disjunctionOver_yields hinner)
  negation := negationOver_yields hinner
  suffixes := suffixesOver_yields hinner

end Level

theorem level_obeys (n : Nat) : (level n).Obeys (forms n) := by
  induction n with
  | zero => exact Level.beyond_obeys
  | succ n ih => exact Level.around_obeys ih

end Rule
end Workplan
