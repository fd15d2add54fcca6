import Workplan.Proofs.Rule.Levels

/-!
# The grammar of rules

Which sequences of symbols stand for which expression, from the loosest binding to the tightest,
and which texts spell a sequence of symbols. What is read as an expression is a text that spells a
disjunction of the grammar, and the expression that is read is the one that it stands for: the
grammar derives what may stand on a level if it derives what may stand on the level inside it.
-/

namespace Workplan
namespace Rule

open Token

mutual

/-- One conjunction, or several with `||` between them. -/
inductive IsDisjunction : List Symbol → Expr → Prop where
  | single {symbols : List Symbol} {e : Expr} : IsConjunction symbols e → IsDisjunction symbols e
  | chain {symbols : List Symbol} {es : List Expr} : Separated .or IsConjunction symbols es →
      2 ≤ es.length → IsDisjunction symbols (.disjunction es)

inductive IsConjunction : List Symbol → Expr → Prop where
  | single {symbols : List Symbol} {e : Expr} : IsComparison symbols e → IsConjunction symbols e
  | chain {symbols : List Symbol} {es : List Expr} : Separated .and IsComparison symbols es →
      2 ≤ es.length → IsConjunction symbols (.conjunction es)

inductive IsComparison : List Symbol → Expr → Prop where
  | single {symbols : List Symbol} {e : Expr} : IsNegation symbols e → IsComparison symbols e
  | compare {symbols later : List Symbol} {op : Comparison} {left right : Expr} :
      IsNegation symbols left → IsNegation later right →
        IsComparison (symbols ++ .operator op :: later) (.compare op left right)

inductive IsNegation : List Symbol → Expr → Prop where
  | plain {symbols : List Symbol} {e : Expr} : IsSuffixed symbols e → IsNegation symbols e
  | negated {symbols : List Symbol} {e : Expr} : IsNegation symbols e →
      IsNegation (.not :: symbols) (.negation e)

/-- A primary expression and its suffixes, the last of which belongs to all that stands before. -/
inductive IsSuffixed : List Symbol → Expr → Prop where
  | primary {symbols : List Symbol} {e : Expr} : IsPrimary symbols e → IsSuffixed symbols e
  | index {symbols inside : List Symbol} {base at_ : Expr} : IsSuffixed symbols base →
      IsDisjunction inside at_ →
        IsSuffixed (symbols ++ .openBracket :: (inside ++ [.closeBracket])) (.index base at_)
  | member {symbols : List Symbol} {base : Expr} {field : String} : IsSuffixed symbols base →
      IsSuffixed (symbols ++ [.dot, .name field]) (.member base field)

inductive IsPrimary : List Symbol → Expr → Prop where
  | parens {symbols : List Symbol} {e : Expr} : IsDisjunction symbols e →
      IsPrimary (.openParen :: (symbols ++ [.closeParen])) e
  | list {symbols : List Symbol} {items : List Expr} : IsArguments symbols items →
      IsPrimary (.openBracket :: (symbols ++ [.closeBracket])) (.list items)
  | literal (value : Literal) : IsPrimary [.literal value] (.literal value)
  | call {symbols : List Symbol} {function : String} {arguments : List Expr} :
      IsArguments symbols arguments →
        IsPrimary (.name function :: .openParen :: (symbols ++ [.closeParen]))
          (.call function arguments)
  | ident (name : String) : IsPrimary [.name name] (.ident name)

inductive IsArguments : List Symbol → List Expr → Prop where
  | none : IsArguments [] []
  | some {symbols : List Symbol} {es : List Expr} : Separated .comma IsDisjunction symbols es →
      IsArguments symbols es

end

/-- A whole text is derived from the grammar, as an expression. -/
def Derives (source : String) (e : Expr) : Prop :=
  ∃ symbols, Spelled symbols source.toList [] ∧ IsDisjunction symbols e

theorem Separated.mono {sep : Symbol} {item other : List Symbol → Expr → Prop}
    {symbols : List Symbol} {es : List Expr} (h : Separated sep item symbols es)
    (hitem : ∀ symbols e, item symbols e → other symbols e) : Separated sep other symbols es := by
  induction h with
  | one he => exact .one (hitem _ _ he)
  | more he _ ih => exact .more (hitem _ _ he) ih

/-! ## What stands on a level is derived -/

/-- The grammar derives what may stand on a level. -/
structure Forms.Sound (f : Forms) : Prop where
  disjunction : ∀ symbols e, f.disjunction symbols e → IsDisjunction symbols e
  arguments : ∀ symbols es, f.arguments symbols es → IsArguments symbols es
  negation : ∀ symbols e, f.negation symbols e → IsNegation symbols e
  suffixes : ∀ base symbols later e, IsSuffixed symbols base → f.suffixes base later e →
    IsSuffixed (symbols ++ later) e

namespace Forms

variable {f : Forms} {symbols later : List Symbol} {e base : Expr}

theorem isSuffixed_of_suffixesOver (hf : f.Sound) (hbase : IsSuffixed symbols base)
    (h : f.SuffixesOver base later e) : IsSuffixed (symbols ++ later) e := by
  cases h with
  | none => simpa using hbase
  | index hinside hlater =>
      have hindex := IsSuffixed.index hbase (hf.disjunction _ _ hinside)
      simpa using hf.suffixes _ _ _ _ hindex hlater
  | member hlater => simpa using hf.suffixes _ _ _ _ (.member hbase) hlater

theorem isPrimary_of_primaryOver (hf : f.Sound) (h : f.PrimaryOver symbols e) :
    IsPrimary symbols e := by
  cases h with
  | parens hinside => exact .parens (hf.disjunction _ _ hinside)
  | list hinside => exact .list (hf.arguments _ _ hinside)
  | literal v => exact .literal v
  | call hinside => exact .call (hf.arguments _ _ hinside)
  | ident name => exact .ident name

theorem isNegation_of_negationOver (hf : f.Sound) (h : f.NegationOver symbols e) :
    IsNegation symbols e := by
  cases h with
  | plain hprimary hsuffixes =>
      have hbase := IsSuffixed.primary (isPrimary_of_primaryOver hf hprimary)
      exact .plain (isSuffixed_of_suffixesOver hf hbase hsuffixes)
  | negated hoperand => exact .negated (hf.negation _ _ hoperand)

theorem isComparison_of_comparisonOver (hf : f.Sound) (h : f.ComparisonOver symbols e) :
    IsComparison symbols e := by
  cases h with
  | single hitem => exact .single (isNegation_of_negationOver hf hitem)
  | compare hleft hright =>
      exact .compare (isNegation_of_negationOver hf hleft) (isNegation_of_negationOver hf hright)

theorem isConjunction_of_conjunctionOver (hf : f.Sound) (h : f.ConjunctionOver symbols e) :
    IsConjunction symbols e := by
  cases h with
  | single hitem => exact .single (isComparison_of_comparisonOver hf hitem)
  | chain hitems hlength =>
      exact .chain (hitems.mono fun _ _ => isComparison_of_comparisonOver hf) hlength

theorem isDisjunction_of_disjunctionOver (hf : f.Sound) (h : f.DisjunctionOver symbols e) :
    IsDisjunction symbols e := by
  cases h with
  | single hitem => exact .single (isConjunction_of_conjunctionOver hf hitem)
  | chain hitems hlength =>
      exact .chain (hitems.mono fun _ _ => isConjunction_of_conjunctionOver hf) hlength

theorem beyond_sound : Forms.beyond.Sound where
  disjunction _ _ h := h.elim
  arguments _ _ h := h.elim
  negation _ _ h := h.elim
  suffixes _ _ _ _ _ h := h.elim

theorem around_sound (hf : f.Sound) : f.around.Sound where
  disjunction _ _ := isDisjunction_of_disjunctionOver hf
  arguments symbols es h := by
    cases h with
    | none => exact .none
    | some hitems => exact .some (hitems.mono fun _ _ => isDisjunction_of_disjunctionOver hf)
  negation _ _ := isNegation_of_negationOver hf
  suffixes _ _ _ _ := isSuffixed_of_suffixesOver hf

end Forms

theorem forms_sound (n : Nat) : (forms n).Sound := by
  induction n with
  | zero => exact Forms.beyond_sound
  | succ n ih => exact Forms.around_sound ih

structure Level.Sound (l : Level) : Prop where
  disjunction : Yields (fun s => (l.disjunction s).outcome) IsDisjunction
  negation : Yields (fun s => (l.negation s).outcome) IsNegation
  suffixes : ∀ base symbols, IsSuffixed symbols base →
    Yields (fun s => (l.suffixes base s).outcome) fun later => IsSuffixed (symbols ++ later)

theorem level_sound (n : Nat) : (level n).Sound where
  disjunction s e rest h := by
    obtain ⟨symbols, hsymbols, hitem⟩ := (level_obeys n).disjunction s e rest h
    exact ⟨symbols, hsymbols, (forms_sound n).disjunction symbols e hitem⟩
  negation s e rest h := by
    obtain ⟨symbols, hsymbols, hitem⟩ := (level_obeys n).negation s e rest h
    exact ⟨symbols, hsymbols, (forms_sound n).negation symbols e hitem⟩
  suffixes base symbols hbase s e rest h := by
    obtain ⟨later, hlater, hitem⟩ := (level_obeys n).suffixes base s e rest h
    exact ⟨later, hlater, (forms_sound n).suffixes base symbols later e hbase hitem⟩

/-- Whatever is read as an expression is derived from the grammar, as that expression. -/
theorem parse_derives {source : String} {e : Expr} (h : Expr.parse source = .ok e) :
    Derives source e := by
  simp only [Expr.parse] at h
  split at h
  · cases h
  · cases h
  · next f rest shorter hread =>
    split at h
    · next hrest =>
      obtain rfl := Except.ok.inj h
      obtain ⟨symbols, hsymbols, hdisjunction⟩ :=
        (level_sound (maxNesting + 1)).disjunction _ f rest (congrArg Parsed.outcome hread)
      have hend : Spelled [] rest [] := hrest ▸ Spelled.skipSpace rest
      refine ⟨symbols, ?_, hdisjunction⟩
      simpa using (Spelled.skipSpace source.toList).append (hsymbols.append hend)
    · cases h

/-- Words next to brackets and digits, both kinds of quotes, and blanks wherever they may stand. -/
theorem derives_mixed :
    ∃ e, Expr.parse " a.b[ -1 ] not\t in ['z\\'', \"\"]or!(order)and f( 1 ,2)" = .ok e ∧
      e.outline = "(or (not-in ([] (. a b) int:-1) (list string:\"z'\" string:\"\")) " ++
        "(and (! order) (call f int:1 int:2)))" ∧
      Derives " a.b[ -1 ] not\t in ['z\\'', \"\"]or!(order)and f( 1 ,2)" e := by
  have houtline :
      (Expr.parse " a.b[ -1 ] not\t in ['z\\'', \"\"]or!(order)and f( 1 ,2)").toOption.map
        Expr.outline = some ("(or (not-in ([] (. a b) int:-1) (list string:\"z'\" string:\"\")) " ++
          "(and (! order) (call f int:1 int:2)))") := by
    decide +kernel
  cases h : Expr.parse " a.b[ -1 ] not\t in ['z\\'', \"\"]or!(order)and f( 1 ,2)" with
  | error failure => simp [h, Except.toOption] at houtline
  | ok e =>
      refine ⟨e, rfl, ?_, parse_derives h⟩
      simpa [h, Except.toOption] using houtline

end Rule
end Workplan
