import Workplan.Proofs.Rule.Acceptance

/-!
# Accepted texts in larger ones

An accepted text may be enclosed in brackets as a part of a larger one. The brackets end every word
and sign of it, so the larger text spells the same symbols there, and they may stand on a level
further out. Hence a composed text is read as the composed expression, unless it nests too deep.
-/

namespace Workplan
namespace Rule

open Token

/-- An operator as it is written between its operands, and the node it makes of them. -/
inductive Joins : (operator : String) → (Expr → Expr → Expr) → Prop where
  | comparison (op : Comparison) : Joins op.symbol (.compare op)
  | andSign : Joins "&&" fun left right => .conjunction [left, right]
  | andWord : Joins "and" fun left right => .conjunction [left, right]
  | orSign : Joins "||" fun left right => .disjunction [left, right]
  | orWord : Joins "or" fun left right => .disjunction [left, right]

/-- A text composed of the texts `s` of `e` and `t` of `f`, and the expression meant by it. -/
inductive Wraps (s t : String) (e f : Expr) : (text : String) → Expr → Prop where
  | parens : Wraps s t e f ("(" ++ s ++ ")") e
  | negation : Wraps s t e f ("!(" ++ s ++ ")") (.negation e)
  | join {operator : String} {node : Expr → Expr → Expr} : Joins operator node →
      Wraps s t e f ("(" ++ s ++ ") " ++ operator ++ " (" ++ t ++ ")") (node e f)
  | list : Wraps s t e f ("[" ++ s ++ ", " ++ t ++ "]") (.list [e, f])
  | call {name : String} : IsIdentifier name →
      Wraps s t e f (name ++ "(" ++ s ++ ", " ++ t ++ ")") (.call name [e, f])
  | index : Wraps s t e f ("(" ++ s ++ ")[" ++ t ++ "]") (.index e f)

/-! ## Enclosed texts -/

namespace Spelled

variable {a : Symbol} {symbols later : List Symbol} {s t r : List Char} {c : Char}

theorem of_spells (h : Spells a s r) : Spelled [a] (s ++ r) r :=
  of_begins ⟨s, rfl, h⟩

theorem char (hspells : ∀ next, Spells a [c] next) (r : List Char) : Spelled [a] (c :: r) r :=
  of_spells (hspells r)

/-- A whole text goes on with what ends it. -/
theorem before (h : Spelled symbols s []) (hc : c ∈ [')', ']', ',']) (r : List Char) :
    Spelled symbols (s ++ c :: r) (c :: r) := by
  have hends : isIdentChar c = false ∧ c ≠ '=' := by
    simp only [List.mem_cons, List.not_mem_nil, or_false] at hc
    rcases hc with rfl | rfl | rfl <;> decide
  exact h.extend (wordEnds_cons hends.1) (by simpa using hends.2)

theorem blank (r : List Char) : Spelled [] (' ' :: r) r := by
  have hblank : ∀ c ∈ [' '], IsBlank c := by simp [IsBlank]
  exact .done hblank

theorem parens (h : Spelled symbols s []) (r : List Char) :
    Spelled (.openParen :: (symbols ++ [.closeParen])) ('(' :: (s ++ ')' :: r)) r :=
  (char .openParen _).append ((h.before (by decide) r).append (char .closeParen r))

/-- Two texts with a comma between them. -/
theorem pair (hs : Spelled symbols s []) (ht : Spelled later t []) (hc : c ∈ [')', ']', ','])
    (r : List Char) :
    Spelled (symbols ++ .comma :: later) (s ++ ',' :: ' ' :: (t ++ c :: r)) (c :: r) :=
  (hs.before (by decide) _).append
    ((char .comma _).append ((blank _).append (ht.before hc r)))

end Spelled

/-! ## Composed expressions -/

namespace Forms

variable {inner : Forms} {symbols later : List Symbol} {e f : Expr}

theorem NegationOver.of_primary (h : inner.PrimaryOver symbols e) :
    inner.NegationOver symbols e := by
  simpa using NegationOver.plain h .none

theorem DisjunctionOver.of_negation (h : inner.NegationOver symbols e) :
    inner.DisjunctionOver symbols e :=
  .single (.single (.single h))

end Forms

def Symbol.JoinsTo (a : Symbol) (node : Expr → Expr → Expr) : Prop :=
  ∀ (inner : Forms) (symbols later : List Symbol) (e f : Expr), inner.NegationOver symbols e →
    inner.NegationOver later f → inner.DisjunctionOver (symbols ++ a :: later) (node e f)

theorem joinsTo_operator (op : Comparison) : Symbol.JoinsTo (.operator op) (.compare op) :=
  fun _ _ _ _ _ he hf => .single (.single (.compare he hf))

theorem joinsTo_and : Symbol.JoinsTo .and fun e f => .conjunction [e, f] :=
  fun _ _ _ _ _ he hf => .single (.chain (.more (.single he) (.one (.single hf))) le_rfl)

theorem joinsTo_or : Symbol.JoinsTo .or fun e f => .disjunction [e, f] :=
  fun _ _ _ _ _ he hf => .chain (.more (.single (.single he)) (.one (.single (.single hf)))) le_rfl

/-- Every comparison operator is spelled by its symbol where a blank comes next. -/
theorem spells_symbol (op : Comparison) (r : List Char) :
    Spells (.operator op) op.symbol.toList (' ' :: r) := by
  have hends : WordEnds (' ' :: r) := wordEnds_cons (by decide)
  have hblank : ∀ c ∈ [' '], IsBlank c := by simp [IsBlank]
  cases op with
  | eq => exact .eq _
  | ne => exact .ne _
  | lt => exact .lt _
  | le => exact .le _
  | gt => exact .gt _
  | ge => exact .ge _
  | isIn => exact .isIn hends
  | notIn => exact .notIn (List.cons_ne_nil _ _) hblank hends

theorem Joins.exists_symbol {operator : String} {node : Expr → Expr → Expr}
    (h : Joins operator node) :
    ∃ a : Symbol, a.JoinsTo node ∧ ∀ r, Spells a operator.toList (' ' :: r) := by
  have hends : ∀ r, WordEnds (' ' :: r) := fun r => wordEnds_cons (by decide)
  cases h with
  | comparison op => exact ⟨_, joinsTo_operator op, spells_symbol op⟩
  | andSign => exact ⟨_, joinsTo_and, fun r => .andSign _⟩
  | andWord => exact ⟨_, joinsTo_and, fun r => .andWord (hends r)⟩
  | orSign => exact ⟨_, joinsTo_or, fun r => .orSign _⟩
  | orWord => exact ⟨_, joinsTo_or, fun r => .orWord (hends r)⟩

/-- A composed text spells what may stand on some level. -/
theorem Wraps.exists_forms {s t text : String} {e f g : Expr} (hs : Expr.parse s = .ok e)
    (ht : Expr.parse t = .ok f) (h : Wraps s t e f text g) :
    ∃ n symbols, Spelled symbols text.toList [] ∧ (forms n).disjunction symbols g := by
  obtain ⟨first, hfirst, he⟩ := parse_eq_ok_iff.mp hs
  obtain ⟨second, hsecond, hf⟩ := parse_eq_ok_iff.mp ht
  have hparens := Forms.NegationOver.of_primary (.parens he)
  cases h with
  | parens =>
      refine ⟨maxNesting + 2, _, ?_, .of_negation hparens⟩
      simpa using hfirst.parens []
  | negation =>
      refine ⟨maxNesting + 3, _, ?_, .of_negation (.negated hparens)⟩
      have hsign : Spells .not ['!'] ('(' :: (s.toList ++ [')'])) := .notSign (by simp)
      simpa using (Spelled.of_spells hsign).append (hfirst.parens [])
  | join hjoins =>
      obtain ⟨a, hnode, hspells⟩ := hjoins.exists_symbol
      have hother := Forms.NegationOver.of_primary (.parens hf)
      refine ⟨maxNesting + 2, _, ?_, hnode _ _ _ _ _ hparens hother⟩
      have hright := (Spelled.blank _).append (hsecond.parens [])
      have hspelled := (hfirst.parens _).append ((Spelled.blank _).append
        ((Spelled.of_spells (hspells _)).append hright))
      simpa using hspelled
  | list =>
      have hitems : (forms (maxNesting + 1)).arguments (first ++ .comma :: second) [e, f] :=
        .some (.more he (.one hf))
      refine ⟨maxNesting + 2, _, ?_, .of_negation (.of_primary (.list hitems))⟩
      have hspelled := (Spelled.char .openBracket _).append
        ((hfirst.pair hsecond (by decide) []).append (Spelled.char .closeBracket []))
      simpa using hspelled
  | call hname =>
      have harguments : (forms (maxNesting + 1)).arguments (first ++ .comma :: second) [e, f] :=
        .some (.more he (.one hf))
      refine ⟨maxNesting + 2, _, ?_, .of_negation (.of_primary (.call harguments))⟩
      have hends : ∀ r, WordEnds ('(' :: r) := fun r => wordEnds_cons (by decide)
      have hspelled := (Spelled.of_spells (.name hname (hends _))).append
        ((Spelled.char .openParen _).append
          ((hfirst.pair hsecond (by decide) []).append (Spelled.char .closeParen [])))
      simpa using hspelled
  | index =>
      refine ⟨maxNesting + 2, _, ?_, .of_negation (.plain (.parens he) (.index hf .none))⟩
      have hspelled := (hfirst.parens _).append ((Spelled.char .openBracket _).append
        ((hsecond.before (by decide) []).append (Spelled.char .closeBracket [])))
      simpa using hspelled

/-- A composed text is accepted as the composed expression, or refused for its nesting. -/
theorem parse_wraps {s t text : String} {e f g : Expr} (hs : Expr.parse s = .ok e)
    (ht : Expr.parse t = .ok f) (h : Wraps s t e f text g) :
    Expr.parse text = .ok g ∨ Expr.parse text = .error .tooDeep := by
  obtain ⟨n, symbols, hspelled, hforms⟩ := h.exists_forms hs ht
  exact (parse_of_forms hspelled hforms).imp id And.right

theorem parse_wraps_notIn : ∃ e f, Expr.parse "a or b" = .ok e ∧ Expr.parse "c[0]" = .ok f ∧
    Expr.parse "(a or b) not in (c[0])" = .ok (.compare .notIn e f) := by
  have hleft : (Expr.parse "a or b").toOption.map Expr.mentions = some ["a", "b"] := by
    decide +kernel
  have hright : (Expr.parse "c[0]").toOption.map Expr.mentions = some ["c"] := by
    decide +kernel
  have hboth : (Expr.parse "(a or b) not in (c[0])").toOption.map Expr.mentions =
      some ["a", "b", "c"] := by
    decide +kernel
  obtain ⟨e, he, -⟩ := exists_of_parse_map hleft
  obtain ⟨f, hf, -⟩ := exists_of_parse_map hright
  obtain ⟨g, hg, -⟩ := exists_of_parse_map hboth
  have htext : "(" ++ "a or b" ++ ") " ++ Comparison.notIn.symbol ++ " (" ++ "c[0]" ++ ")" =
      "(a or b) not in (c[0])" := by
    decide
  have hwraps : Wraps "a or b" "c[0]" e f "(a or b) not in (c[0])" (.compare .notIn e f) :=
    htext ▸ .join (.comparison .notIn)
  rcases parse_wraps he hf hwraps with hok | hdeep
  · exact ⟨e, f, he, hf, hok⟩
  · cases hg.symm.trans hdeep

end Rule
end Workplan
