import Workplan.Proofs.Rule.Grammar
import Workplan.Proofs.Rule.Reads
import Workplan.Proofs.Rule.Wrapping

/-!
# Chains of one connective

A chain goes through its terms until one decides it. A chain within a chain of its connective
decides nothing else: its terms may as well stand in its place, and fail there with the same errors.
So parentheses that only group the terms of a chain change its tree but not what it evaluates to.
-/

namespace Workplan
namespace Rule

open Token

variable {ctx : Context} {e : Expr}

inductive Connective where
  | and
  | or

namespace Connective

def node : Connective → List Expr → Expr
  | and => .conjunction
  | or => .disjunction

def symbol : Connective → Symbol
  | and => .and
  | or => .or

def operation : Connective → Operation
  | and => .conjunction
  | or => .disjunction

/-- The truth value of a term that decides the chain, so that no further term is evaluated. -/
def deciding : Connective → Bool
  | and => false
  | or => true

def truth (k : Connective) (ctx : Context) (e : Expr) : Except Error Bool :=
  e.eval ctx >>= expectBool k.operation

/-! ## Evaluation -/

variable {k : Connective}

theorem eval_node_nil : (k.node []).eval ctx = .ok (.bool !k.deciding) := by
  cases k
  · rw [node, Expr.eval, Expr.evalConjunction]
    rfl
  · rw [node, Expr.eval, Expr.evalDisjunction]
    rfl

theorem eval_node_cons (e : Expr) (rest : List Expr) : (k.node (e :: rest)).eval ctx =
    k.truth ctx e >>= fun b =>
      if b = k.deciding then .ok (.bool b) else (k.node rest).eval ctx := by
  cases k
  · rw [node, Expr.eval, Expr.evalConjunction_cons, Expr.eval]
    refine congrArg _ (funext fun b => ?_)
    cases b <;> rfl
  · rw [node, Expr.eval, Expr.evalDisjunction_cons, Expr.eval]
    refine congrArg _ (funext fun b => ?_)
    cases b <;> rfl

/-- The first terms decide a chain by themselves, or leave it to the others. -/
theorem eval_node_append (xs ys : List Expr) : (k.node (xs ++ ys)).eval ctx =
    k.truth ctx (k.node xs) >>= fun b =>
      if b = k.deciding then .ok (.bool b) else (k.node ys).eval ctx := by
  induction xs with
  | nil =>
      rw [truth, eval_node_nil]
      cases k <;> rfl
  | cons x rest ih =>
      rw [truth, List.cons_append, eval_node_cons, eval_node_cons]
      cases k.truth ctx x with
      | error err => rfl
      | ok b =>
          show (if b = k.deciding then _ else _) = ((if b = k.deciding then _ else _) >>= _) >>= _
          by_cases hb : b = k.deciding
          · rw [if_pos hb, if_pos hb]
            exact (if_pos hb).symm
          · rw [if_neg hb, if_neg hb]
            exact ih

/-- A chain as a term of a chain is as good as its terms. -/
theorem eval_node_flatten (xs ys zs : List Expr) :
    (k.node (xs ++ [k.node ys] ++ zs)).eval ctx = (k.node (xs ++ ys ++ zs)).eval ctx := by
  have hinner : (k.node (k.node ys :: zs)).eval ctx = (k.node (ys ++ zs)).eval ctx := by
    rw [eval_node_cons, eval_node_append]
  rw [List.append_assoc, List.append_assoc, eval_node_append xs, eval_node_append xs,
    List.singleton_append, hinner]

theorem eval_node_joined (es : List Expr) :
    (k.node [Parser.joined k.node es]).eval ctx = (k.node es).eval ctx := by
  have hflatten : (k.node [k.node es]).eval ctx = (k.node es).eval ctx := by
    simpa using eval_node_flatten [] es []
  match es with
  | [] => exact hflatten
  | [e] => rfl
  | e :: f :: rest => exact hflatten

end Connective

/-! ## Levels further out -/

/-- Whatever may stand on the first level may stand on the second. -/
structure Forms.Le (f g : Forms) : Prop where
  disjunction : ∀ symbols e, f.disjunction symbols e → g.disjunction symbols e
  arguments : ∀ symbols es, f.arguments symbols es → g.arguments symbols es
  negation : ∀ symbols e, f.negation symbols e → g.negation symbols e
  suffixes : ∀ base symbols e, f.suffixes base symbols e → g.suffixes base symbols e

theorem Chained.mono {sep : Symbol} {node : List Expr → Expr} {symbols : List Symbol}
    {item other : List Symbol → Expr → Prop} (hitem : ∀ symbols e, item symbols e → other symbols e)
    (h : Chained sep node item symbols e) : Chained sep node other symbols e := by
  cases h with
  | single he => exact .single (hitem _ _ he)
  | chain hes hlength => exact .chain (hes.mono hitem) hlength

namespace Forms.Le

variable {f g : Forms} {symbols : List Symbol}

theorem primaryOver (h : f.Le g) (he : f.PrimaryOver symbols e) : g.PrimaryOver symbols e := by
  cases he with
  | parens hinside => exact .parens (h.disjunction _ _ hinside)
  | list hinside => exact .list (h.arguments _ _ hinside)
  | literal value => exact .literal value
  | call hinside => exact .call (h.arguments _ _ hinside)
  | ident name => exact .ident name

theorem suffixesOver {base : Expr} (h : f.Le g) (he : f.SuffixesOver base symbols e) :
    g.SuffixesOver base symbols e := by
  cases he with
  | none => exact .none
  | index hinside hlater => exact .index (h.disjunction _ _ hinside) (h.suffixes _ _ _ hlater)
  | member hlater => exact .member (h.suffixes _ _ _ hlater)

theorem negationOver (h : f.Le g) (he : f.NegationOver symbols e) : g.NegationOver symbols e := by
  cases he with
  | plain hprimary hsuffixes => exact .plain (h.primaryOver hprimary) (h.suffixesOver hsuffixes)
  | negated hoperand => exact .negated (h.negation _ _ hoperand)

theorem comparisonOver (h : f.Le g) (he : f.ComparisonOver symbols e) :
    g.ComparisonOver symbols e := by
  cases he with
  | single hoperand => exact .single (h.negationOver hoperand)
  | compare hleft hright => exact .compare (h.negationOver hleft) (h.negationOver hright)

theorem conjunctionOver (h : f.Le g) (he : f.ConjunctionOver symbols e) :
    g.ConjunctionOver symbols e :=
  he.mono fun _ _ => h.comparisonOver

theorem disjunctionOver (h : f.Le g) (he : f.DisjunctionOver symbols e) :
    g.DisjunctionOver symbols e :=
  he.mono fun _ _ => h.conjunctionOver

theorem beyond (f : Forms) : Forms.beyond.Le f where
  disjunction _ _ h := h.elim
  arguments _ _ h := h.elim
  negation _ _ h := h.elim
  suffixes _ _ _ h := h.elim

theorem around (h : f.Le g) : f.around.Le g.around where
  disjunction _ _ := h.disjunctionOver
  arguments _ _ hes := by
    cases hes with
    | none => exact .none
    | some hes => exact .some (hes.mono fun _ _ => h.disjunctionOver)
  negation _ _ := h.negationOver
  suffixes _ _ _ := h.suffixesOver

end Forms.Le

/-- What may stand on a level may stand on one further out. -/
theorem forms_le {m n : Nat} (h : m ≤ n) : (forms m).Le (forms n) := by
  induction m generalizing n with
  | zero => exact Forms.Le.beyond _
  | succ m ih =>
      cases n with
      | zero => exact absurd h (Nat.not_succ_le_zero m)
      | succ n => exact (ih (Nat.le_of_succ_le_succ h)).around

theorem Separated.append {sep : Symbol} {item : List Symbol → Expr → Prop}
    {symbols later : List Symbol} {es fs : List Expr} (h : Separated sep item symbols es)
    (hlater : Separated sep item later fs) :
    Separated sep item (symbols ++ sep :: later) (es ++ fs) := by
  induction h with
  | one he => exact .more he hlater
  | more he _ ih => simpa using Separated.more he ih

/-! ## Groupings -/

namespace Connective

variable {k : Connective} {symbols : List Symbol}

/-- What may stand between the connectives of a chain. -/
def TermOver : Connective → Forms → List Symbol → Expr → Prop
  | and => Forms.ComparisonOver
  | or => Forms.ConjunctionOver

def IsTerm (k : Connective) (symbols : List Symbol) (e : Expr) : Prop :=
  ∃ n, k.TermOver (forms n) symbols e

theorem TermOver.mono {f g : Forms} (h : f.Le g) (he : k.TermOver f symbols e) :
    k.TermOver g symbols e := by
  cases k with
  | and => exact h.comparisonOver he
  | or => exact h.conjunctionOver he

theorem TermOver.of_primary {f : Forms} (h : f.PrimaryOver symbols e) : k.TermOver f symbols e := by
  have hnegation := Forms.NegationOver.of_primary h
  cases k with
  | and => exact .single hnegation
  | or => exact .single (.single hnegation)

/-- A chain may stand wherever a disjunction may. -/
theorem disjunctionOver_of_chained {f : Forms}
    (h : Chained k.symbol k.node (k.TermOver f) symbols e) : f.DisjunctionOver symbols e := by
  cases k with
  | and => exact .single h
  | or => exact h

end Connective

/-- A chain with parentheses around some of its parts. -/
inductive Grouping (k : Connective) where
  | term (symbols : List Symbol) (e : Expr) (isTerm : k.IsTerm symbols e)
  | parens (inside : Grouping k)
  | join (left right : Grouping k)

namespace Grouping

variable {k : Connective}

def symbols : Grouping k → List Symbol
  | term symbols _ _ => symbols
  | parens inside => .openParen :: (inside.symbols ++ [.closeParen])
  | join left right => left.symbols ++ k.symbol :: right.symbols

/-- The members of the outermost chain, of which those in parentheses are chains themselves. -/
def members : Grouping k → List Expr
  | term _ e _ => [e]
  | parens inside => [Parser.joined k.node inside.members]
  | join left right => left.members ++ right.members

def expr (g : Grouping k) : Expr :=
  Parser.joined k.node g.members

def flat : Grouping k → Grouping k
  | term symbols e isTerm => term symbols e isTerm
  | parens inside => inside.flat
  | join left right => join left.flat right.flat

def terms : Grouping k → List Expr
  | term _ e _ => [e]
  | parens inside => inside.terms
  | join left right => left.terms ++ right.terms

theorem members_flat (g : Grouping k) : g.flat.members = g.terms := by
  induction g with
  | term symbols e isTerm => rfl
  | parens inside ih => exact ih
  | join left right ihleft ihright => rw [flat, members, terms, ihleft, ihright]

theorem members_ne_nil (g : Grouping k) : g.members ≠ [] := by
  induction g with
  | term symbols e isTerm => exact List.cons_ne_nil _ _
  | parens inside ih => exact List.cons_ne_nil _ _
  | join left right ihleft _ =>
      rw [members]
      exact List.append_ne_nil_of_left_ne_nil ihleft _

theorem joined_members_join (left right : Grouping k) :
    Parser.joined k.node (left.join right).members = k.node (left.members ++ right.members) := by
  refine joined_of_two_le ?_
  have hleft := List.length_pos_iff.mpr left.members_ne_nil
  have hright := List.length_pos_iff.mpr right.members_ne_nil
  rw [members, List.length_append]
  omega

/-- A grouped chain evaluates as its terms do in one chain, as a whole and as a part of a chain. -/
theorem eval_grouped (g : Grouping k) :
    g.expr.eval ctx = g.flat.expr.eval ctx ∧
      (k.node g.members).eval ctx = (k.node g.flat.members).eval ctx := by
  induction g with
  | term symbols e isTerm => exact ⟨rfl, rfl⟩
  | parens inside ih =>
      refine ⟨ih.1, ?_⟩
      rw [members, Connective.eval_node_joined]
      exact ih.2
  | join left right ihleft ihright =>
      have hnode : (k.node (left.members ++ right.members)).eval ctx =
          (k.node (left.flat.members ++ right.flat.members)).eval ctx := by
        rw [Connective.eval_node_append, Connective.eval_node_append, Connective.truth,
          Connective.truth, ihleft.2, ihright.2]
      refine ⟨?_, hnode⟩
      rw [expr, expr, flat, joined_members_join, joined_members_join]
      exact hnode

/-! ## Texts -/

theorem exists_separated (g : Grouping k) :
    ∃ n, Separated k.symbol (k.TermOver (forms n)) g.symbols g.members := by
  induction g with
  | term symbols e isTerm =>
      obtain ⟨n, he⟩ := isTerm
      exact ⟨n, .one he⟩
  | parens inside ih =>
      obtain ⟨n, hinside⟩ := ih
      have hdisjunction := Connective.disjunctionOver_of_chained (hinside.chained k.node)
      have hprimary : (forms (n + 1)).PrimaryOver (inside.parens).symbols inside.expr :=
        .parens hdisjunction
      exact ⟨n + 1, .one (.of_primary hprimary)⟩
  | join left right ihleft ihright =>
      obtain ⟨m, hleft⟩ := ihleft
      obtain ⟨n, hright⟩ := ihright
      refine ⟨max m n, Separated.append ?_ ?_⟩
      · exact hleft.mono fun _ _ => Connective.TermOver.mono (forms_le (Nat.le_max_left m n))
      · exact hright.mono fun _ _ => Connective.TermOver.mono (forms_le (Nat.le_max_right m n))

/-- A grouped chain is accepted as what is meant by it, or refused for its nesting. -/
theorem parse_grouped (g : Grouping k) {source : String}
    (h : Spelled g.symbols source.toList []) :
    Expr.parse source = .ok g.expr ∨ Expr.parse source = .error .tooDeep := by
  obtain ⟨n, hseparated⟩ := g.exists_separated
  have hdisjunction := Connective.disjunctionOver_of_chained (hseparated.chained k.node)
  have hforms : (forms (n + 1)).disjunction g.symbols g.expr := hdisjunction
  exact (parse_of_forms h hforms).imp id And.right

end Grouping

/--
A chain within a chain of its connective evaluates as its terms in its place, with the same value or
error. So a text that groups the terms of a chain by parentheses, if it does not nest too deep, is
read as an expression that evaluates like the one that is read from the terms in one chain.
-/
theorem chains_flatten (ctx : Context) :
    (∀ xs ys zs, (Expr.disjunction (xs ++ [.disjunction ys] ++ zs)).eval ctx =
      (Expr.disjunction (xs ++ ys ++ zs)).eval ctx) ∧
    (∀ xs ys zs, (Expr.conjunction (xs ++ [.conjunction ys] ++ zs)).eval ctx =
      (Expr.conjunction (xs ++ ys ++ zs)).eval ctx) ∧
    ∀ (k : Connective) (g : Grouping k) (grouped flat : String),
      Spelled g.symbols grouped.toList [] → Spelled g.flat.symbols flat.toList [] →
      (Expr.parse grouped = .ok g.expr ∨ Expr.parse grouped = .error .tooDeep) ∧
        (Expr.parse flat = .ok (Parser.joined k.node g.terms) ∨
          Expr.parse flat = .error .tooDeep) ∧
        g.expr.eval ctx = (Parser.joined k.node g.terms).eval ctx := by
  refine ⟨fun xs ys zs => Connective.eval_node_flatten (k := .or) xs ys zs,
    fun xs ys zs => Connective.eval_node_flatten (k := .and) xs ys zs, ?_⟩
  intro k g grouped flat hgrouped hflat
  have hexpr : g.flat.expr = Parser.joined k.node g.terms := by
    rw [Grouping.expr, g.members_flat]
  rw [← hexpr]
  exact ⟨g.parse_grouped hgrouped, g.flat.parse_grouped hflat, g.eval_grouped.1⟩

def Grouping.name (k : Connective) (name : String) : Grouping k :=
  .term [.name name] (.ident name) ⟨0, .of_primary (.ident name)⟩

/-- Parentheses around the last two terms of a chain of three. -/
theorem chains_flatten_right (ctx : Context) : ∃ e f, Expr.parse "a || (b || c)" = .ok e ∧
    Expr.parse "a || b || c" = .ok f ∧ e.eval ctx = f.eval ctx := by
  let g : Grouping .or := .join (.name _ "a") (.parens (.join (.name _ "b") (.name _ "c")))
  have hname : ∀ name ∈ ["a", "b", "c"], IsIdentifier name := by
    intro name hmem
    simp only [List.mem_cons, List.not_mem_nil, or_false] at hmem
    rcases hmem with rfl | rfl | rfl <;> exact ⟨⟨_, [], rfl, by decide, by simp⟩, by decide⟩
  have hterm : ∀ name ∈ ["a", "b", "c"], ∀ symbols t, Spelled symbols t [] →
      Spelled (.name name :: .or :: symbols) (name.toList ++ (" || ".toList ++ t)) [] := by
    intro name hmem symbols t ht
    have hends : WordEnds (" || ".toList ++ t) := wordEnds_cons (by decide)
    have hsign : Spelled [.or] ('|' :: '|' :: ' ' :: t) (' ' :: t) := .of_spells (.orSign _)
    exact (Spelled.of_spells (.name (hname name hmem) hends)).append
      ((Spelled.blank _).append (hsign.append ((Spelled.blank _).append ht)))
  have hlast : Spelled [.name "c"] "c".toList [] :=
    .of_spells (.name (hname "c" (by decide)) wordEnds_nil)
  have hright := hterm "b" (by decide) _ _ hlast
  have hgrouped : Spelled g.symbols "a || (b || c)".toList [] :=
    hterm "a" (by decide) _ _ (hright.parens [])
  have hflat : Spelled g.flat.symbols "a || b || c".toList [] := hterm "a" (by decide) _ _ hright
  have hread : ∀ source ∈ ["a || (b || c)", "a || b || c"],
      (Expr.parse source).toOption.map Expr.mentions = some ["a", "b", "c"] := by
    decide +kernel
  obtain ⟨_, hfirst, -⟩ := exists_of_parse_map (hread "a || (b || c)" (by decide))
  obtain ⟨_, hsecond, -⟩ := exists_of_parse_map (hread "a || b || c" (by decide))
  obtain ⟨-, -, hchains⟩ := chains_flatten ctx
  obtain ⟨he, hf, heval⟩ := hchains .or g _ _ hgrouped hflat
  refine ⟨_, _, he.resolve_right fun hdeep => ?_, hf.resolve_right fun hdeep => ?_, heval⟩
  · cases hfirst.symm.trans hdeep
  · cases hsecond.symm.trans hdeep

end Rule
end Workplan
