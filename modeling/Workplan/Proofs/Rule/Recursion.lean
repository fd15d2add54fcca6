import Workplan.Proofs.Rule.Nesting
import Workplan.Proofs.Rule.Reads

/-!
# How deep walking a rule recurses

Evaluating an expression and collecting its variables call themselves for the parts of a node. Each
is stated here as one call with a parameter for the calls that it makes in turn, and by iteration
with a bound on how deep these may nest. Within the longest path of an expression the bound is never
met, and the paths of accepted expressions are bounded whatever the length of their text.
-/

namespace Workplan
namespace Rule

/-- A value or an error, or nothing where a call would go too deep. -/
abbrev Attempt (α : Type) := ExceptT Error Option α

theorem Attempt.ofExcept_bind {α β : Type} (x : Except Error α) (f : α → Except Error β) :
    (ofExcept (x >>= f) : Attempt β) = ofExcept x >>= fun a => ofExcept (f a) := by
  cases x <;> rfl

namespace Expr

/-! ## One call -/

def conjunctionVia (recur : Expr → Attempt Value) : List Expr → Attempt Value
  | [] => return .bool true
  | e :: rest => do
    let v ← recur e
    let b ← ofExcept (expectBool .conjunction v)
    if b then conjunctionVia recur rest else return .bool false

def disjunctionVia (recur : Expr → Attempt Value) : List Expr → Attempt Value
  | [] => return .bool false
  | e :: rest => do
    let v ← recur e
    let b ← ofExcept (expectBool .disjunction v)
    if b then return .bool true else disjunctionVia recur rest

/-- The evaluation of one node, where `recur` evaluates its parts. -/
def evalVia (ctx : Context) (recur : Expr → Attempt Value) : Expr → Attempt Value
  | literal value => return value.toValue
  | ident name => ofExcept (variableValue ctx name)
  | list items => do
    let values ← items.mapM recur
    return .list values
  | index base at_ => do
    let b ← recur base
    let i ← recur at_
    ofExcept (indexValue b i)
  | member base field => do
    match ← recur base with
    | .map entries => return mapValue entries field
    | other => throw (.typeMismatch (.member field) (.single other.kind))
  | call function arguments => do
    let values ← arguments.mapM recur
    ofExcept (callFunction function values)
  | negation operand => do
    let v ← recur operand
    let b ← ofExcept (expectBool .negation v)
    return .bool (!b)
  | compare op left right => do
    let l ← recur left
    let r ← recur right
    ofExcept (compareValues op l r)
  | conjunction terms => conjunctionVia recur terms
  | disjunction terms => disjunctionVia recur terms

def mentionsVia (recur : Expr → Option (List String)) : Expr → Option (List String)
  | literal _ => some []
  | ident name => some [name]
  | list items => (items.mapM recur).map List.flatten
  | index base at_ => return (← recur base) ++ (← recur at_)
  | member base _ => recur base
  | call _ arguments => (arguments.mapM recur).map List.flatten
  | negation operand => recur operand
  | compare _ left right => return (← recur left) ++ (← recur right)
  | conjunction terms => (terms.mapM recur).map List.flatten
  | disjunction terms => (terms.mapM recur).map List.flatten

section Calls

variable {ctx : Context} {recur : Expr → Attempt Value} {es : List Expr} {e : Expr}

theorem mapM_eval (h : ∀ e ∈ es, recur e = ofExcept (e.eval ctx)) :
    es.mapM recur = ofExcept (evalAll ctx es) := by
  induction es with
  | nil => rfl
  | cons e es ih =>
      obtain ⟨hfirst, hlater⟩ := List.forall_mem_cons.mp h
      rw [List.mapM_cons, evalAll, hfirst, ih hlater]
      cases e.eval ctx with
      | error err => rfl
      | ok v => cases evalAll ctx es <;> rfl

theorem conjunctionVia_eq (h : ∀ e ∈ es, recur e = ofExcept (e.eval ctx)) :
    conjunctionVia recur es = ofExcept (evalConjunction ctx es) := by
  induction es with
  | nil => rfl
  | cons e es ih =>
      obtain ⟨hfirst, hlater⟩ := List.forall_mem_cons.mp h
      rw [conjunctionVia, evalConjunction_cons, hfirst, ih hlater]
      simp only [Attempt.ofExcept_bind, bind_assoc]
      refine bind_congr fun v => bind_congr fun b => ?_
      cases b <;> rfl

theorem disjunctionVia_eq (h : ∀ e ∈ es, recur e = ofExcept (e.eval ctx)) :
    disjunctionVia recur es = ofExcept (evalDisjunction ctx es) := by
  induction es with
  | nil => rfl
  | cons e es ih =>
      obtain ⟨hfirst, hlater⟩ := List.forall_mem_cons.mp h
      rw [disjunctionVia, evalDisjunction_cons, hfirst, ih hlater]
      simp only [Attempt.ofExcept_bind, bind_assoc]
      refine bind_congr fun v => bind_congr fun b => ?_
      cases b <;> rfl

/-- A call gives the value of its node if the calls that it makes give the values of the parts. -/
theorem evalVia_eq (h : ∀ part ∈ e.parts, recur part = ofExcept (part.eval ctx)) :
    evalVia ctx recur e = ofExcept (e.eval ctx) := by
  cases e with
  | literal value => rfl
  | ident name => rfl
  | list items =>
      have hitems : items.mapM recur = ofExcept (evalAll ctx items) := mapM_eval h
      rw [evalVia, eval, hitems, Attempt.ofExcept_bind]
      rfl
  | index base at_ =>
      obtain ⟨hbase, hat⟩ := List.forall_mem_cons.mp h
      rw [evalVia, eval, hbase, hat at_ List.mem_cons_self, Attempt.ofExcept_bind]
      simp only [Attempt.ofExcept_bind]
  | member base field =>
      rw [evalVia, eval, h base List.mem_cons_self, Attempt.ofExcept_bind]
      congr 1
      funext v
      cases v <;> rfl
  | call function arguments =>
      have harguments : arguments.mapM recur = ofExcept (evalAll ctx arguments) := mapM_eval h
      rw [evalVia, eval, harguments, Attempt.ofExcept_bind]
  | negation operand =>
      rw [evalVia, eval, h operand List.mem_cons_self, Attempt.ofExcept_bind]
      simp only [Attempt.ofExcept_bind]
      rfl
  | compare op left right =>
      obtain ⟨hleft, hright⟩ := List.forall_mem_cons.mp h
      rw [evalVia, eval, hleft, hright right List.mem_cons_self, Attempt.ofExcept_bind]
      simp only [Attempt.ofExcept_bind]
  | conjunction terms =>
      rw [evalVia, eval]
      exact conjunctionVia_eq h
  | disjunction terms =>
      rw [evalVia, eval]
      exact disjunctionVia_eq h

theorem mapM_mentions {recur : Expr → Option (List String)}
    (h : ∀ e ∈ es, recur e = some e.mentions) :
    (es.mapM recur).map List.flatten = some (mentionsAll es) := by
  have hmap : es.mapM recur = some (es.map mentions) := by
    induction es with
    | nil => rfl
    | cons e es ih =>
        obtain ⟨hfirst, hlater⟩ := List.forall_mem_cons.mp h
        rw [List.mapM_cons, hfirst, ih hlater]
        rfl
  rw [hmap, Option.map_some, Option.some.injEq]
  clear h hmap
  induction es with
  | nil => rfl
  | cons e es ih => rw [List.map_cons, List.flatten_cons, mentionsAll, ih]

theorem mentionsVia_eq {recur : Expr → Option (List String)}
    (h : ∀ part ∈ e.parts, recur part = some part.mentions) :
    mentionsVia recur e = some e.mentions := by
  cases e with
  | literal value => rfl
  | ident name => rfl
  | list items => exact mapM_mentions h
  | index base at_ =>
      obtain ⟨hbase, hat⟩ := List.forall_mem_cons.mp h
      rw [mentionsVia, mentions, hbase, hat at_ List.mem_cons_self]
      rfl
  | member base field => exact h base List.mem_cons_self
  | call function arguments => exact mapM_mentions h
  | negation operand => exact h operand List.mem_cons_self
  | compare op left right =>
      obtain ⟨hleft, hright⟩ := List.forall_mem_cons.mp h
      rw [mentionsVia, mentions, hleft, hright right List.mem_cons_self]
      rfl
  | conjunction terms => exact mapM_mentions h
  | disjunction terms => exact mapM_mentions h

end Calls

/-! ## Nested calls -/

/-- Evaluation by calls of which at most `depth` are open at a time. -/
def evalWithin (ctx : Context) : (depth : Nat) → Expr → Attempt Value
  | 0, _ => ExceptT.mk none
  | depth + 1, e => evalVia ctx (evalWithin ctx depth) e

def mentionsWithin : (depth : Nat) → Expr → Option (List String)
  | 0, _ => none
  | depth + 1, e => mentionsVia (mentionsWithin depth) e

/-- No path of the expression has more than `n` nodes. -/
def HeightWithin (n : Nat) (e : Expr) : Prop :=
  ∀ path, e.Path path → path.length ≤ n

variable {e : Expr} {n : Nat}

theorem not_heightWithin_zero (e : Expr) : ¬ e.HeightWithin 0 := by
  intro h
  have hlength := h _ (path_leftmost e)
  obtain ⟨rest, hrest⟩ := (path_leftmost e).head
  simp [hrest] at hlength

theorem HeightWithin.part {part : Expr} (h : e.HeightWithin (n + 1)) (hpart : part ∈ e.parts) :
    part.HeightWithin n :=
  fun path hpath => Nat.le_of_succ_le_succ (h (e :: path) (.step hpart hpath))

theorem HeightWithin.evalWithin_eq (ctx : Context) (h : e.HeightWithin n) :
    evalWithin ctx n e = ofExcept (e.eval ctx) := by
  induction n generalizing e with
  | zero => exact absurd h (not_heightWithin_zero e)
  | succ n ih => exact evalVia_eq fun part hpart => ih (h.part hpart)

theorem HeightWithin.mentionsWithin_eq (h : e.HeightWithin n) :
    mentionsWithin n e = some e.mentions := by
  induction n generalizing e with
  | zero => exact absurd h (not_heightWithin_zero e)
  | succ n ih => exact mentionsVia_eq fun part hpart => ih (h.part hpart)

end Expr

/-- However long the text of a rule is, no path of its expression has more than 2400 nodes, and
walking the expression opens no more calls at a time than that. -/
theorem parse_recursion {source : String} {e : Expr} (h : Expr.parse source = .ok e) :
    e.HeightWithin 2400 ∧
      (∀ ctx, (e.evalWithin ctx 2400).run = some (e.eval ctx)) ∧
        e.mentionsWithin 2400 = some e.mentions := by
  have hheight : e.HeightWithin 2400 := fun path hpath =>
    ((Expr.within_of_parse h).nodes path hpath).trans (by decide)
  refine ⟨hheight, fun ctx => ?_, hheight.mentionsWithin_eq⟩
  rw [hheight.evalWithin_eq ctx]
  cases e.eval ctx <;> rfl

theorem parse_recursion_mixed : ∃ e,
    Expr.parse "!a || b[0] in [c] && f(d).e == nil" = .ok e ∧ e.HeightWithin 2400 ∧
      (∀ ctx, (e.evalWithin ctx 2400).run = some (e.eval ctx)) ∧
        e.mentionsWithin 2400 = some ["a", "b", "c", "d"] := by
  have hmentions : (Expr.parse "!a || b[0] in [c] && f(d).e == nil").toOption.map Expr.mentions =
      some ["a", "b", "c", "d"] := by
    decide +kernel
  obtain ⟨e, he, hmentioned⟩ := exists_of_parse_map hmentions
  exact ⟨e, he, hmentioned ▸ parse_recursion he⟩

end Rule
end Workplan
