import Workplan.Rule.Parser

/-!
# What readers make of a text

An outcome is what a reader returns, without the bound on what it leaves over. Each reader of a
level is described by an equation between outcomes: what its parts make of the text decides what
it makes of it. Nothing else is used of the readers elsewhere.
-/

namespace Workplan
namespace Rule

open Token

inductive Outcome (α : Type) where
  | value (result : α) (rest : List Char)
  | noMatch
  | tooDeep

namespace Outcome

variable {α β γ : Type} {o : Outcome α}

/-- Goes on after what was read, or else takes the other way. A refusal stays one. -/
def thenElse (o : Outcome α) (next : α → List Char → Outcome β) (other : Outcome β) : Outcome β :=
  match o with
  | value result rest => next result rest
  | noMatch => other
  | tooDeep => tooDeep

def map (f : α → β) (o : Outcome α) : Outcome β :=
  o.thenElse (fun result rest => value (f result) rest) noMatch

@[simp] theorem thenElse_value (result : α) (rest : List Char)
    (next : α → List Char → Outcome β) (other : Outcome β) :
    (value result rest).thenElse next other = next result rest := rfl

@[simp] theorem thenElse_noMatch (next : α → List Char → Outcome β) (other : Outcome β) :
    noMatch.thenElse next other = other := rfl

@[simp] theorem thenElse_tooDeep (next : α → List Char → Outcome β) (other : Outcome β) :
    tooDeep.thenElse next other = tooDeep := rfl

@[simp] theorem map_value (f : α → β) (result : α) (rest : List Char) :
    (value result rest).map f = value (f result) rest := rfl

@[simp] theorem map_noMatch (f : α → β) : (noMatch : Outcome α).map f = noMatch := rfl

@[simp] theorem map_tooDeep (f : α → β) : (tooDeep : Outcome α).map f = tooDeep := rfl

theorem map_map (f : α → β) (g : β → γ) : (o.map f).map g = o.map fun a => g (f a) := by
  cases o <;> rfl

theorem map_eq_value {f : α → β} {b : β} {rest : List Char} :
    o.map f = .value b rest ↔ ∃ a, o = .value a rest ∧ f a = b := by
  cases o <;> simp [and_left_comm, and_comm]

/-- Where a value comes out, something was read and went on, or the other way gave it. -/
theorem thenElse_eq_value {next : α → List Char → Outcome β} {other : Outcome β} {b : β}
    {final : List Char} :
    o.thenElse next other = .value b final ↔
      (∃ a rest, o = .value a rest ∧ next a rest = .value b final) ∨
        o = .noMatch ∧ other = .value b final := by
  cases o with
  | value result rest =>
      constructor
      · intro h
        exact .inl ⟨result, rest, rfl, h⟩
      · intro h
        rcases h with ⟨a, r, heq, h⟩ | ⟨heq, -⟩
        · cases heq
          exact h
        · cases heq
  | noMatch => simp
  | tooDeep => simp

end Outcome

namespace Parsed

variable {α β : Type} {bound small large : Nat}

/-- What was read, without the bound on the rest. -/
def outcome : Parsed α bound → Outcome α
  | value result rest _ => .value result rest
  | noMatch => .noMatch
  | tooDeep => .tooDeep

@[simp] theorem outcome_value (result : α) (rest : List Char) (h : rest.length < bound) :
    (value result rest h).outcome = .value result rest := rfl

@[simp] theorem outcome_noMatch : (noMatch : Parsed α bound).outcome = .noMatch := rfl

@[simp] theorem outcome_tooDeep : (tooDeep : Parsed α bound).outcome = .tooDeep := rfl

@[simp] theorem outcome_relax (h : small ≤ large) (p : Parsed α small) :
    (p.relax h).outcome = p.outcome := by
  cases p <;> rfl

@[simp] theorem outcome_map (f : α → β) (p : Parsed α bound) :
    (p.map f).outcome = p.outcome.map f := by
  cases p <;> rfl

end Parsed

/-! ## Sequences -/

namespace Parser

variable {sep : Separator} {member : Parser Expr}

theorem length_lt_bound (s : List Char) : s.length < s.length + 1 :=
  Nat.lt_succ_self _

def tail (sep : Separator) (member : Parser Expr) (s : List Char) : Outcome (List Expr) :=
  (further sep member (s.length + 1) s (length_lt_bound s) []).outcome

theorem outcome_further (bound : Nat) (s : List Char) (hs : s.length < bound) (acc : List Expr) :
    (further sep member bound s hs acc).outcome = (tail sep member s).map (acc.reverse ++ ·) := by
  induction hn : s.length using Nat.strongRecOn generalizing s bound acc with
  | _ n ih =>
      subst hn
      unfold tail further
      split
      · simp
      · next r hr =>
        split
        · next e rest shorter _ =>
          have hsign := sep.shorter hr
          have hspace := length_skipSpace_le s
          have hafter := length_skipSpace_le r
          have hshorter : rest.length < s.length := by omega
          rw [ih _ hshorter _ _ _ _ rfl, ih _ hshorter _ _ _ _ rfl, Outcome.map_map]
          simp
        · simp
        · simp

theorem tail_none {s : List Char} (h : sep.take (skipSpace s) = none) :
    tail sep member s = .value [] s := by
  rw [tail]
  unfold further
  split
  · simp
  · next hr => simp [h] at hr

/-- A separator without a member after it is given back. -/
theorem tail_some {s r : List Char} (h : sep.take (skipSpace s) = some r) :
    tail sep member s = (member (skipSpace r)).outcome.thenElse
      (fun e rest => (tail sep member rest).map (e :: ·)) (.value [] s) := by
  rw [tail]
  unfold further
  split
  · next hnone => simp [h] at hnone
  · next r' hr =>
    obtain rfl : r = r' := Option.some.inj (h.symm.trans hr)
    split
    · next heq => simp [heq, outcome_further]
    · next heq => simp [heq]
    · next heq => simp [heq]

theorem outcome_sequence (s : List Char) :
    (sequence sep member s).outcome = (member s).outcome.thenElse
      (fun e rest => (tail sep member rest).map (e :: ·)) .noMatch := by
  unfold sequence
  split
  · next heq => simp [heq, outcome_further]
  · next heq => simp [heq]
  · next heq => simp [heq]

end Parser

/-! ## The readers of a level -/

def literal? (s : List Char) : Option (Literal × List Char) :=
  ((Token.string s).map fun x => (.str x.1, x.2)).or <|
    ((integer s).map fun x => (.int x.1, x.2)).or <|
      ((word "true" s).map fun rest => (.bool true, rest)).or <|
        ((word "false" s).map fun rest => (.bool false, rest)).or <|
          (word "nil" s).map fun rest => (.nil, rest)

namespace Level

variable {inner : Level} {base : Expr} {s r : List Char}

theorem outcome_arguments (inner : Level) (s : List Char) :
    (inner.arguments s).outcome =
      (Parser.sequence .comma inner.disjunction s).outcome.thenElse .value (.value [] s) := by
  unfold arguments
  split <;> simp [*]

theorem outcome_suffixesOver_bracket (h : skipSpace s = '[' :: r) :
    (inner.suffixesOver base s).outcome =
      (inner.disjunction (skipSpace r)).outcome.thenElse (fun e rest =>
        match closing ']' rest with
        | some final => (inner.suffixes (.index base e) final).outcome
        | none => .value base s) (.value base s) := by
  unfold suffixesOver
  split
  · next r' h' =>
    obtain rfl : r = r' := by simpa [h] using h'
    split
    · next hd =>
      rw [hd, Parsed.outcome_value, Outcome.thenElse_value]
      split <;> simp [*]
    · next hd => simp [hd]
    · next hd => simp [hd]
  · next h' => simp [h] at h'
  · next h' _ => exact absurd h (h' r)

theorem outcome_suffixesOver_dot (h : skipSpace s = '.' :: r) :
    (inner.suffixesOver base s).outcome =
      match identifier (skipSpace r) with
      | some (field, rest) => (inner.suffixes (.member base field) rest).outcome
      | none => .value base s := by
  unfold suffixesOver
  split
  · next h' => simp [h] at h'
  · next r' h' =>
    obtain rfl : r = r' := by simpa [h] using h'
    split <;> simp [*]
  · next _ h' => exact absurd h (h' r)

theorem outcome_suffixesOver_end (hbracket : (skipSpace s).head? ≠ some '[')
    (hdot : (skipSpace s).head? ≠ some '.') :
    (inner.suffixesOver base s).outcome = .value base s := by
  unfold suffixesOver
  split
  · next h => simp [h] at hbracket
  · next h => simp [h] at hdot
  · rfl

theorem outcome_callOrIdent_none (h : identifier s = none) :
    (inner.callOrIdent s).outcome = .noMatch := by
  unfold callOrIdent
  split
  · rfl
  · next hi => simp [h] at hi

theorem outcome_callOrIdent_call {name : String} {rest : List Char}
    (h : identifier s = some (name, rest)) (hp : skipSpace rest = '(' :: r) :
    (inner.callOrIdent s).outcome =
      (inner.arguments (skipSpace r)).outcome.thenElse (fun es afterArguments =>
        match closing ')' afterArguments with
        | some final => .value (.call name es) final
        | none => .value (.ident name) rest) (.value (.ident name) rest) := by
  unfold callOrIdent
  split
  · next hi => simp [h] at hi
  · next hi =>
    obtain ⟨rfl, rfl⟩ : _ ∧ _ := by simpa using h.symm.trans hi
    split
    · next r' hr =>
      obtain rfl : r = r' := by simpa [hp] using hr
      split
      · next ha =>
        rw [ha, Parsed.outcome_value, Outcome.thenElse_value]
        split <;> simp [*]
      · next ha => simp [ha]
      · next ha => simp [ha]
    · next hr => exact absurd hp (hr r)

theorem outcome_callOrIdent_ident {name : String} {rest : List Char}
    (h : identifier s = some (name, rest)) (hp : (skipSpace rest).head? ≠ some '(') :
    (inner.callOrIdent s).outcome = .value (.ident name) rest := by
  unfold callOrIdent
  split
  · next hi => simp [h] at hi
  · next hi =>
    obtain ⟨rfl, rfl⟩ : _ ∧ _ := by simpa using h.symm.trans hi
    split
    · next hr => simp [hr] at hp
    · rfl

theorem outcome_atom (inner : Level) (s : List Char) :
    (inner.atom s).outcome =
      match literal? s with
      | some (v, rest) => .value (.literal v) rest
      | none => (inner.callOrIdent s).outcome := by
  unfold atom literal?
  split
  · simp [*]
  · split
    · simp [*]
    · split
      · simp [*]
      · split
        · simp [*]
        · split <;> simp [*]

theorem outcome_primaryAt_parens (inner : Level) (r : List Char) :
    (inner.primaryAt ('(' :: r)).outcome =
      (inner.disjunction r).outcome.thenElse (fun e rest =>
        match closing ')' rest with
        | some final => .value e final
        | none => .noMatch) .noMatch := by
  rw [primaryAt]
  split
  · next hd =>
    rw [hd, Parsed.outcome_value, Outcome.thenElse_value]
    split <;> simp [*]
  · next hd => simp [hd]
  · next hd => simp [hd]

theorem outcome_primaryAt_list (inner : Level) (r : List Char) :
    (inner.primaryAt ('[' :: r)).outcome =
      (inner.arguments r).outcome.thenElse (fun es rest =>
        match closing ']' rest with
        | some final => .value (.list es) final
        | none => .noMatch) .noMatch := by
  rw [primaryAt]
  split
  · next hd =>
    rw [hd, Parsed.outcome_value, Outcome.thenElse_value]
    split <;> simp [*]
  · next hd => simp [hd]
  · next hd => simp [hd]

theorem outcome_primaryAt_atom (hparen : s.head? ≠ some '(') (hbracket : s.head? ≠ some '[') :
    (inner.primaryAt s).outcome = (inner.atom s).outcome := by
  unfold primaryAt
  split
  · simp at hparen
  · simp at hbracket
  · rfl

theorem outcome_primary (inner : Level) (s : List Char) :
    (inner.primary s).outcome = (inner.primaryAt (skipSpace s)).outcome.thenElse
      (fun e rest => .value e (skipSpace rest)) .noMatch := by
  unfold primary
  split <;> simp [*]

theorem outcome_suffixed (inner : Level) (s : List Char) :
    (inner.suffixed s).outcome = (inner.primary s).outcome.thenElse
      (fun e rest => (inner.suffixesOver e rest).outcome) .noMatch := by
  unfold suffixed
  split <;> simp [*]

theorem outcome_negationOver_none (h : notSign (skipSpace s) = none) :
    (inner.negationOver s).outcome = (inner.suffixed s).outcome := by
  unfold negationOver
  split
  · rfl
  · next hr => simp [h] at hr

theorem outcome_negationOver_some (h : notSign (skipSpace s) = some r) :
    (inner.negationOver s).outcome = (inner.negation (skipSpace r)).outcome.thenElse
      (fun e rest => .value (.negation e) rest) (inner.suffixed s).outcome := by
  unfold negationOver
  split
  · next hr => simp [h] at hr
  · next r' hr =>
    obtain rfl : r = r' := Option.some.inj (h.symm.trans hr)
    split <;> simp [*]

theorem outcome_comparisonOver (inner : Level) (s : List Char) :
    (inner.comparisonOver s).outcome = (inner.negationOver s).outcome.thenElse (fun left rest =>
      match Token.comparison (skipSpace rest) with
      | some (op, r) => (inner.negationOver (skipSpace r)).outcome.thenElse
          (fun right final => .value (.compare op left right) final) (.value left rest)
      | none => .value left rest) .noMatch := by
  unfold comparisonOver
  split
  · next hleft =>
    rw [hleft, Parsed.outcome_value, Outcome.thenElse_value]
    split
    · next hop => simp [hop]
    · next hop =>
      simp only [hop]
      split <;> simp [*]
  · next hleft => simp [hleft]
  · next hleft => simp [hleft]

theorem outcome_conjunctionOver (inner : Level) (s : List Char) :
    (inner.conjunctionOver s).outcome =
      (Parser.sequence .and inner.comparisonOver s).outcome.map (Parser.joined .conjunction) :=
  Parsed.outcome_map _ _

theorem outcome_disjunctionOver (inner : Level) (s : List Char) :
    (inner.disjunctionOver s).outcome =
      (Parser.sequence .or inner.conjunctionOver s).outcome.map (Parser.joined .disjunction) :=
  Parsed.outcome_map _ _

end Level

/-- What is read as a whole text: all of it must belong to the expression. -/
theorem parse_eq (source : String) : Expr.parse source =
    match ((level (maxNesting + 1)).disjunction (skipSpace source.toList)).outcome with
    | .tooDeep => .error .tooDeep
    | .noMatch => .error (noTermAt (skipSpace source.toList))
    | .value e rest =>
      match skipSpace rest with
      | [] => .ok e
      | rest => .error (.leftOver (String.ofList rest)) := by
  simp only [Expr.parse]
  split <;> simp only [*] <;> rfl

end Rule
end Workplan
