import Workplan.Rule.Eval

/-!
# Forms that say the same

Rules can say one thing in several ways: by an operator or by its opposite, by a field or by an
index, by an operator or by a function. Each form has an evaluation of its own, but the forms of a
pair fail together, and agree where they do not fail.
-/

namespace Workplan
namespace Rule

variable {α : Type} {ctx : Context} {a b : Expr} {R : Value → Value → Prop}

/-- Errors that differ at most in the operation that refuses its operands. -/
inductive Error.Alike : Error → Error → Prop where
  | same (e : Error) : Alike e e
  | refused (operation other : Operation) (found others : Operands) :
      Alike (.typeMismatch operation found) (.typeMismatch other others)

/-- Outcomes that fail together, or else are values that `R` relates. -/
inductive Together (R : Value → Value → Prop) : Except Error Value → Except Error Value → Prop where
  | values {v w : Value} : R v w → Together R (.ok v) (.ok w)
  | errors {e f : Error} : e.Alike f → Together R (.error e) (.error f)

inductive Value.Opposite : Value → Value → Prop where
  | bool (holds : Bool) : Opposite (.bool holds) (.bool !holds)

/-- An operand that fails makes both fail, with its own error. -/
theorem Together.bind {x : Except Error α} {f g : α → Except Error Value}
    (h : ∀ v, x = .ok v → Together R (f v) (g v)) : Together R (x >>= f) (x >>= g) := by
  cases x with
  | error e => exact .errors (.same e)
  | ok v => exact h v rfl

/-! ## Operators and their opposites -/

namespace Comparison

def opposite : Comparison → Comparison
  | eq => ne
  | ne => eq
  | lt => ge
  | le => gt
  | gt => le
  | ge => lt
  | isIn => notIn
  | notIn => isIn

theorem holds?_opposite (op : Comparison) (left right : Value) :
    op.opposite.holds? left right = (op.holds? left right).map not := by
  have hordered : ∀ f g : Ordering → Bool, (∀ o, g o = !f o) →
      (order? left right).map g = ((order? left right).map f).map not := by
    intro f g hfg
    rw [Option.map_map]
    exact Option.map_congr fun o _ => hfg o
  have htwice : ∀ holds : Option Bool, holds = (holds.map not).map not := by
    intro holds
    cases holds <;> simp
  cases op with
  | eq => rfl
  | ne => exact htwice _
  | lt => exact hordered _ _ (by decide)
  | le => exact hordered _ _ (by decide)
  | gt => exact hordered _ _ (by decide)
  | ge => exact hordered _ _ (by decide)
  | isIn => rfl
  | notIn => exact htwice _

end Comparison

theorem compareValues_opposite (op : Comparison) (left right : Value) :
    Together Value.Opposite (compareValues op left right)
      (compareValues op.opposite left right) := by
  rw [compareValues, compareValues, op.holds?_opposite]
  cases op.holds? left right with
  | none => exact .errors (.refused _ _ _ _)
  | some holds => exact .values (.bool holds)

namespace Expr

theorem eval_opposite (op : Comparison) (a b : Expr) (ctx : Context) :
    Together Value.Opposite ((compare op a b).eval ctx) ((compare op.opposite a b).eval ctx) := by
  rw [eval, eval]
  exact .bind fun l _ => .bind fun r _ => compareValues_opposite op l r

/-! ## Fields and indices -/

theorem eval_member_index (field : String) (a : Expr) (ctx : Context) :
    Together (· = ·) ((member a field).eval ctx)
      ((index a (.literal (.str field))).eval ctx) := by
  rw [eval, eval, eval]
  refine .bind fun v _ => ?_
  cases v with
  | map entries => exact .values rfl
  | _ => exact .errors (.refused _ _ _ _)

/-! ## Operators and functions -/

/-- A function that takes its two arguments gives its result for them. -/
theorem eval_call {name : String} {f : Function} {first second v : Value}
    (hname : Function.ofName? name = some f) (ha : a.eval ctx = .ok first)
    (hb : b.eval ctx = .ok second) (hresult : f.result? first second = some v) :
    (call name [a, b]).eval ctx = .ok v := by
  have harguments : evalAll ctx [a, b] = .ok [first, second] := by
    rw [evalAll, evalAll, evalAll, ha, hb]
    rfl
  rw [eval, harguments]
  show callFunction name [first, second] = .ok v
  simp only [callFunction, hname, hresult]

theorem eval_isIn {item container : Value} {found : Bool} (hitem : a.eval ctx = .ok item)
    (hcontainer : b.eval ctx = .ok container) (hfound : memberOf? item container = some found) :
    (compare .isIn a b).eval ctx = .ok (.bool found) := by
  rw [eval, hitem, hcontainer]
  show compareValues .isIn item container = .ok (.bool found)
  simp only [compareValues, Comparison.holds?, hfound]

end Expr

/-- The forms of each pair fail together, and agree where they do not: an operator and its opposite
are opposite, a field is the index by its name, and a function that looks into a list or a map
agrees with the operator that does. -/
theorem interchangeable (ctx : Context) (a b : Expr) :
    (∀ op : Comparison, Together Value.Opposite ((Expr.compare op a b).eval ctx)
        ((Expr.compare op.opposite a b).eval ctx)) ∧
      (∀ field : String, Together (· = ·) ((Expr.member a field).eval ctx)
        ((Expr.index a (.literal (.str field))).eval ctx)) ∧
      (∀ items item, a.eval ctx = .ok (.list items) → b.eval ctx = .ok item →
        ∃ found, (Expr.call "contains" [a, b]).eval ctx = .ok (.bool found) ∧
          (Expr.compare .isIn b a).eval ctx = .ok (.bool found)) ∧
      ∀ entries key, a.eval ctx = .ok (.map entries) → b.eval ctx = .ok (.str key) →
        (∃ found, (Expr.call "containsKey" [a, b]).eval ctx = .ok (.bool found) ∧
          (Expr.compare .isIn b a).eval ctx = .ok (.bool found)) ∧
        ∃ v, (Expr.index a b).eval ctx = .ok v ∧
          (Expr.call "getMapValue" [a, b]).eval ctx = .ok (if v = .nil then .str "" else v) := by
  refine ⟨fun op => Expr.eval_opposite op a b ctx, fun field => Expr.eval_member_index field a ctx,
    ?_, ?_⟩
  · intro items item ha hb
    exact ⟨items.contains item, Expr.eval_call rfl ha hb rfl, Expr.eval_isIn hb ha rfl⟩
  · intro entries key ha hb
    refine ⟨⟨entries.contains key, Expr.eval_call rfl ha hb rfl, Expr.eval_isIn hb ha rfl⟩, ?_⟩
    refine ⟨mapValue entries key, ?_, Expr.eval_call rfl ha hb ?_⟩
    · rw [Expr.eval, ha, hb]
      rfl
    · rw [Function.result?, mapValue]
      cases entries.get? key <;> simp

def lookups : Context :=
  .ofList [("FILES", .list [.str "go.mod", .int 3]), ("ENV", .map (.ofList [("CI", "1")]))]

theorem interchangeable_lookups :
    (∃ found, (Expr.call "contains" [.ident "FILES", .literal (.int 3)]).eval lookups =
        .ok (.bool found) ∧
      (Expr.compare .isIn (.literal (.int 3)) (.ident "FILES")).eval lookups =
        .ok (.bool found)) ∧
    (Expr.index (.ident "ENV") (.literal (.str "HOME"))).eval lookups = .ok .nil ∧
    (Expr.call "getMapValue" [.ident "ENV", .literal (.str "HOME")]).eval lookups =
      .ok (.str "") := by
  obtain ⟨-, -, hlist, -⟩ := interchangeable lookups (.ident "FILES") (.literal (.int 3))
  obtain ⟨-, -, -, hmap⟩ := interchangeable lookups (.ident "ENV") (.literal (.str "HOME"))
  have hfiles : (Expr.ident "FILES").eval lookups = .ok (.list [.str "go.mod", .int 3]) :=
    rfl
  have henv : (Expr.ident "ENV").eval lookups = .ok (.map (.ofList [("CI", "1")])) :=
    rfl
  have hindex : (Expr.index (.ident "ENV") (.literal (.str "HOME"))).eval lookups = .ok .nil :=
    rfl
  have hthree : (Expr.literal (.int 3)).eval lookups = .ok (.int 3) := rfl
  have hhome : (Expr.literal (.str "HOME")).eval lookups = .ok (.str "HOME") := rfl
  obtain ⟨-, v, hv, hfunction⟩ := hmap _ _ henv hhome
  obtain rfl : v = .nil := Except.ok.inj (hv.symm.trans hindex)
  exact ⟨hlist _ _ hfiles hthree, hindex, hfunction⟩

end Rule
end Workplan
