import Workplan.Proofs.Rule.Reads

/-!
# Unknown variables

An evaluation fails for an unknown variable only where it looks one up. Operations on values never
do, and whatever is evaluated first fails for variables that it mentions itself. So the name in the
error is one of the program's variables, and the context does not define it.
-/

namespace Workplan
namespace Rule

variable {α β : Type} {ctx : Context} {names others : List String} {x : Except Error α}

/-- If this fails for an unknown variable, then for one of `names` that the context does not
define. -/
def Truthful (ctx : Context) (names : List String) (x : Except Error α) : Prop :=
  ∀ name, x = .error (.unknownVariable name) → name ∈ names ∧ ctx.get? name = none

theorem Truthful.ok (a : α) : Truthful ctx names (.ok a) := by
  intro name h
  cases h

theorem Truthful.error {e : Error} (h : ∀ name, e ≠ .unknownVariable name) :
    Truthful ctx names (.error e : Except Error α) := by
  intro name hname
  exact absurd (Except.error.inj hname) (h name)

theorem Truthful.bind {f : α → Except Error β} (hfirst : Truthful ctx names x)
    (hnext : ∀ a, Truthful ctx names (f a)) : Truthful ctx names (x >>= f) := by
  cases x with
  | error e =>
      intro name h
      exact hfirst name (congrArg Except.error (Except.error.inj h))
  | ok a => exact hnext a

theorem Truthful.append_left (h : Truthful ctx names x) : Truthful ctx (names ++ others) x :=
  fun name hname => ⟨List.mem_append_left others (h name hname).1, (h name hname).2⟩

theorem Truthful.append_right (h : Truthful ctx names x) : Truthful ctx (others ++ names) x :=
  fun name hname => ⟨List.mem_append_right others (h name hname).1, (h name hname).2⟩

/-! ## Operations on values -/

theorem truthful_expectBool (operation : Operation) (v : Value) :
    Truthful ctx names (expectBool operation v) := by
  rw [expectBool.eq_def]
  split
  · exact .ok _
  · exact .error nofun

theorem truthful_indexValue (base index : Value) :
    Truthful ctx names (indexValue base index) := by
  rw [indexValue.eq_def]
  split
  · exact .ok _
  · rw [itemAt]
    split
    · exact .error nofun
    · split
      · exact .ok _
      · exact .error nofun
  · exact .error nofun

theorem truthful_compareValues (op : Comparison) (left right : Value) :
    Truthful ctx names (compareValues op left right) := by
  rw [compareValues]
  split
  · exact .ok _
  · exact .error nofun

theorem truthful_callFunction (function : String) (arguments : List Value) :
    Truthful ctx names (callFunction function arguments) := by
  rw [callFunction]
  split
  · exact .error nofun
  · split
    · split
      · exact .ok _
      · exact .error nofun
    · exact .error nofun

/-! ## Evaluation -/

theorem truthful_variableValue (ctx : Context) (name : String) :
    Truthful ctx [name] (variableValue ctx name) := by
  rw [variableValue]
  cases hname : ctx.get? name with
  | some v => exact .ok v
  | none =>
      intro other h
      obtain rfl : name = other := Error.unknownVariable.inj (Except.error.inj h)
      exact ⟨List.mem_singleton_self name, hname⟩

namespace Expr

mutual

theorem eval_truthful (ctx : Context) : (e : Expr) → Truthful ctx e.mentions (e.eval ctx)
  | literal _ => by
      rw [eval]
      exact .ok _
  | ident name => by
      rw [eval, mentions]
      exact truthful_variableValue ctx name
  | list items => by
      rw [eval, mentions]
      exact (evalAll_truthful ctx items).bind fun _ => .ok _
  | index base at_ => by
      rw [eval, mentions]
      exact (eval_truthful ctx base).append_left.bind fun _ =>
        (eval_truthful ctx at_).append_right.bind fun _ => truthful_indexValue _ _
  | member base field => by
      rw [eval, mentions]
      refine (eval_truthful ctx base).bind fun v => ?_
      split
      · exact .ok _
      · exact .error nofun
  | call function arguments => by
      rw [eval, mentions]
      exact (evalAll_truthful ctx arguments).bind fun _ => truthful_callFunction _ _
  | negation operand => by
      rw [eval, mentions]
      exact (eval_truthful ctx operand).bind fun _ =>
        (truthful_expectBool _ _).bind fun _ => .ok _
  | compare op left right => by
      rw [eval, mentions]
      exact (eval_truthful ctx left).append_left.bind fun _ =>
        (eval_truthful ctx right).append_right.bind fun _ => truthful_compareValues _ _ _
  | conjunction terms => by
      rw [eval, mentions]
      exact evalConjunction_truthful ctx terms
  | disjunction terms => by
      rw [eval, mentions]
      exact evalDisjunction_truthful ctx terms

theorem evalAll_truthful (ctx : Context) :
    (es : List Expr) → Truthful ctx (mentionsAll es) (evalAll ctx es)
  | [] => by
      rw [evalAll]
      exact .ok _
  | e :: rest => by
      rw [evalAll, mentionsAll]
      exact (eval_truthful ctx e).append_left.bind fun _ =>
        (evalAll_truthful ctx rest).append_right.bind fun _ => .ok _

theorem evalConjunction_truthful (ctx : Context) :
    (es : List Expr) → Truthful ctx (mentionsAll es) (evalConjunction ctx es)
  | [] => by
      rw [evalConjunction]
      exact .ok _
  | e :: rest => by
      rw [evalConjunction_cons, mentionsAll]
      refine ((eval_truthful ctx e).append_left.bind fun _ =>
        truthful_expectBool _ _).bind fun b => ?_
      cases b with
      | false => exact .ok _
      | true => exact (evalConjunction_truthful ctx rest).append_right

theorem evalDisjunction_truthful (ctx : Context) :
    (es : List Expr) → Truthful ctx (mentionsAll es) (evalDisjunction ctx es)
  | [] => by
      rw [evalDisjunction]
      exact .ok _
  | e :: rest => by
      rw [evalDisjunction_cons, mentionsAll]
      refine ((eval_truthful ctx e).append_left.bind fun _ =>
        truthful_expectBool _ _).bind fun b => ?_
      cases b with
      | true => exact .ok _
      | false => exact (evalDisjunction_truthful ctx rest).append_right

end

end Expr

/-! ## Programs -/

namespace Program

theorem run_truthful (program : Program) (ctx : Context) :
    Truthful ctx program.freeVars (program.run ctx) := by
  intro name h
  obtain ⟨hmentioned, hnone⟩ := Expr.eval_truthful ctx program.expr name h
  exact ⟨Expr.mem_freeVars.mpr hmentioned, hnone⟩

/-- A program that fails for an unknown variable names a variable of its own that the context does
not define. Where its variables are all defined it never fails so, whatever it comes to evaluate. -/
theorem unknownVariable_account (program : Program) (ctx : Context) :
    (∀ name, program.run ctx = .error (.unknownVariable name) →
        name ∈ program.freeVars ∧ ctx.contains name = false) ∧
      ((∀ name ∈ program.freeVars, ctx.contains name = true) →
        ∀ name, program.run ctx ≠ .error (.unknownVariable name)) := by
  have haccount : ∀ name, program.run ctx = .error (.unknownVariable name) →
      name ∈ program.freeVars ∧ ctx.contains name = false := by
    intro name h
    obtain ⟨hfree, hnone⟩ := run_truthful program ctx name h
    exact ⟨hfree, Option.isSome_eq_false_iff.mpr (Option.isNone_iff_eq_none.mpr hnone)⟩
  refine ⟨haccount, fun hdefined name h => ?_⟩
  obtain ⟨hfree, hundefined⟩ := haccount name h
  exact Bool.false_ne_true (hundefined.symm.trans (hdefined name hfree))

def unowned : Context :=
  .ofList [("NAME", .str "api"), ("READY", .bool true)]

/-- The second term is reached and fails for its own variable. Once this is defined it fails again,
but not for a variable. -/
theorem unknownVariable_account_reached : ∃ program,
    program? "!READY || NAME in OWNER" = some program ∧
      program.run unowned = .error (.unknownVariable "OWNER") ∧
      ("OWNER" ∈ program.freeVars ∧ unowned.contains "OWNER" = false) ∧
      (∀ name ∈ program.freeVars,
        (unowned.insert "OWNER" (.str "team")).contains name = true) ∧
      ∀ name, program.run (unowned.insert "OWNER" (.str "team")) ≠
        .error (.unknownVariable name) := by
  have hread : (program? "!READY || NAME in OWNER").map (fun program =>
      (program.freeVars, program.run unowned)) =
        some (["NAME", "OWNER", "READY"], .error (.unknownVariable "OWNER")) := by
    decide +kernel
  obtain ⟨program, hprogram, hseen⟩ := Option.map_eq_some_iff.mp hread
  obtain ⟨hvars, hrun⟩ := Prod.mk.inj hseen
  have hdefined : ∀ name ∈ program.freeVars,
      (unowned.insert "OWNER" (.str "team")).contains name = true := by
    rw [hvars]
    decide +kernel
  obtain ⟨htrue, -⟩ := unknownVariable_account program unowned
  obtain ⟨-, hnever⟩ := unknownVariable_account program (unowned.insert "OWNER" (.str "team"))
  exact ⟨program, hprogram, hrun, htrue _ hrun, hdefined, hnever hdefined⟩

end Program
end Rule
end Workplan
