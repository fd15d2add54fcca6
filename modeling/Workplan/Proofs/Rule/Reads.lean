import Workplan.Proofs.Rule.Gate
import Mathlib.Control.Monad.Basic

/-!
# What a rule reads

Evaluating an expression looks up the variables that it mentions and no others, and what a
context does not define can only make it fail. So contexts that agree on the variables of a rule
decide it alike, and what has a value keeps it in a context that defines more.
-/

namespace Workplan
namespace Rule

variable {α β : Type} {ctx other : Context} {missing : String → Prop} {names : List String}

/-! ## Agreement up to missing variables -/

/-- The first outcome is the second one, unless it fails for want of a missing variable. -/
def AgreesUpTo (missing : String → Prop) (x y : Except Error α) : Prop :=
  x = y ∨ ∃ name, missing name ∧ x = .error (.unknownVariable name)

/-- On these names the first context says what the second one says, or nothing: then the name is
a missing one. -/
def Context.AgreesUpTo (missing : String → Prop) (names : List String) (ctx other : Context) :
    Prop :=
  ∀ name ∈ names, ctx.get? name = other.get? name ∨ missing name ∧ ctx.get? name = none

/-- The first context defines what the second one does, with the same value. -/
def Context.Extends (ctx other : Context) : Prop :=
  ∀ name value, other.get? name = some value → ctx.get? name = some value

theorem AgreesUpTo.refl (x : Except Error α) : AgreesUpTo missing x x :=
  .inl rfl

theorem AgreesUpTo.bind {x y : Except Error α} {f g : α → Except Error β}
    (h : AgreesUpTo missing x y) (hnext : ∀ a, AgreesUpTo missing (f a) (g a)) :
    AgreesUpTo missing (x >>= f) (y >>= g) := by
  rcases h with rfl | ⟨name, hname, rfl⟩
  · cases x with
    | error e => exact .refl _
    | ok a => exact hnext a
  · exact .inr ⟨name, hname, rfl⟩

theorem Context.AgreesUpTo.append {others : List String}
    (h : ctx.AgreesUpTo missing (names ++ others) other) :
    ctx.AgreesUpTo missing names other ∧ ctx.AgreesUpTo missing others other :=
  List.forall_mem_append.mp h

/-! ## Evaluation -/

namespace Expr

theorem evalConjunction_cons (ctx : Context) (e : Expr) (rest : List Expr) :
    evalConjunction ctx (e :: rest) = ((e.eval ctx >>= expectBool .conjunction) >>= fun b =>
      if b then evalConjunction ctx rest else .ok (.bool false)) := by
  rw [evalConjunction]
  cases e.eval ctx with
  | error err => rfl
  | ok v =>
      cases hbool : expectBool .conjunction v with
      | error err => simp [hbool, bind, Except.bind]
      | ok b => cases b <;> simp [hbool, bind, Except.bind]

theorem evalDisjunction_cons (ctx : Context) (e : Expr) (rest : List Expr) :
    evalDisjunction ctx (e :: rest) = ((e.eval ctx >>= expectBool .disjunction) >>= fun b =>
      if b then .ok (.bool true) else evalDisjunction ctx rest) := by
  rw [evalDisjunction]
  cases e.eval ctx with
  | error err => rfl
  | ok v =>
      cases hbool : expectBool .disjunction v with
      | error err => simp [hbool, bind, Except.bind]
      | ok b => cases b <;> simp [hbool, bind, Except.bind]

mutual

theorem eval_agreesUpTo : (e : Expr) → ctx.AgreesUpTo missing e.mentions other →
    AgreesUpTo missing (e.eval ctx) (e.eval other)
  | literal _, _ => by
      rw [eval, eval]
      exact .refl _
  | ident name, h => by
      rw [eval, eval, variableValue, variableValue]
      rcases h name (by simp [mentions]) with hsame | ⟨hmissing, hnone⟩
      · rw [hsame]
        exact .refl _
      · rw [hnone]
        exact .inr ⟨name, hmissing, rfl⟩
  | list items, h => by
      rw [mentions] at h
      rw [eval, eval]
      exact (evalAll_agreesUpTo items h).bind fun _ => .refl _
  | index base at_, h => by
      rw [mentions] at h
      rw [eval, eval]
      exact (eval_agreesUpTo base h.append.1).bind fun _ =>
        (eval_agreesUpTo at_ h.append.2).bind fun _ => .refl _
  | member base field, h => by
      rw [mentions] at h
      rw [eval, eval]
      exact (eval_agreesUpTo base h).bind fun _ => .refl _
  | call function arguments, h => by
      rw [mentions] at h
      rw [eval, eval]
      exact (evalAll_agreesUpTo arguments h).bind fun _ => .refl _
  | negation operand, h => by
      rw [mentions] at h
      rw [eval, eval]
      exact (eval_agreesUpTo operand h).bind fun _ => .refl _
  | compare op left right, h => by
      rw [mentions] at h
      rw [eval, eval]
      exact (eval_agreesUpTo left h.append.1).bind fun _ =>
        (eval_agreesUpTo right h.append.2).bind fun _ => .refl _
  | conjunction terms, h => by
      rw [mentions] at h
      rw [eval, eval]
      exact evalConjunction_agreesUpTo terms h
  | disjunction terms, h => by
      rw [mentions] at h
      rw [eval, eval]
      exact evalDisjunction_agreesUpTo terms h

theorem evalAll_agreesUpTo : (es : List Expr) → ctx.AgreesUpTo missing (mentionsAll es) other →
    AgreesUpTo missing (evalAll ctx es) (evalAll other es)
  | [], _ => by
      rw [evalAll, evalAll]
      exact .refl _
  | e :: rest, h => by
      rw [mentionsAll] at h
      rw [evalAll, evalAll]
      exact (eval_agreesUpTo e h.append.1).bind fun _ =>
        (evalAll_agreesUpTo rest h.append.2).bind fun _ => .refl _

theorem evalConjunction_agreesUpTo : (es : List Expr) →
    ctx.AgreesUpTo missing (mentionsAll es) other →
    AgreesUpTo missing (evalConjunction ctx es) (evalConjunction other es)
  | [], _ => by
      rw [evalConjunction, evalConjunction]
      exact .refl _
  | e :: rest, h => by
      rw [mentionsAll] at h
      rw [evalConjunction_cons, evalConjunction_cons]
      refine ((eval_agreesUpTo e h.append.1).bind fun _ => .refl _).bind fun b => ?_
      cases b with
      | false => exact .refl _
      | true => exact evalConjunction_agreesUpTo rest h.append.2

theorem evalDisjunction_agreesUpTo : (es : List Expr) →
    ctx.AgreesUpTo missing (mentionsAll es) other →
    AgreesUpTo missing (evalDisjunction ctx es) (evalDisjunction other es)
  | [], _ => by
      rw [evalDisjunction, evalDisjunction]
      exact .refl _
  | e :: rest, h => by
      rw [mentionsAll] at h
      rw [evalDisjunction_cons, evalDisjunction_cons]
      refine ((eval_agreesUpTo e h.append.1).bind fun _ => .refl _).bind fun b => ?_
      cases b with
      | true => exact .refl _
      | false => exact evalDisjunction_agreesUpTo rest h.append.2

end

theorem mem_insertName {name other : String} {names : List String} :
    name ∈ insertName other names ↔ name = other ∨ name ∈ names := by
  induction names with
  | nil => simp [insertName]
  | cons first rest ih =>
      by_cases heq : other = first
      · simp [insertName, heq]
      · by_cases hlt : other < first
        · simp [insertName, heq, hlt]
        · simp [insertName, heq, hlt, ih, or_left_comm]

theorem mem_foldl_insertName {name : String} {mentioned names : List String} :
    name ∈ mentioned.foldl (fun names name => insertName name names) names ↔
      name ∈ mentioned ∨ name ∈ names := by
  induction mentioned generalizing names with
  | nil => simp
  | cons first rest ih =>
      rw [List.foldl_cons, ih, mem_insertName, List.mem_cons, or_left_comm, or_assoc]

theorem mem_freeVars {name : String} {e : Expr} : name ∈ e.freeVars ↔ name ∈ e.mentions := by
  rw [freeVars, mem_foldl_insertName]
  simp

end Expr

/-! ## Programs and rules -/

namespace Program

/-- Programs read nothing but their variables. -/
theorem run_eq_of_agree {program : Program}
    (h : ∀ name ∈ program.freeVars, ctx.get? name = other.get? name) :
    program.run ctx = program.run other := by
  have hagrees : ctx.AgreesUpTo (fun _ => False) program.expr.mentions other :=
    fun name hname => .inl (h name (Expr.mem_freeVars.mpr hname))
  rcases Expr.eval_agreesUpTo program.expr hagrees with heq | ⟨_, hfalse, -⟩
  · exact heq
  · exact hfalse.elim

/-- A value stays in a context that defines more. -/
theorem run_of_extends {program : Program} {v : Value} (hextends : other.Extends ctx)
    (h : program.run ctx = .ok v) : program.run other = .ok v := by
  have hagrees : ctx.AgreesUpTo (fun _ => True) program.expr.mentions other := by
    intro name _
    cases hname : ctx.get? name with
    | none => exact .inr ⟨trivial, rfl⟩
    | some value => exact .inl (hextends name value hname).symm
  rcases Expr.eval_agreesUpTo program.expr hagrees with heq | ⟨name, -, hunknown⟩
  · exact heq.symm.trans h
  · cases h.symm.trans hunknown

theorem decides_eq_of_agree {program : Program}
    (h : ∀ name ∈ program.freeVars, ctx.get? name = other.get? name) :
    program.decides ctx = program.decides other := by
  rw [decides, decides, run_eq_of_agree h]

theorem isMatch_eq_of_agree {program : Program}
    (h : ∀ name ∈ program.freeVars, ctx.get? name = other.get? name) :
    program.isMatch ctx = program.isMatch other := by
  rw [isMatch, isMatch, decides_eq_of_agree h]

theorem isMatch_of_extends {program : Program} (hextends : other.Extends ctx)
    (h : program.isMatch ctx = true) : program.isMatch other = true := by
  cases hrun : program.run ctx with
  | error e => simp [isMatch, decides, hrun] at h
  | ok v =>
      rw [isMatch, decides, hrun] at h
      rw [isMatch, decides, run_of_extends hextends hrun]
      exact h

/-- The variables of a program account for all that it reads: its value or error, and whether it
matches or why not, are settled by what a context says of them. -/
theorem freeVars_account (program : Program) (ctx other : Context)
    (h : ∀ name ∈ program.freeVars, ctx.get? name = other.get? name) :
    program.run ctx = program.run other ∧ program.decides ctx = program.decides other :=
  ⟨run_eq_of_agree h, decides_eq_of_agree h⟩

def known : Context :=
  .ofList [("NAME", .str "a"), ("READY", .bool true)]

/-- The contexts differ in a variable that is not mentioned. Neither defines `LATER`, which is
mentioned but not reached. -/
theorem freeVars_account_unreached : ∃ program,
    program? "!(READY || NAME in LATER)" = some program ∧
      (∀ name ∈ program.freeVars, known.get? name = (known.insert "MODE" .nil).get? name) ∧
      program.run known = .ok (.bool false) ∧
      program.run (known.insert "MODE" .nil) = .ok (.bool false) := by
  have hread : (program? "!(READY || NAME in LATER)").map (fun program =>
      (program.freeVars, program.run known)) =
        some (["LATER", "NAME", "READY"], .ok (.bool false)) := by
    decide +kernel
  obtain ⟨program, hprogram, hseen⟩ := Option.map_eq_some_iff.mp hread
  obtain ⟨hvars, hrun⟩ := Prod.mk.inj hseen
  have hagree : ∀ name ∈ program.freeVars,
      known.get? name = (known.insert "MODE" .nil).get? name := by
    rw [hvars]
    decide +kernel
  obtain ⟨hsame, -⟩ := freeVars_account program _ _ hagree
  exact ⟨program, hprogram, hagree, hrun, hsame.symm.trans hrun⟩

end Program

/-- The variables that a rule mentions: none, if it cannot be read. -/
def freeVars (r : Rule) : List String :=
  (program? r.expression).elim [] Program.freeVars

variable {r : Rule}

theorem usesModuleVariables_iff :
    r.usesModuleVariables = true ↔ ∃ name ∈ r.freeVars, Program.isModuleVariable name = true := by
  rw [usesModuleVariables, freeVars]
  cases program? r.expression <;> simp [Program.usesModuleVariables]

theorem isMatch_eq_of_agree (h : ∀ name ∈ r.freeVars, ctx.get? name = other.get? name) :
    r.isMatch ctx = r.isMatch other := by
  rw [isMatch_eq_any, isMatch_eq_any]
  rw [freeVars] at h
  cases hprogram : program? r.expression with
  | none => rfl
  | some program =>
      rw [hprogram] at h
      exact Program.isMatch_eq_of_agree h

theorem isMatch_of_extends (hextends : other.Extends ctx) (h : r.isMatch ctx = true) :
    r.isMatch other = true := by
  rw [isMatch_eq_any] at h ⊢
  cases hprogram : program? r.expression with
  | none => simp [hprogram] at h
  | some program =>
      rw [hprogram] at h
      exact Program.isMatch_of_extends hextends h

end Rule
end Workplan
