import Workplan.Rule.Token

/-!
# Reading expressions

The grammar, from the loosest binding to the tightest:

```text
disjunction := conjunction (("||" | "or") conjunction)*
conjunction := comparison (("&&" | "and") comparison)*
comparison  := negation (operator negation)?
operator    := "==" | "!=" | "<=" | ">=" | "<" | ">" | "in" | "not in"
negation    := ("!" | "not") negation | primary suffix*
suffix      := "[" disjunction "]" | "." identifier
primary     := "(" disjunction ")" | "[" arguments "]" | string | integer
             | "true" | "false" | "nil" | identifier "(" arguments ")" | identifier
arguments   := (disjunction ("," disjunction)*)?
```

An optional part that does not match gives back all it took. Parentheses, lists, arguments,
suffixes and negations each open a nesting level; a level beyond the limit ends the reading at
once. A `Level` holds the readers of one nesting level, built from the readers of the level
inside it, so the recursion follows the levels and needs no other measure.
-/

namespace Workplan
namespace Rule

open Token

/-- What a reader makes of a text whose length is below `bound`. -/
inductive Parsed (α : Type) (bound : Nat) where
  | value (result : α) (rest : List Char) (shorter : rest.length < bound)
  | noMatch
  | tooDeep

namespace Parsed

def map {α β : Type} {bound : Nat} (f : α → β) : Parsed α bound → Parsed β bound
  | value result rest shorter => value (f result) rest shorter
  | noMatch => noMatch
  | tooDeep => tooDeep

def relax {α : Type} {small large : Nat} (h : small ≤ large) : Parsed α small → Parsed α large
  | value result rest shorter => value result rest (Nat.lt_of_lt_of_le shorter h)
  | noMatch => noMatch
  | tooDeep => tooDeep

end Parsed

/-- A reader of the front of a text, which takes at least one character when it matches. -/
abbrev Parser (α : Type) := (s : List Char) → Parsed α s.length

structure Separator where
  take : List Char → Option (List Char)
  shorter : ∀ {s rest : List Char}, take s = some rest → rest.length < s.length

namespace Separator

def or : Separator := ⟨orSign, length_orSign_lt⟩

def and : Separator := ⟨andSign, length_andSign_lt⟩

def comma : Separator where
  take := exactly [',']
  shorter h := by
    have := length_exactly h
    simp only [List.length_cons, List.length_nil] at this
    omega

end Separator

namespace Parser

/--
Reads further members of a sequence, each after a separator. A separator that no member
follows is given back. `acc` holds the members read so far, reversed.
-/
def further (sep : Separator) (member : Parser Expr) (bound : Nat) (s : List Char)
    (hs : s.length < bound) (acc : List Expr) : Parsed (List Expr) bound :=
  match h : sep.take (skipSpace s) with
  | none => .value acc.reverse s hs
  | some afterSign =>
    have h1 := sep.shorter h
    have h2 := length_skipSpace_le s
    have h3 := length_skipSpace_le afterSign
    match member (skipSpace afterSign) with
    | .value e rest shorter => further sep member bound rest (by omega) (e :: acc)
    | .noMatch => .value acc.reverse s hs
    | .tooDeep => .tooDeep
termination_by s.length
decreasing_by omega

def sequence (sep : Separator) (member : Parser Expr) : Parser (List Expr) := fun s =>
  match member s with
  | .value e rest shorter => further sep member s.length rest shorter [e]
  | .noMatch => .noMatch
  | .tooDeep => .tooDeep

/-- One member stands for itself; several become a node. -/
def joined (node : List Expr → Expr) : List Expr → Expr
  | [e] => e
  | es => node es

end Parser

/-- The readers of one nesting level that levels further out make use of. -/
structure Level where
  disjunction : Parser Expr
  negation : Parser Expr
  suffixes : Expr → (s : List Char) → Parsed Expr (s.length + 1)

namespace Level

def beyond : Level where
  disjunction _ := .tooDeep
  negation _ := .tooDeep
  suffixes _ _ := .tooDeep

def arguments (inner : Level) (s : List Char) : Parsed (List Expr) (s.length + 1) :=
  match Parser.sequence .comma inner.disjunction s with
  | .value es rest shorter => .value es rest (Nat.lt_succ_of_lt shorter)
  | .noMatch => .value [] s (Nat.lt_succ_self _)
  | .tooDeep => .tooDeep

/-- Reads the suffixes of `base`, each of which lies one level below the one before. -/
def suffixesOver (inner : Level) (base : Expr) (s : List Char) : Parsed Expr (s.length + 1) :=
  have hs := length_skipSpace_le s
  match h : skipSpace s with
  | '[' :: r =>
    have hr := length_skipSpace_le r
    match inner.disjunction (skipSpace r) with
    | .value at_ rest shorter =>
      match hc : closing ']' rest with
      | some rest =>
        have := length_closing_lt hc
        have : (skipSpace s).length = r.length + 1 := by rw [h]; rfl
        (inner.suffixes (.index base at_) rest).relax (by omega)
      | none => .value base s (Nat.lt_succ_self _)
    | .noMatch => .value base s (Nat.lt_succ_self _)
    | .tooDeep => .tooDeep
  | '.' :: r =>
    have hr := length_skipSpace_le r
    match hi : identifier (skipSpace r) with
    | some (field, rest) =>
      have := length_identifier_lt hi
      have : (skipSpace s).length = r.length + 1 := by rw [h]; rfl
      (inner.suffixes (.member base field) rest).relax (by omega)
    | none => .value base s (Nat.lt_succ_self _)
  | _ => .value base s (Nat.lt_succ_self _)

def callOrIdent (inner : Level) : Parser Expr := fun s =>
  match hi : identifier s with
  | none => .noMatch
  | some (name, rest) =>
    have := length_identifier_lt hi
    match hp : skipSpace rest with
    | '(' :: r =>
      have h1 := length_skipSpace_le rest
      have h2 := length_skipSpace_le r
      have h3 : (skipSpace rest).length = r.length + 1 := by rw [hp]; rfl
      match inner.arguments (skipSpace r) with
      | .value es afterArguments shorter =>
        match hc : closing ')' afterArguments with
        | some final =>
          have := length_closing_lt hc
          .value (.call name es) final (by omega)
        | none => .value (.ident name) rest (by omega)
      | .noMatch => .value (.ident name) rest (by omega)
      | .tooDeep => .tooDeep
    | _ => .value (.ident name) rest (by omega)

def atom (inner : Level) : Parser Expr := fun s =>
  match h1 : Token.string s with
  | some (text, rest) => .value (.literal (.str text)) rest (length_string_lt h1)
  | none =>
  match h2 : integer s with
  | some (n, rest) => .value (.literal (.int n)) rest (length_integer_lt h2)
  | none =>
  match h3 : word "true" s with
  | some rest => .value (.literal (.bool true)) rest (length_word_lt (by decide) h3)
  | none =>
  match h4 : word "false" s with
  | some rest => .value (.literal (.bool false)) rest (length_word_lt (by decide) h4)
  | none =>
  match h5 : word "nil" s with
  | some rest => .value (.literal .nil) rest (length_word_lt (by decide) h5)
  | none => inner.callOrIdent s

def primaryAt (inner : Level) : Parser Expr
  | '(' :: r =>
    match inner.disjunction r with
    | .value e rest shorter =>
      match hc : closing ')' rest with
      | some final =>
        have := length_closing_lt hc
        .value e final (by simp only [List.length_cons]; omega)
      | none => .noMatch
    | .noMatch => .noMatch
    | .tooDeep => .tooDeep
  | '[' :: r =>
    match inner.arguments r with
    | .value es rest shorter =>
      match hc : closing ']' rest with
      | some final =>
        have := length_closing_lt hc
        .value (.list es) final (by simp only [List.length_cons]; omega)
      | none => .noMatch
    | .noMatch => .noMatch
    | .tooDeep => .tooDeep
  | s => inner.atom s

def primary (inner : Level) : Parser Expr := fun s =>
  match inner.primaryAt (skipSpace s) with
  | .value e rest shorter =>
    have h1 := length_skipSpace_le s
    have h2 := length_skipSpace_le rest
    .value e (skipSpace rest) (by omega)
  | .noMatch => .noMatch
  | .tooDeep => .tooDeep

def suffixed (inner : Level) : Parser Expr := fun s =>
  match inner.primary s with
  | .value e rest shorter => (inner.suffixesOver e rest).relax (by omega)
  | .noMatch => .noMatch
  | .tooDeep => .tooDeep

def negationOver (inner : Level) : Parser Expr := fun s =>
  match h : notSign (skipSpace s) with
  | none => inner.suffixed s
  | some r =>
    have h1 := length_notSign_lt h
    have h2 := length_skipSpace_le s
    have h3 := length_skipSpace_le r
    match inner.negation (skipSpace r) with
    | .value e rest shorter => .value (.negation e) rest (by omega)
    | .noMatch => inner.suffixed s
    | .tooDeep => .tooDeep

def comparisonOver (inner : Level) : Parser Expr := fun s =>
  match inner.negationOver s with
  | .value left rest shorter =>
    match h : Token.comparison (skipSpace rest) with
    | none => .value left rest shorter
    | some (op, r) =>
      have h1 := length_comparison_lt h
      have h2 := length_skipSpace_le rest
      have h3 := length_skipSpace_le r
      match inner.negationOver (skipSpace r) with
      | .value right final _ => .value (.compare op left right) final (by omega)
      | .noMatch => .value left rest shorter
      | .tooDeep => .tooDeep
  | .noMatch => .noMatch
  | .tooDeep => .tooDeep

def conjunctionOver (inner : Level) : Parser Expr := fun s =>
  (Parser.sequence .and inner.comparisonOver s).map (Parser.joined .conjunction)

def disjunctionOver (inner : Level) : Parser Expr := fun s =>
  (Parser.sequence .or inner.conjunctionOver s).map (Parser.joined .disjunction)

def around (inner : Level) : Level where
  disjunction := inner.disjunctionOver
  negation := inner.negationOver
  suffixes := inner.suffixesOver

end Level

/-- The readers of a level inside which `n - 1` further levels may open. -/
def level : Nat → Level
  | 0 => .beyond
  | n + 1 => (level n).around

/-- Why no expression begins at `s`, which begins with no blank. -/
def noTermAt (s : List Char) : SyntaxError :=
  match nameLike s with
  | some (name, _) =>
    if reservedWords.contains name then .reservedWord (String.ofList s)
    else .noTerm (String.ofList s)
  | none => .noTerm (String.ofList s)

def Expr.parse (source : String) : Except SyntaxError Expr :=
  let s := skipSpace source.toList
  match (level (maxNesting + 1)).disjunction s with
  | .tooDeep => .error .tooDeep
  | .noMatch => .error (noTermAt s)
  | .value e rest _ =>
    match skipSpace rest with
    | [] => .ok e
    | rest => .error (.leftOver (String.ofList rest))

end Rule
end Workplan
