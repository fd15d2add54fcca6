import Workplan.Proofs.Rule.Reading
import Workplan.Proofs.Rule.Spelling

/-!
# Printing expressions

The text of an expression, with parentheses around a part exactly where the part binds less
tightly than its place asks for, and how deep the levels lie that the text opens.
-/

namespace Workplan
namespace Rule

open Token

/-- Between double quotes, `\` and `"` are escaped and all else stands for itself. -/
def escape : List Char → List Char
  | [] => []
  | c :: s => if c = '\\' ∨ c = '"' then '\\' :: c :: escape s else c :: escape s

def Literal.text : Literal → List Char
  | nil => "nil".toList
  | bool true => "true".toList
  | bool false => "false".toList
  | int n => (toString n.toInt).toList
  | str s => '"' :: (escape s.toList ++ ['"'])

/-- A part of a rank below `least` stands in parentheses. -/
def enclosed (least rank : Nat) (text : List Char) : List Char :=
  if rank < least then '(' :: (text ++ [')']) else text

/-- Parentheses put what they enclose one level deeper. -/
def lowered (least rank height : Nat) : Nat :=
  if rank < least then height + 1 else height

namespace Expr

/-- How tightly a node binds. What suffixes may follow binds tightest. -/
def rank : Expr → Nat
  | disjunction _ => 0
  | conjunction _ => 1
  | compare _ _ _ => 2
  | negation _ => 3
  | _ => 4

mutual

def text : Expr → List Char
  | literal value => value.text
  | ident name => name.toList
  | list items => '[' :: (", ".toList.intercalate (textAll 0 items) ++ [']'])
  | index base at_ => enclosed 4 base.rank (text base) ++ '[' :: (text at_ ++ [']'])
  | member base field => enclosed 4 base.rank (text base) ++ '.' :: field.toList
  | call function arguments =>
    function.toList ++ '(' :: (", ".toList.intercalate (textAll 0 arguments) ++ [')'])
  | negation operand => '!' :: enclosed 3 operand.rank (text operand)
  | compare op left right =>
    enclosed 3 left.rank (text left) ++
      ' ' :: (op.symbol.toList ++ ' ' :: enclosed 3 right.rank (text right))
  | conjunction terms => " && ".toList.intercalate (textAll 2 terms)
  | disjunction terms => " || ".toList.intercalate (textAll 1 terms)

def textAll (least : Nat) : List Expr → List (List Char)
  | [] => []
  | e :: rest => enclosed least e.rank (text e) :: textAll least rest

end

def print (e : Expr) : String :=
  String.ofList e.text

def suffixes : Expr → Nat
  | index base _ => suffixes base + 1
  | member base _ => suffixes base + 1
  | _ => 0

mutual

/--
How many levels the deepest one lies below the level of the expression itself. Parentheses, a
list, a call and a negation open one level; each suffix lies one level below the one before it.
-/
def height : Expr → Nat
  | literal _ => 0
  | ident _ => 0
  | list items => heightAll 0 items + 1
  | index base at_ =>
    max (lowered 4 base.rank (height base)) (base.suffixes + 1 + height at_)
  | member base _ => max (lowered 4 base.rank (height base)) (base.suffixes + 1)
  | call _ arguments => heightAll 0 arguments + 1
  | negation operand => lowered 3 operand.rank (height operand) + 1
  | compare _ left right =>
    max (lowered 3 left.rank (height left)) (lowered 3 right.rank (height right))
  | conjunction terms => heightAll 2 terms
  | disjunction terms => heightAll 1 terms

def heightAll (least : Nat) : List Expr → Nat
  | [] => 0
  | e :: rest => max (lowered least e.rank (height e)) (heightAll least rest)

end

/-- Every name is an identifier, and every chain of a logical operator has two terms or more. -/
inductive Printable : Expr → Prop where
  | literal (value : Literal) : Printable (.literal value)
  | ident {name : String} : IsIdentifier name → Printable (.ident name)
  | list {items : List Expr} : (∀ e ∈ items, Printable e) → Printable (.list items)
  | index {base at_ : Expr} : Printable base → Printable at_ → Printable (.index base at_)
  | member {base : Expr} {field : String} : Printable base → IsIdentifier field →
      Printable (.member base field)
  | call {function : String} {arguments : List Expr} : IsIdentifier function →
      (∀ e ∈ arguments, Printable e) → Printable (.call function arguments)
  | negation {operand : Expr} : Printable operand → Printable (.negation operand)
  | compare {left right : Expr} (op : Comparison) : Printable left → Printable right →
      Printable (.compare op left right)
  | conjunction {terms : List Expr} : 2 ≤ terms.length → (∀ e ∈ terms, Printable e) →
      Printable (.conjunction terms)
  | disjunction {terms : List Expr} : 2 ≤ terms.length → (∀ e ∈ terms, Printable e) →
      Printable (.disjunction terms)

def textIn (least : Nat) (e : Expr) : List Char :=
  enclosed least e.rank e.text

def heightIn (least : Nat) (e : Expr) : Nat :=
  lowered least e.rank e.height

variable {least m : Nat} {e : Expr}

theorem rank_le_four (e : Expr) : e.rank ≤ 4 := by
  cases e <;> simp [rank]

theorem textIn_of_le (h : least ≤ e.rank) : e.textIn least = e.text := by
  rw [textIn, enclosed, if_neg (Nat.not_lt.mpr h)]

theorem textIn_of_lt (h : e.rank < least) : e.textIn least = '(' :: (e.text ++ [')']) := by
  rw [textIn, enclosed, if_pos h]

theorem heightIn_of_le (h : least ≤ e.rank) : e.heightIn least = e.height := by
  rw [heightIn, lowered, if_neg (Nat.not_lt.mpr h)]

theorem heightIn_of_lt (h : e.rank < least) : e.heightIn least = e.height + 1 := by
  rw [heightIn, lowered, if_pos h]

theorem textIn_list (items : List Expr) :
    (list items).textIn 4 = '[' :: (", ".toList.intercalate (textAll 0 items) ++ [']']) := rfl

theorem textIn_index (base at_ : Expr) :
    (index base at_).textIn 4 = base.textIn 4 ++ '[' :: (at_.text ++ [']']) := rfl

theorem textIn_member (base : Expr) (field : String) :
    (member base field).textIn 4 = base.textIn 4 ++ '.' :: field.toList := rfl

theorem textIn_call (function : String) (arguments : List Expr) :
    (call function arguments).textIn 4 = function.toList ++
      '(' :: (", ".toList.intercalate (textAll 0 arguments) ++ [')']) := rfl

/-- Only an expression of the rank itself is told apart by the next rank. -/
theorem textIn_succ (h : e.rank ≠ least) : e.textIn (least + 1) = e.textIn least := by
  rcases Nat.lt_or_ge e.rank least with hlt | hge
  · rw [textIn_of_lt hlt, textIn_of_lt (Nat.lt_succ_of_lt hlt)]
  · rw [textIn_of_le hge, textIn_of_le (Nat.lt_of_le_of_ne hge h.symm)]

theorem heightIn_succ (h : e.rank ≠ least) : e.heightIn (least + 1) = e.heightIn least := by
  rcases Nat.lt_or_ge e.rank least with hlt | hge
  · rw [heightIn_of_lt hlt, heightIn_of_lt (Nat.lt_succ_of_lt hlt)]
  · rw [heightIn_of_le hge, heightIn_of_le (Nat.lt_of_le_of_ne hge h.symm)]

theorem textAll_eq (es : List Expr) : textAll least es = es.map (textIn least) := by
  induction es with
  | nil => rfl
  | cons e es ih => rw [textAll, ih, List.map_cons, textIn]

theorem heightAll_le_iff {es : List Expr} :
    heightAll least es ≤ m ↔ ∀ e ∈ es, e.heightIn least ≤ m := by
  induction es with
  | nil => simp [heightAll]
  | cons e es ih => rw [heightAll, Nat.max_le, ih, List.forall_mem_cons, heightIn]

theorem heightAll_lt_iff {es : List Expr} :
    heightAll least es < m ↔ 0 < m ∧ ∀ e ∈ es, e.heightIn least < m := by
  cases m with
  | zero => simp
  | succ m => simp only [Nat.lt_succ_iff, heightAll_le_iff, Nat.zero_le, true_and]

/-- Each suffix of a chain lies a level deeper. -/
theorem suffixes_le_heightIn (e : Expr) : e.suffixes ≤ e.heightIn 4 := by
  cases e with
  | index base at_ =>
      have hrank : 4 ≤ (index base at_).rank := le_rfl
      rw [heightIn_of_le hrank, height, suffixes]
      omega
  | member base field =>
      have hrank : 4 ≤ (member base field).rank := le_rfl
      rw [heightIn_of_le hrank, height, suffixes]
      omega
  | _ => exact Nat.zero_le _

end Expr

/-! ## Printed tokens -/

section Tokens

variable {c d : Char} {s rest : List Char} {name : String}

/-- A class of characters tells apart what is in it from what is not. -/
theorem ne_of_class {p : Char → Bool} (hc : p c = true) (hd : p d = false) : c ≠ d := by
  rintro rfl
  simp [hd] at hc

theorem wordEnds_nil : WordEnds [] := by
  simp [WordEnds]

theorem wordEnds_cons (h : isIdentChar c = false) : WordEnds (c :: s) := by
  intro d hd
  obtain rfl : c = d := by simpa using hd
  exact h

theorem escaped_escape (s : List Char) : Escaped '"' (escape s) s := by
  induction s with
  | nil => exact .nil
  | cons c s ih =>
      rw [escape]
      split
      · next h =>
        rcases h with rfl | rfl
        · exact .backslash ih
        · exact .quote ih
      · next h =>
        obtain ⟨hbackslash, hquote⟩ := not_or.mp h
        exact .plain hquote hbackslash ih

theorem exists_toDigits_cons (n : Nat) :
    ∃ c t, Nat.toDigits 10 n = c :: t ∧ c.isDigit = true := by
  cases h : Nat.toDigits 10 n with
  | nil => exact absurd h Nat.toDigits_ne_nil
  | cons c t =>
      have hc : c ∈ Nat.toDigits 10 n := h ▸ List.mem_cons_self
      exact ⟨c, t, rfl, Nat.isDigit_of_mem_toDigits (by decide) (by decide) hc⟩

theorem digitsValue_toDigits (n : Nat) : digitsValue (Nat.toDigits 10 n) = n := by
  have h : digitsValue (Nat.toDigits 10 n) = Nat.ofDigitChars 10 (Nat.toDigits 10 n) 0 :=
    Nat.ofDigitChars_eq_foldl.symm
  rw [h, Nat.ofDigitChars_ten_toDigits]

theorem isDecimal_toDigits (n : Nat) : IsDecimal (Nat.toDigits 10 n) n where
  nonempty := Nat.toDigits_ne_nil
  digit _ hc := Nat.isDigit_of_mem_toDigits (by decide) (by decide) hc
  value := (digitsValue_toDigits n).symm.trans (digitsValue_eq _)

/-- Where a word ends, a number ends as well. -/
theorem WordEnds.digit (h : WordEnds rest) : ∀ c, rest.head? = some c → c.isDigit = false := by
  intro c hc
  have hword := h c hc
  simp only [isIdentChar, Char.isAlphanum, Bool.or_eq_false_iff] at hword
  exact hword.1.2

/-- The digits of an integer, with a minus sign in front if it is negative. -/
theorem text_int (n : Int64) : (Literal.int n).text =
    if 0 ≤ n.toInt then Nat.toDigits 10 n.toInt.toNat
    else '-' :: Nat.toDigits 10 (-n.toInt).toNat := by
  have h : (Literal.int n).text = n.toInt.repr.toList := rfl
  rw [h, Int.repr_eq_if]
  split <;> simp [Nat.repr_eq_ofList_toDigits]

theorem string_eq_none (hdouble : c ≠ '"') (hsingle : c ≠ '\'') :
    Token.string (c :: s) = none := by
  simp [Token.string, hdouble, hsingle]

theorem integer_eq_none (hminus : c ≠ '-') (hdigit : c.isDigit = false) :
    integer (c :: s) = none := by
  unfold integer
  split
  · next heq => exact absurd (List.cons.inj heq).1 hminus
  · simp [digits, hdigit]

theorem string_int (n : Int64) : Token.string ((Literal.int n).text ++ rest) = none := by
  rw [text_int]
  split
  · obtain ⟨c, t, heq, hc⟩ := exists_toDigits_cons n.toInt.toNat
    rw [heq]
    exact string_eq_none (ne_of_class hc (by decide)) (ne_of_class hc (by decide))
  · exact string_eq_none (by decide) (by decide)

theorem integer_int (n : Int64) (hends : WordEnds rest) :
    integer ((Literal.int n).text ++ rest) = some (n, rest) := by
  rw [text_int]
  split
  · next h =>
    exact integer_natural (isDecimal_toDigits _) (Int.toNat_of_nonneg h).symm hends.digit
  · next h =>
    have hvalue : n.toInt = -((-n.toInt).toNat : Int) := by omega
    exact integer_negative (isDecimal_toDigits _) hvalue hends.digit

/-- The literal that is printed is the one that is read. -/
theorem literal?_text (v : Literal) (hends : WordEnds rest) :
    literal? (v.text ++ rest) = some (v, rest) := by
  cases v with
  | str s =>
      have hspells : Begins (.literal (.str s)) ((Literal.str s).text ++ rest) rest :=
        ⟨_, rfl, .string (.inl rfl) (escaped_escape s.toList)⟩
      simp [literal?, string_eq_some_iff.mpr hspells]
  | int n => simp [literal?, string_int, integer_int n hends]
  | bool b =>
      cases b with
      | true =>
          have hword : word "true" ("true".toList ++ rest) = some rest :=
            word_eq_some_iff.mpr ⟨rfl, hends⟩
          have hother : Token.string ("true".toList ++ rest) = none ∧
              integer ("true".toList ++ rest) = none := ⟨rfl, rfl⟩
          simp only [literal?, Literal.text, hother, hword, Option.map_none, Option.map_some,
            Option.none_or, Option.some_or]
      | false =>
          have hword : word "false" ("false".toList ++ rest) = some rest :=
            word_eq_some_iff.mpr ⟨rfl, hends⟩
          have hother : Token.string ("false".toList ++ rest) = none ∧
              integer ("false".toList ++ rest) = none ∧
              word "true" ("false".toList ++ rest) = none := ⟨rfl, rfl, rfl⟩
          simp only [literal?, Literal.text, hother, hword, Option.map_none, Option.map_some,
            Option.none_or, Option.some_or]
  | nil =>
      have hword : word "nil" ("nil".toList ++ rest) = some rest :=
        word_eq_some_iff.mpr ⟨rfl, hends⟩
      have hother : Token.string ("nil".toList ++ rest) = none ∧
          integer ("nil".toList ++ rest) = none ∧ word "true" ("nil".toList ++ rest) = none ∧
          word "false" ("nil".toList ++ rest) = none := ⟨rfl, rfl, rfl, rfl⟩
      simp only [literal?, Literal.text, hother, hword, Option.map_none, Option.map_some,
        Option.none_or]

/-- A reserved word has the shape of an identifier. -/
theorem reserved_shape {w : String} (hw : w ∈ reservedWords) :
    ∃ c later, w.toList = c :: later ∧ isIdentStart c = true ∧
      ∀ d ∈ later, isIdentChar d = true := by
  simp only [reservedWords, List.mem_cons, List.not_mem_nil, or_false] at hw
  rcases hw with rfl | rfl | rfl | rfl | rfl | rfl | rfl <;>
    exact ⟨_, _, rfl, by decide, List.all_eq_true.mp (by decide)⟩

/-- No reserved word is read where an identifier stands. -/
theorem word_identifier (h : IsIdentifier name) (hends : WordEnds rest) {w : String}
    (hw : w ∈ reservedWords) : word w (name.toList ++ rest) = none := by
  cases hword : word w (name.toList ++ rest) with
  | none => rfl
  | some r =>
      -- both would be the same maximal run of identifier characters
      obtain ⟨heq, hr⟩ := word_eq_some_iff.mp hword
      have hname := nameLike_eq_some_iff.mpr ⟨rfl, h.shape, hends⟩
      rw [nameLike_eq_some_iff.mpr ⟨heq, reserved_shape hw, hr⟩] at hname
      obtain ⟨rfl, -⟩ : w = name ∧ r = rest := by simpa using hname
      exact absurd hw h.free

theorem identifier_name (h : IsIdentifier name) (hends : WordEnds rest) :
    identifier (name.toList ++ rest) = some (name, rest) :=
  identifier_eq_some_iff.mpr ⟨_, rfl, .name h hends⟩

theorem isDigit_of_isIdentStart (h : isIdentStart c = true) : c.isDigit = false := by
  by_contra hdigit
  have hstart : (decide (65 ≤ c.val ∧ c.val ≤ 90) ||
      decide (97 ≤ c.val) && decide (c.val ≤ 122) || c == '_') = true := h
  simp only [Char.isDigit, Bool.or_eq_true, Bool.and_eq_true, Bool.not_eq_false, decide_eq_true_eq,
    beq_iff_eq] at hstart hdigit
  have hhigh : c.val.toNat ≤ 57 := UInt32.le_iff_toNat_le.mp hdigit.2
  rcases hstart with (⟨hlow, -⟩ | ⟨hlow, -⟩) | rfl
  · have hupper : 65 ≤ c.val.toNat := UInt32.le_iff_toNat_le.mp hlow
    omega
  · have hlower : 97 ≤ c.val.toNat := UInt32.le_iff_toNat_le.mp hlow
    omega
  · exact absurd hhigh (by decide)

/-- An identifier is no literal. -/
theorem literal?_identifier (h : IsIdentifier name) (hends : WordEnds rest) :
    literal? (name.toList ++ rest) = none := by
  obtain ⟨c, later, hname, hc, -⟩ := h.shape
  have hstring : Token.string (name.toList ++ rest) = none := by
    rw [hname]
    exact string_eq_none (ne_of_class hc (by decide)) (ne_of_class hc (by decide))
  have hinteger : integer (name.toList ++ rest) = none := by
    rw [hname]
    exact integer_eq_none (ne_of_class hc (by decide)) (isDigit_of_isIdentStart hc)
  have hword : ∀ w ∈ reservedWords, word w (name.toList ++ rest) = none :=
    fun w hw => word_identifier h hends hw
  rw [literal?, hstring, hinteger, hword "true" (by decide), hword "false" (by decide),
    hword "nil" (by decide)]
  rfl

end Tokens

/-! ## How texts begin -/

/-- A text begins with a character that is neither a blank nor `=`. -/
def Opens (s : List Char) : Prop :=
  ∃ c t, s = c :: t ∧ isSpace c = false ∧ c ≠ '='

namespace Opens

variable {s : List Char}

theorem append (h : Opens s) (t : List Char) : Opens (s ++ t) := by
  obtain ⟨c, u, rfl, hspace, hequals⟩ := h
  exact ⟨c, u ++ t, rfl, hspace, hequals⟩

theorem skipSpace_eq (h : Opens s) : skipSpace s = s := by
  obtain ⟨c, t, rfl, hspace, -⟩ := h
  simp [skipSpace, hspace]

theorem notSign_eq (h : Opens s) : notSign ('!' :: s) = some s := by
  obtain ⟨c, t, rfl, -, hequals⟩ := h
  unfold notSign
  split
  · next heq => exact absurd (List.cons.inj (List.cons.inj heq).2).1 hequals
  · next heq => rw [(List.cons.inj heq).2]
  · next hnot => exact absurd rfl (hnot _)

theorem enclosed (h : Opens s) (least rank : Nat) : Opens (enclosed least rank s) := by
  unfold Rule.enclosed
  split
  · exact ⟨'(', _, rfl, by decide, by decide⟩
  · exact h

end Opens

/-- A class of characters without the blanks and `=`. -/
theorem opens_of_class {p : Char → Bool} {c : Char} {t : List Char} (hc : p c = true)
    (hp : [' ', '\t', '\r', '\n', '='].any p = false) : Opens (c :: t) := by
  have hne : ∀ d ∈ [' ', '\t', '\r', '\n', '='], c ≠ d := by
    intro d hd
    exact ne_of_class hc (by simpa using List.any_eq_false.mp hp d hd)
  refine ⟨c, t, rfl, ?_, hne '=' (by decide)⟩
  by_contra hspace
  rcases isSpace_iff.mp (by simpa using hspace) with h | h | h | h <;>
    exact hne _ (by decide) h

theorem opens_identifier {name : String} (h : IsIdentifier name) : Opens name.toList := by
  obtain ⟨c, later, hname, hc, -⟩ := h.shape
  rw [hname]
  exact opens_of_class hc (by decide)

theorem opens_literal (v : Literal) : Opens v.text := by
  cases v with
  | nil => exact ⟨'n', _, rfl, by decide, by decide⟩
  | bool b =>
      cases b with
      | true => exact ⟨'t', _, rfl, by decide, by decide⟩
      | false => exact ⟨'f', _, rfl, by decide, by decide⟩
  | int n =>
      rw [text_int]
      split
      · obtain ⟨c, t, heq, hc⟩ := exists_toDigits_cons n.toInt.toNat
        rw [heq]
        exact opens_of_class hc (by decide)
      · exact ⟨'-', _, rfl, by decide, by decide⟩
  | str s => exact ⟨'"', _, rfl, by decide, by decide⟩

namespace Expr

theorem intercalate_map_cons {α : Type} (sign : List Char) (f : α → List Char) (a : α)
    (as : List α) :
    sign.intercalate ((a :: as).map f) = f a ++ as.flatMap fun b => sign ++ f b := by
  induction as generalizing a with
  | nil => simp
  | cons b bs ih =>
      have hcons : sign.intercalate ((a :: b :: bs).map f) =
          f a ++ (sign ++ sign.intercalate ((b :: bs).map f)) := by
        simp [List.intercalate_cons_cons]
      rw [hcons, ih, List.flatMap_cons, List.append_assoc]

/-- Where every term begins well, a chain of them does. -/
theorem opens_intercalate {least : Nat} (sign : List Char) {terms : List Expr}
    (hlength : 2 ≤ terms.length) (h : ∀ e ∈ terms, Opens e.text) :
    Opens (sign.intercalate (textAll least terms)) := by
  cases terms with
  | nil => simp at hlength
  | cons e es =>
      rw [textAll_eq, intercalate_map_cons]
      exact ((h e List.mem_cons_self).enclosed _ _).append _

theorem Printable.opens_text {e : Expr} (h : e.Printable) : Opens e.text := by
  induction h with
  | literal v => exact opens_literal v
  | ident hname => exact opens_identifier hname
  | list _ _ => exact ⟨'[', _, rfl, by decide, by decide⟩
  | index _ _ ih _ => exact (ih.enclosed _ _).append _
  | member _ _ ih => exact (ih.enclosed _ _).append _
  | call hname _ _ => exact (opens_identifier hname).append _
  | negation _ _ => exact ⟨'!', _, rfl, by decide, by decide⟩
  | compare op _ _ ih _ => exact (ih.enclosed _ _).append _
  | conjunction hlength _ ih => exact opens_intercalate _ hlength ih
  | disjunction hlength _ ih => exact opens_intercalate _ hlength ih

theorem Printable.opens_textIn {e : Expr} (h : e.Printable) (least : Nat) :
    Opens (e.textIn least) :=
  h.opens_text.enclosed least e.rank

theorem notSign_eq_word {c : Char} {s : List Char} (h : c ≠ '!') :
    notSign (c :: s) = word "not" (c :: s) := by
  unfold notSign
  split
  · next heq => exact absurd (List.cons.inj heq).1 h
  · next heq => exact absurd (List.cons.inj heq).1 h
  · rfl

theorem notSign_literal (v : Literal) (rest : List Char) : notSign (v.text ++ rest) = none := by
  cases v with
  | nil => rfl
  | bool b => cases b <;> rfl
  | int n =>
      rw [text_int]
      split
      · obtain ⟨c, t, heq, hc⟩ := exists_toDigits_cons n.toInt.toNat
        have hletter : 'n' ≠ c := (ne_of_class hc (by decide)).symm
        rw [heq, List.cons_append, notSign_eq_word (ne_of_class hc (by decide))]
        simp [word, exactly, hletter]
      · rfl
  | str s => rfl

theorem notSign_identifier {name : String} {rest : List Char} (h : IsIdentifier name)
    (hends : WordEnds rest) : notSign (name.toList ++ rest) = none := by
  have hword : word "not" (name.toList ++ rest) = none := word_identifier h hends (by decide)
  obtain ⟨c, later, hname, hc, -⟩ := h.shape
  rw [hname, List.cons_append] at hword ⊢
  rw [notSign_eq_word (ne_of_class hc (by decide)), hword]

/-- A part that suffixes may follow does not begin with the sign of a negation. -/
theorem Printable.notSign_textIn {e : Expr} (h : e.Printable) {rest : List Char}
    (hends : WordEnds rest) : notSign (e.textIn 4 ++ rest) = none := by
  induction h generalizing rest with
  | literal v => exact notSign_literal v rest
  | ident hname => exact notSign_identifier hname hends
  | list _ _ => rfl
  | @index base at_ _ _ ih _ =>
      have hnext : WordEnds ('[' :: (at_.text ++ [']']) ++ rest) := wordEnds_cons (by decide)
      rw [textIn_index, List.append_assoc]
      exact ih hnext
  | @member base field _ _ ih =>
      have hnext : WordEnds ('.' :: field.toList ++ rest) := wordEnds_cons (by decide)
      rw [textIn_member, List.append_assoc]
      exact ih hnext
  | @call function arguments hname _ _ =>
      have hnext : WordEnds
          ('(' :: (", ".toList.intercalate (textAll 0 arguments) ++ [')']) ++ rest) :=
        wordEnds_cons (by decide)
      rw [textIn_call, List.append_assoc]
      exact notSign_identifier hname hnext
  | negation _ _ => rfl
  | compare op _ _ _ _ => rfl
  | conjunction _ _ _ => rfl
  | disjunction _ _ _ => rfl

end Expr
end Rule
end Workplan
