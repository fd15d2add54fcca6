import Workplan.Rule.Token
import Mathlib.Data.List.Induction
import Mathlib.Data.Nat.Digits.Defs

/-!
# How symbols are spelled

The terminal symbols of the rule language, and which texts spell each of them. Whether a text
spells a symbol can depend on what comes next: a word is not cut out of a longer one, and `!` is
not cut out of `!=`. The readers of tokens take exactly what is spelled here.
-/

namespace Workplan
namespace Rule

open Token

inductive Symbol where
  | openParen
  | closeParen
  | openBracket
  | closeBracket
  | comma
  | dot
  | or
  | and
  | not
  | operator (op : Comparison)
  | literal (value : Literal)
  | name (name : String)

/-- Space, tab, carriage return and line feed. -/
def IsBlank (c : Char) : Prop :=
  c = ' ' ∨ c = '\t' ∨ c = '\r' ∨ c = '\n'

/-- A word ends here: no identifier character comes next. -/
def WordEnds (next : List Char) : Prop :=
  ∀ c, next.head? = some c → isIdentChar c = false

/-- An identifier begins with a letter or `_`, goes on with letters, digits and `_`, and is no
reserved word. -/
structure IsIdentifier (name : String) : Prop where
  shape : ∃ c later, name.toList = c :: later ∧ isIdentStart c = true ∧
    ∀ d ∈ later, isIdentChar d = true
  free : name ∉ reservedWords

/-- `written` denotes `meant` between two `quote` characters. -/
inductive Escaped (quote : Char) : (written meant : List Char) → Prop where
  | nil : Escaped quote [] []
  | plain {c : Char} {written meant : List Char} : c ≠ quote → c ≠ '\\' →
      Escaped quote written meant → Escaped quote (c :: written) (c :: meant)
  | backslash {written meant : List Char} : Escaped quote written meant →
      Escaped quote ('\\' :: '\\' :: written) ('\\' :: meant)
  | quote {written meant : List Char} : Escaped quote written meant →
      Escaped quote ('\\' :: quote :: written) (quote :: meant)
  | newline {written meant : List Char} : Escaped quote written meant →
      Escaped quote ('\\' :: 'n' :: written) ('\n' :: meant)
  | tab {written meant : List Char} : Escaped quote written meant →
      Escaped quote ('\\' :: 't' :: written) ('\t' :: meant)

/-- At least one decimal digit, all of them together denoting `n`. -/
structure IsDecimal (digits : List Char) (n : Nat) : Prop where
  nonempty : digits ≠ []
  digit : ∀ c ∈ digits, c.isDigit = true
  value : n = Nat.ofDigits 10 (digits.reverse.map fun c => c.toNat - '0'.toNat)

/-- `text` spells a symbol where `next` comes next. -/
inductive Spells : Symbol → (text next : List Char) → Prop where
  | openParen (next : List Char) : Spells .openParen ['('] next
  | closeParen (next : List Char) : Spells .closeParen [')'] next
  | openBracket (next : List Char) : Spells .openBracket ['['] next
  | closeBracket (next : List Char) : Spells .closeBracket [']'] next
  | comma (next : List Char) : Spells .comma [','] next
  | dot (next : List Char) : Spells .dot ['.'] next
  | orSign (next : List Char) : Spells .or ['|', '|'] next
  | orWord {next : List Char} : WordEnds next → Spells .or "or".toList next
  | andSign (next : List Char) : Spells .and ['&', '&'] next
  | andWord {next : List Char} : WordEnds next → Spells .and "and".toList next
  | notSign {next : List Char} : next.head? ≠ some '=' → Spells .not ['!'] next
  | notWord {next : List Char} : WordEnds next → Spells .not "not".toList next
  | eq (next : List Char) : Spells (.operator .eq) ['=', '='] next
  | ne (next : List Char) : Spells (.operator .ne) ['!', '='] next
  | le (next : List Char) : Spells (.operator .le) ['<', '='] next
  | ge (next : List Char) : Spells (.operator .ge) ['>', '='] next
  | lt (next : List Char) : Spells (.operator .lt) ['<'] next
  | gt (next : List Char) : Spells (.operator .gt) ['>'] next
  | isIn {next : List Char} : WordEnds next → Spells (.operator .isIn) "in".toList next
  | notIn {blanks next : List Char} : blanks ≠ [] → (∀ c ∈ blanks, IsBlank c) → WordEnds next →
      Spells (.operator .notIn) ("not".toList ++ blanks ++ "in".toList) next
  | nil {next : List Char} : WordEnds next → Spells (.literal .nil) "nil".toList next
  | true {next : List Char} : WordEnds next →
      Spells (.literal (.bool true)) "true".toList next
  | false {next : List Char} : WordEnds next →
      Spells (.literal (.bool false)) "false".toList next
  | natural {digits next : List Char} {value : Nat} {n : Int64} : IsDecimal digits value →
      n.toInt = value → Spells (.literal (.int n)) digits next
  | negative {digits next : List Char} {value : Nat} {n : Int64} : IsDecimal digits value →
      n.toInt = -value → Spells (.literal (.int n)) ('-' :: digits) next
  | string {quote : Char} {written next : List Char} {text : String} :
      quote = '"' ∨ quote = '\'' → Escaped quote written text.toList →
      Spells (.literal (.str text)) (quote :: (written ++ [quote])) next
  | name {name : String} {next : List Char} : IsIdentifier name → WordEnds next →
      Spells (.name name) name.toList next

def Begins (a : Symbol) (s rest : List Char) : Prop :=
  ∃ text, s = text ++ rest ∧ Spells a text rest

namespace Token

variable {s rest ds : List Char} {w name : String}

/-! ## Runs of characters -/

/-- A run that is taken is maximal: the next character does not belong to it. -/
theorem takeWhile_dropWhile_iff {p : Char → Bool} {run : List Char} :
    s.takeWhile p = run ∧ s.dropWhile p = rest ↔
      s = run ++ rest ∧ (∀ c ∈ run, p c = true) ∧ ∀ c, rest.head? = some c → p c = false := by
  constructor
  · intro h
    obtain ⟨rfl, rfl⟩ := h
    refine ⟨List.takeWhile_append_dropWhile.symm, List.all_eq_true.mp List.all_takeWhile, ?_⟩
    intro c hc
    have hhead := List.head?_dropWhile_not p s
    rw [hc] at hhead
    simpa using hhead
  · intro h
    obtain ⟨rfl, hrun, hrest⟩ := h
    have hstop : rest.takeWhile p = [] ∧ rest.dropWhile p = rest := by
      cases rest with
      | nil => exact ⟨rfl, rfl⟩
      | cons c rest => simp [hrest c rfl]
    rw [List.takeWhile_append_of_pos hrun, List.dropWhile_append_of_pos hrun, hstop.1, hstop.2]
    exact ⟨List.append_nil _, rfl⟩

theorem isSpace_iff {c : Char} : isSpace c = true ↔ IsBlank c := by
  simp [isSpace, IsBlank, or_assoc]

/-- Skipping takes blanks, and all that stand there. -/
theorem exists_blanks (s : List Char) :
    ∃ blanks, s = blanks ++ skipSpace s ∧ ∀ c ∈ blanks, IsBlank c := by
  have hrun : s.takeWhile isSpace = s.takeWhile isSpace ∧ s.dropWhile isSpace = skipSpace s :=
    ⟨rfl, rfl⟩
  obtain ⟨hsplit, hblank, -⟩ := takeWhile_dropWhile_iff.mp hrun
  exact ⟨_, hsplit, fun c hc => isSpace_iff.mp (hblank c hc)⟩

/-! ## Words -/

theorem exactly_eq_some_iff {tag : List Char} : exactly tag s = some rest ↔ s = tag ++ rest := by
  induction tag generalizing s with
  | nil => simp [exactly]
  | cons t tag ih =>
      cases s with
      | nil => simp [exactly]
      | cons c s => by_cases htc : t = c <;> simp [exactly, htc, ih, eq_comm]

theorem word_eq_some_iff : word w s = some rest ↔ s = w.toList ++ rest ∧ WordEnds rest := by
  constructor
  · intro h
    unfold word at h
    split at h
    · next c r heq =>
      split at h
      · cases h
      · next hc =>
        obtain rfl := Option.some.inj h
        refine ⟨exactly_eq_some_iff.mp heq, fun d hd => ?_⟩
        obtain rfl : c = d := by simpa using hd
        simpa using hc
    · next hnot =>
      refine ⟨exactly_eq_some_iff.mp h, fun d hd => ?_⟩
      cases rest with
      | nil => cases hd
      | cons c r => exact absurd h (hnot c r)
  · intro h
    obtain ⟨hs, hends⟩ := h
    rw [word, exactly_eq_some_iff.mpr hs]
    cases rest with
    | nil => rfl
    | cons c r => simp [hends c rfl]

theorem nameLike_eq_some_iff :
    nameLike s = some (name, rest) ↔ s = name.toList ++ rest ∧
      (∃ c later, name.toList = c :: later ∧ isIdentStart c = true ∧
        ∀ d ∈ later, isIdentChar d = true) ∧ WordEnds rest := by
  cases s with
  | nil =>
      simp only [nameLike, reduceCtorEq, false_iff]
      intro h
      obtain ⟨heq, ⟨c, later, hname, -⟩, -⟩ := h
      simp [hname] at heq
  | cons c s =>
      simp only [nameLike, Option.ite_none_right_eq_some, Option.some.injEq, Prod.mk.injEq]
      constructor
      · intro h
        obtain ⟨hc, rfl, hrest⟩ := h
        obtain ⟨hsplit, hrun, hends⟩ := takeWhile_dropWhile_iff.mp ⟨rfl, hrest⟩
        refine ⟨?_, ⟨c, _, String.toList_ofList, hc, hrun⟩, hends⟩
        rw [String.toList_ofList, List.cons_append, ← hsplit]
      · intro h
        obtain ⟨heq, ⟨d, later, hname, hd, hlater⟩, hends⟩ := h
        rw [hname, List.cons_append] at heq
        obtain ⟨rfl, rfl⟩ := List.cons.inj heq
        obtain ⟨htake, hdrop⟩ := takeWhile_dropWhile_iff.mpr ⟨rfl, hlater, hends⟩
        exact ⟨hd, by rw [htake, ← hname, String.ofList_toList], hdrop⟩

theorem identifier_eq_some_iff :
    identifier s = some (name, rest) ↔ Begins (.name name) s rest := by
  have hname : identifier s = some (name, rest) ↔
      nameLike s = some (name, rest) ∧ name ∉ reservedWords := by
    unfold identifier
    cases nameLike s with
    | none => simp
    | some x =>
        obtain ⟨other, r⟩ := x
        by_cases hother : other ∈ reservedWords
        · simp only [List.contains_iff_mem, hother, if_true, reduceCtorEq, false_iff]
          intro h
          obtain ⟨heq, hfree⟩ := h
          obtain ⟨rfl, -⟩ : other = name ∧ r = rest := by simpa using heq
          exact hfree hother
        · simp only [List.contains_iff_mem, hother, if_false, Option.some.injEq, Prod.mk.injEq,
            iff_self_and]
          intro h
          exact h.1 ▸ hother
  rw [hname, nameLike_eq_some_iff]
  constructor
  · intro h
    obtain ⟨⟨hs, hshape, hends⟩, hfree⟩ := h
    exact ⟨name.toList, hs, .name ⟨hshape, hfree⟩ hends⟩
  · intro h
    obtain ⟨text, hs, hspells⟩ := h
    cases hspells with
    | name hidentifier hends => exact ⟨⟨hs, hidentifier.shape, hends⟩, hidentifier.free⟩

/-! ## Strings -/

theorem stringContent_sound {quote : Char} {acc content : List Char}
    (h : stringContent quote s acc = some (content, rest)) :
    ∃ written meant, s = written ++ quote :: rest ∧ content = acc.reverse ++ meant ∧
      Escaped quote written meant := by
  fun_induction stringContent quote s acc with
  | case1 => cases h
  | case2 c s acc u hu ih =>
      obtain ⟨written, meant, rfl, rfl, hescaped⟩ := ih h
      refine ⟨'\\' :: c :: written, u :: meant, rfl, by simp, ?_⟩
      unfold unescape at hu
      split at hu
      · next hc =>
        subst hc
        obtain rfl := Option.some.inj hu
        exact .backslash hescaped
      · split at hu
        · next hc =>
          subst hc
          obtain rfl := Option.some.inj hu
          exact .quote hescaped
        · split at hu
          · next hc =>
            subst hc
            obtain rfl := Option.some.inj hu
            exact .newline hescaped
          · next hnewline =>
            obtain ⟨rfl, rfl⟩ : c = 't' ∧ '\t' = u := by simpa using hu
            exact .tab hescaped
  | case3 => cases h
  | case4 s acc =>
      obtain ⟨rfl, rfl⟩ : acc.reverse = content ∧ s = rest := by simpa using h
      exact ⟨[], [], rfl, by simp, .nil⟩
  | case5 => cases h
  | case6 c s acc _ hquote hbackslash ih =>
      obtain ⟨written, meant, rfl, rfl, hescaped⟩ := ih h
      exact ⟨c :: written, c :: meant, rfl, by simp, .plain hquote hbackslash hescaped⟩

theorem stringContent_complete {quote : Char} {written meant : List Char}
    (hquote : quote = '"' ∨ quote = '\'') (h : Escaped quote written meant) (acc : List Char) :
    stringContent quote (written ++ quote :: rest) acc = some (acc.reverse ++ meant, rest) := by
  have hbackslash : quote ≠ '\\' := by
    rcases hquote with rfl | rfl <;> decide
  induction h generalizing acc with
  | nil => simp [stringContent, hbackslash]
  | plain hc hcb _ ih => simp [stringContent, hc, hcb, ih]
  | backslash _ ih => simp [stringContent, unescape, ih]
  | quote _ ih => simp [stringContent, unescape, hbackslash, ih]
  | newline _ ih =>
      have hn : 'n' ≠ quote := by rcases hquote with rfl | rfl <;> decide
      simp [stringContent, unescape, hn, ih]
  | tab _ ih =>
      have ht : 't' ≠ quote := by rcases hquote with rfl | rfl <;> decide
      simp [stringContent, unescape, ht, ih]

theorem string_eq_some_iff {text : String} :
    Token.string s = some (text, rest) ↔ Begins (.literal (.str text)) s rest := by
  constructor
  · intro h
    cases s with
    | nil => cases h
    | cons c s =>
        simp only [Token.string, Option.ite_none_right_eq_some, Option.map_eq_some_iff,
          Bool.or_eq_true, decide_eq_true_eq, Prod.mk.injEq, Prod.exists] at h
        obtain ⟨hquote, content, r, hcontent, rfl, rfl⟩ := h
        obtain ⟨written, meant, rfl, rfl, hescaped⟩ := stringContent_sound hcontent
        refine ⟨c :: (written ++ [c]), by simp, .string hquote ?_⟩
        simpa using hescaped
  · intro h
    obtain ⟨written, rfl, hspells⟩ := h
    cases hspells with
    | string hquote hescaped =>
        simp [Token.string, hquote, stringContent_complete hquote hescaped []]

/-! ## Integers -/

theorem digits_eq_some_iff :
    digits s = some (ds, rest) ↔ s = ds ++ rest ∧ ds ≠ [] ∧ (∀ c ∈ ds, c.isDigit = true) ∧
      ∀ c, rest.head? = some c → c.isDigit = false := by
  unfold digits
  constructor
  · intro h
    split at h
    · cases h
    · next hne =>
      obtain ⟨htake, hdrop⟩ := Prod.mk.inj (Option.some.inj h)
      obtain ⟨hs, hds, hrest⟩ := takeWhile_dropWhile_iff.mp ⟨htake, hdrop⟩
      exact ⟨hs, htake ▸ hne, hds, hrest⟩
  · intro h
    obtain ⟨hs, hne, hds, hrest⟩ := h
    obtain ⟨htake, hdrop⟩ := takeWhile_dropWhile_iff.mpr ⟨hs, hds, hrest⟩
    rw [htake, hdrop]
    cases ds with
    | nil => exact absurd rfl hne
    | cons c ds => rfl

theorem digitsValue_eq (ds : List Char) :
    digitsValue ds = Nat.ofDigits 10 (ds.reverse.map fun c => c.toNat - '0'.toNat) := by
  induction ds using List.reverseRecOn with
  | nil => rfl
  | append_singleton ds c ih =>
      rw [digitsValue, List.foldl_append, ← digitsValue, ih]
      simp [Nat.ofDigits_cons, Nat.add_comm]

theorem isDecimal_of_digits (h : digits s = some (ds, rest)) :
    s = ds ++ rest ∧ IsDecimal ds (digitsValue ds) := by
  obtain ⟨hs, hne, hds, -⟩ := digits_eq_some_iff.mp h
  exact ⟨hs, hne, hds, digitsValue_eq ds⟩

theorem int64?_eq_some_iff {n : Int} {m : Int64} : int64? n = some m ↔ m.toInt = n := by
  unfold int64?
  constructor
  · intro h
    obtain ⟨⟨hlow, hhigh⟩, rfl⟩ : (_ ∧ _) ∧ Int64.ofInt n = m := by simpa using h
    exact Int64.toInt_ofInt_of_le hlow hhigh
  · intro h
    subst h
    rw [if_pos ⟨m.le_toInt, m.toInt_lt⟩, Int64.ofInt_toInt]

theorem digits_decimal {value : Nat} (h : IsDecimal ds value)
    (hrest : ∀ c, rest.head? = some c → c.isDigit = false) :
    digits (ds ++ rest) = some (ds, rest) ∧ digitsValue ds = value :=
  ⟨digits_eq_some_iff.mpr ⟨rfl, h.nonempty, h.digit, hrest⟩, (digitsValue_eq ds).trans h.value.symm⟩

/-- A number is taken with all its digits. -/
theorem integer_natural {value : Nat} {n : Int64} (h : IsDecimal ds value) (hn : n.toInt = value)
    (hrest : ∀ c, rest.head? = some c → c.isDigit = false) :
    integer (ds ++ rest) = some (n, rest) := by
  obtain ⟨hdigits, hvalue⟩ := digits_decimal h hrest
  unfold integer
  split
  · next hminus =>
    cases ds with
    | nil => exact absurd rfl h.nonempty
    | cons c t =>
        obtain rfl : c = '-' := (List.cons.inj hminus).1
        exact absurd (h.digit '-' List.mem_cons_self) (by decide)
  · simp only [hdigits, hvalue, int64?_eq_some_iff.mpr hn, Option.map_some]

theorem integer_negative {value : Nat} {n : Int64} (h : IsDecimal ds value)
    (hn : n.toInt = -value) (hrest : ∀ c, rest.head? = some c → c.isDigit = false) :
    integer ('-' :: (ds ++ rest)) = some (n, rest) := by
  obtain ⟨hdigits, hvalue⟩ := digits_decimal h hrest
  simp only [integer, hdigits, hvalue, int64?_eq_some_iff.mpr hn, Option.map_some]

theorem begins_of_integer {n : Int64} (h : integer s = some (n, rest)) :
    Begins (.literal (.int n)) s rest := by
  unfold integer at h
  split at h
  · split at h
    · next ds r hds =>
      obtain ⟨rfl, hdecimal⟩ := isDecimal_of_digits hds
      obtain ⟨m, hm, heq⟩ := Option.map_eq_some_iff.mp h
      obtain ⟨rfl, rfl⟩ := Prod.mk.inj heq
      exact ⟨_, rfl, .negative hdecimal (int64?_eq_some_iff.mp hm)⟩
    · cases h
  · split at h
    · next ds r hds =>
      obtain ⟨rfl, hdecimal⟩ := isDecimal_of_digits hds
      obtain ⟨m, hm, heq⟩ := Option.map_eq_some_iff.mp h
      obtain ⟨rfl, rfl⟩ := Prod.mk.inj heq
      exact ⟨_, rfl, .natural hdecimal (int64?_eq_some_iff.mp hm)⟩
    · cases h

/-! ## Operators -/

theorem begins_of_orSign (h : orSign s = some rest) : Begins .or s rest := by
  rw [orSign, Option.orElse_eq_or, Option.or_eq_some_iff] at h
  rcases h with hsign | ⟨-, hword⟩
  · exact ⟨_, exactly_eq_some_iff.mp hsign, .orSign rest⟩
  · obtain ⟨hs, hends⟩ := word_eq_some_iff.mp hword
    exact ⟨_, hs, .orWord hends⟩

theorem begins_of_andSign (h : andSign s = some rest) : Begins .and s rest := by
  rw [andSign, Option.orElse_eq_or, Option.or_eq_some_iff] at h
  rcases h with hsign | ⟨-, hword⟩
  · exact ⟨_, exactly_eq_some_iff.mp hsign, .andSign rest⟩
  · obtain ⟨hs, hends⟩ := word_eq_some_iff.mp hword
    exact ⟨_, hs, .andWord hends⟩

theorem begins_of_notSign (h : notSign s = some rest) : Begins .not s rest := by
  unfold notSign at h
  split at h
  · cases h
  · next r hr =>
    obtain rfl := Option.some.inj h
    refine ⟨['!'], rfl, .notSign fun heq => ?_⟩
    obtain ⟨later, rfl⟩ := List.head?_eq_some_iff.mp heq
    exact hr later rfl
  · obtain ⟨hs, hends⟩ := word_eq_some_iff.mp h
    exact ⟨_, hs, .notWord hends⟩

theorem begins_of_notInSign (h : notInSign s = some rest) :
    Begins (.operator .notIn) s rest := by
  unfold notInSign at h
  split at h
  · next c r hnot =>
    obtain ⟨hs, -⟩ := word_eq_some_iff.mp hnot
    simp only [Option.ite_none_right_eq_some] at h
    obtain ⟨hin, hends⟩ := word_eq_some_iff.mp h.2
    obtain ⟨blanks, hr, hblanks⟩ := exists_blanks r
    refine ⟨_, ?_, .notIn (List.cons_ne_nil c blanks) ?_ hends⟩
    · rw [hs, hr, hin]
      simp
    · intro d hd
      rcases List.mem_cons.mp hd with rfl | hd
      · exact isSpace_iff.mp h.1
      · exact hblanks d hd
  · cases h

theorem begins_of_comparison {op : Comparison} (h : Token.comparison s = some (op, rest)) :
    Begins (.operator op) s rest := by
  unfold Token.comparison at h
  split at h
  case h_7 =>
    split at h
    · next hnotIn =>
      obtain ⟨rfl, rfl⟩ := Prod.mk.inj (Option.some.inj h)
      exact begins_of_notInSign hnotIn
    · obtain ⟨r, hin, heq⟩ := Option.map_eq_some_iff.mp h
      obtain ⟨rfl, rfl⟩ := Prod.mk.inj heq
      obtain ⟨hs, hends⟩ := word_eq_some_iff.mp hin
      exact ⟨_, hs, .isIn hends⟩
  all_goals obtain ⟨rfl, rfl⟩ := Prod.mk.inj (Option.some.inj h)
  · exact ⟨_, rfl, .eq _⟩
  · exact ⟨_, rfl, .ne _⟩
  · exact ⟨_, rfl, .le _⟩
  · exact ⟨_, rfl, .ge _⟩
  · exact ⟨_, rfl, .lt _⟩
  · exact ⟨_, rfl, .gt _⟩

end Token
end Rule
end Workplan
