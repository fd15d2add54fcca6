import Workplan.Proofs.Rule.Levels
import Workplan.Proofs.Rule.Printing

/-!
# What follows a part of a rule

The readers of tokens take what spells their symbol, and a reader that looks past a part finds out
from the next symbol whether the part goes on: a closing bracket or a comma ends every part, a sign
or an operator ends what binds more tightly than its own operands, and an opening bracket or a dot
ends what suffixes may follow. So a spelled text is taken apart in one way only.
-/

namespace Workplan
namespace Rule

open Token

variable {a : Symbol} {symbols front : List Symbol} {s r text next rest : List Char} {least : Nat}

/-! ## How symbols begin -/

inductive Symbol.Primary : Symbol → Prop where
  | openParen : Primary .openParen
  | openBracket : Primary .openBracket
  | literal (value : Literal) : Primary (.literal value)
  | name (name : String) : Primary (.name name)

theorem opens_digits {digits : List Char} {n : Nat} (h : IsDecimal digits n) : Opens digits := by
  cases digits with
  | nil => exact absurd rfl h.nonempty
  | cons c t => exact opens_of_class (h.digit c List.mem_cons_self) (by decide)

theorem opens_string {quote : Char} {t : List Char} (h : quote = '"' ∨ quote = '\'') :
    Opens (quote :: t) := by
  rcases h with rfl | rfl <;> exact ⟨_, _, rfl, by decide, by decide⟩

/-- What an operand begins with is neither a blank nor part of an operator. -/
theorem opens_of_spells (h : Spells a text next) (ha : a.Primary ∨ a = .not) : Opens text := by
  rcases ha with ha | rfl
  · cases ha with
    | openParen => cases h; exact ⟨_, _, rfl, by decide, by decide⟩
    | openBracket => cases h; exact ⟨_, _, rfl, by decide, by decide⟩
    | literal v =>
        cases h with
        | natural hdecimal => exact opens_digits hdecimal
        | string hquote => exact opens_string hquote
        | _ => exact ⟨_, _, rfl, by decide, by decide⟩
    | name name =>
        cases h with
        | name hname => exact opens_identifier hname
  · cases h <;> exact ⟨_, _, rfl, by decide, by decide⟩

/-- No symbol begins with a blank. -/
theorem skipSpace_of_spells (h : Spells a text next) (rest : List Char) :
    skipSpace (text ++ rest) = text ++ rest := by
  cases h with
  | natural hdecimal => exact ((opens_digits hdecimal).append rest).skipSpace_eq
  | string hquote => exact ((opens_string hquote).append rest).skipSpace_eq
  | name hname => exact ((opens_identifier hname).append rest).skipSpace_eq
  | _ => rfl

theorem skipSpace_blanks_append {blanks : List Char} (h : ∀ c ∈ blanks, IsBlank c)
    (s : List Char) : skipSpace (blanks ++ s) = skipSpace s :=
  List.dropWhile_append_of_pos fun c hc => isSpace_iff.mpr (h c hc)

/-! ## Readers of tokens take what is spelled -/

theorem notSign_of_spells (h : Spells .not text next) : notSign (text ++ next) = some next := by
  cases h with
  | notSign hnext =>
      show notSign ('!' :: next) = some next
      unfold notSign
      split
      · next heq => simp [(List.cons.inj heq).2] at hnext
      · next heq => rw [(List.cons.inj heq).2]
      · next hnot => exact absurd rfl (hnot next)
  | notWord hends => exact word_eq_some_iff.mpr ⟨rfl, hends⟩

theorem notSign_of_primary (h : Spells a text next) (ha : a.Primary) :
    notSign (text ++ next) = none := by
  cases ha with
  | openParen => cases h; rfl
  | openBracket => cases h; rfl
  | literal v =>
      cases h with
      | natural hdecimal =>
          cases text with
          | nil => exact absurd rfl hdecimal.nonempty
          | cons c t =>
              have hdigit : c.isDigit = true := hdecimal.digit c List.mem_cons_self
              have hletter : 'n' ≠ c := (ne_of_class hdigit (by decide)).symm
              rw [List.cons_append, Expr.notSign_eq_word (ne_of_class hdigit (by decide))]
              simp [word, exactly, hletter]
      | string hquote => rcases hquote with rfl | rfl <;> rfl
      | _ => rfl
  | name name =>
      cases h with
      | name hname hends => exact Expr.notSign_identifier hname hends

theorem orSign_of_spells (h : Spells .or text next) : orSign (text ++ next) = some next := by
  cases h with
  | orSign => rfl
  | orWord hends => exact word_eq_some_iff.mpr ⟨rfl, hends⟩

theorem andSign_of_spells (h : Spells .and text next) : andSign (text ++ next) = some next := by
  cases h with
  | andSign => rfl
  | andWord hends => exact word_eq_some_iff.mpr ⟨rfl, hends⟩

theorem notInSign_of_spells {blanks : List Char} (hne : blanks ≠ [])
    (hblanks : ∀ c ∈ blanks, IsBlank c) (hends : WordEnds next) :
    notInSign ("not".toList ++ blanks ++ "in".toList ++ next) = some next := by
  cases blanks with
  | nil => exact absurd rfl hne
  | cons b blanks =>
      obtain ⟨hb, hblanks⟩ := List.forall_mem_cons.mp hblanks
      have hspace : isSpace b = true := isSpace_iff.mpr hb
      have hnot : word "not" ("not".toList ++ b :: (blanks ++ ("in".toList ++ next))) =
          some (b :: (blanks ++ ("in".toList ++ next))) := by
        refine word_eq_some_iff.mpr ⟨rfl, wordEnds_cons ?_⟩
        rcases hb with rfl | rfl | rfl | rfl <;> decide
      have hin : word "in" (skipSpace (blanks ++ ("in".toList ++ next))) = some next := by
        rw [skipSpace_blanks_append hblanks]
        exact word_eq_some_iff.mpr ⟨rfl, hends⟩
      have htext : "not".toList ++ b :: blanks ++ "in".toList ++ next =
          "not".toList ++ b :: (blanks ++ ("in".toList ++ next)) := by simp
      rw [htext]
      simp only [notInSign, hnot, hspace, if_true, hin]

/-- Only a word can be an operator where none of their signs begins. -/
theorem comparison_eq_word (hs : ∀ c ∈ ['=', '!', '<', '>'], s.head? ≠ some c) :
    Token.comparison s = match notInSign s with
      | some rest => some (.notIn, rest)
      | none => (word "in" s).map (.isIn, ·) := by
  unfold Token.comparison
  split
  case h_7 => rfl
  all_goals simp at hs

/-- `<` and `>` are taken where no `=` makes a longer operator of them. -/
theorem comparison_of_spells {op : Comparison} (h : Spells (.operator op) text next)
    (hnext : next.head? ≠ some '=') : Token.comparison (text ++ next) = some (op, next) := by
  cases h with
  | lt =>
      cases next with
      | nil => rfl
      | cons c t =>
          have hc : c ≠ '=' := by simpa using hnext
          show Token.comparison ('<' :: c :: t) = _
          simp [Token.comparison, hc]
  | gt =>
      cases next with
      | nil => rfl
      | cons c t =>
          have hc : c ≠ '=' := by simpa using hnext
          show Token.comparison ('>' :: c :: t) = _
          simp [Token.comparison, hc]
  | isIn hends =>
      rw [comparison_eq_word (by simp), word_eq_some_iff.mpr ⟨rfl, hends⟩]
      rfl
  | notIn hne hblanks hends =>
      rw [comparison_eq_word (by simp), notInSign_of_spells hne hblanks hends]
  | _ => rfl

theorem literal?_of_spells {v : Literal} (h : Spells (.literal v) text next)
    (hnext : ∀ c, next.head? = some c → c.isDigit = false) :
    literal? (text ++ next) = some (v, next) := by
  cases h with
  | nil hends => exact literal?_text .nil hends
  | true hends => exact literal?_text (.bool true) hends
  | false hends => exact literal?_text (.bool false) hends
  | natural hdecimal hvalue =>
      have hstring : Token.string (text ++ next) = none := by
        obtain ⟨c, t, rfl⟩ := List.exists_cons_of_ne_nil hdecimal.nonempty
        have hdigit : c.isDigit = true := hdecimal.digit c List.mem_cons_self
        exact string_eq_none (ne_of_class hdigit (by decide)) (ne_of_class hdigit (by decide))
      simp [literal?, hstring, integer_natural hdecimal hvalue hnext]
  | @negative digits _ _ _ hdecimal hvalue =>
      have hstring : Token.string ('-' :: (digits ++ next)) = none :=
        string_eq_none (by decide) (by decide)
      simp [literal?, hstring, integer_negative hdecimal hvalue hnext]
  | @string quote written _ value hquote hescaped =>
      have hbegins : Begins (.literal (.str value)) (quote :: (written ++ [quote]) ++ next) next :=
        ⟨_, rfl, .string hquote hescaped⟩
      simp only [literal?, string_eq_some_iff.mpr hbegins, Option.map_some, Option.some_or]

/-! ## Spelled texts taken apart -/

/-- Of what comes next it only matters whether it ends a word, and whether `=` stands there. -/
theorem Spells.of_next {other : List Char} (h : Spells a text next)
    (hword : WordEnds next → WordEnds other)
    (heq : next.head? ≠ some '=' → other.head? ≠ some '=') : Spells a text other := by
  cases h with
  | openParen => exact .openParen other
  | closeParen => exact .closeParen other
  | openBracket => exact .openBracket other
  | closeBracket => exact .closeBracket other
  | comma => exact .comma other
  | dot => exact .dot other
  | orSign => exact .orSign other
  | orWord hends => exact .orWord (hword hends)
  | andSign => exact .andSign other
  | andWord hends => exact .andWord (hword hends)
  | notSign hnext => exact .notSign (heq hnext)
  | notWord hends => exact .notWord (hword hends)
  | eq => exact .eq other
  | ne => exact .ne other
  | le => exact .le other
  | ge => exact .ge other
  | lt => exact .lt other
  | gt => exact .gt other
  | isIn hends => exact .isIn (hword hends)
  | notIn hne hblanks hends => exact .notIn hne hblanks (hword hends)
  | nil hends => exact .nil (hword hends)
  | true hends => exact .true (hword hends)
  | false hends => exact .false (hword hends)
  | natural hdecimal hvalue => exact .natural hdecimal hvalue
  | negative hdecimal hvalue => exact .negative hdecimal hvalue
  | string hquote hescaped => exact .string hquote hescaped
  | name hname hends => exact .name hname (hword hends)

namespace Spelled

/-- What is left over may be cut off. -/
theorem cut (h : Spelled symbols s rest) : ∃ p, s = p ++ rest ∧ Spelled symbols p [] := by
  induction h with
  | @done blanks rest hblanks =>
      have hdone : Spelled [] (blanks ++ []) [] := .done hblanks
      exact ⟨blanks, rfl, by rwa [List.append_nil] at hdone⟩
  | @symbol a symbols blanks text next rest hblanks hspells _ ih =>
      obtain ⟨p, rfl, hp⟩ := ih
      have hspells : Spells a text p := by
        cases p with
        | nil => exact hspells.of_next (fun _ => by simp [WordEnds]) (by simp)
        | cons c p => exact hspells.of_next id id
      exact ⟨blanks ++ (text ++ p), by simp, .symbol hblanks hspells hp⟩

/-- A whole text may be continued where no word and no sign goes on. -/
theorem extend (h : Spelled symbols s []) (hword : WordEnds r) (heq : r.head? ≠ some '=') :
    Spelled symbols (s ++ r) r := by
  generalize hnil : ([] : List Char) = rest at h
  induction h with
  | done hblanks =>
      subst hnil
      rw [List.append_nil]
      exact .done hblanks
  | @symbol a symbols blanks text next rest hblanks hspells _ ih =>
      have hspells : Spells a text (next ++ r) := by
        cases next with
        | nil => exact hspells.of_next (fun _ => hword) fun _ => heq
        | cons c next => exact hspells.of_next id id
      have hspelled := Spelled.symbol hblanks hspells (ih hnil)
      simpa using hspelled

/-- The first symbol is what a text begins with after its blanks. -/
theorem cons (h : Spelled (a :: symbols) s rest) :
    ∃ text next, Token.skipSpace s = text ++ next ∧ Spells a text next ∧
      Spelled symbols next rest := by
  cases h with
  | symbol hblanks hspells hnext =>
      refine ⟨_, _, ?_, hspells, hnext⟩
      rw [skipSpace_blanks_append hblanks, skipSpace_of_spells hspells]

/-- The symbols in front of another one are spelled up to where that one begins. -/
theorem append_cons (h : Spelled (front ++ a :: symbols) s rest) :
    ∃ text next, Spelled front s (text ++ next) ∧ Spells a text next ∧
      Spelled symbols next rest := by
  induction front generalizing s with
  | nil =>
      cases h with
      | symbol hblanks hspells hnext => exact ⟨_, _, .done hblanks, hspells, hnext⟩
  | cons b front ih =>
      cases h with
      | symbol hblanks hspells hnext =>
          obtain ⟨text, next, hfront, hspellsNext, hlater⟩ := ih hnext
          exact ⟨text, next, .symbol hblanks hspells hfront, hspellsNext, hlater⟩

/-- Blanks in front may be left out. -/
theorem trim (h : Spelled symbols s rest) (hrest : Token.skipSpace rest = rest) :
    Spelled symbols (Token.skipSpace s) rest := by
  cases h with
  | done hblanks =>
      rw [skipSpace_blanks_append hblanks, hrest]
      exact refl rest
  | symbol hblanks hspells hnext =>
      rw [skipSpace_blanks_append hblanks, skipSpace_of_spells hspells]
      have hnone : ∀ c ∈ ([] : List Char), IsBlank c := by simp
      exact .symbol hnone hspells hnext

theorem skipSpace_eq (h : Spelled [] s rest) (hrest : Token.skipSpace rest = rest) :
    Token.skipSpace s = rest := by
  cases h with
  | done hblanks => rw [skipSpace_blanks_append hblanks, hrest]

/-- What an operand begins with makes no longer operator of the one in front of it. -/
theorem head_ne_eq (h : Spelled (a :: symbols) s rest) (ha : a.Primary ∨ a = .not) :
    s.head? ≠ some '=' := by
  cases h with
  | @symbol _ _ blanks text next _ hblanks hspells _ =>
      cases blanks with
      | nil =>
          obtain ⟨c, t, rfl, -, hc⟩ := opens_of_spells hspells ha
          simpa using hc
      | cons b blanks =>
          have hb : IsBlank b := hblanks b List.mem_cons_self
          rcases hb with rfl | rfl | rfl | rfl <;> simp

end Spelled

/-! ## What ends a part -/

/-- What comes next, which begins with no blank, does not go on a part of rank `least`. -/
structure Stops (least : Nat) (next : List Char) : Prop where
  trimmed : skipSpace next = next
  digit : ∀ c, next.head? = some c → c.isDigit = false
  call : next.head? ≠ some '('
  suffix : least ≤ 3 → ∀ c ∈ ['[', '.'], next.head? ≠ some c
  comparison : least ≤ 2 → Token.comparison next = none
  and : least ≤ 1 → andSign next = none
  or : least = 0 → orSign next = none

/-- No digit stands where only blanks come before what ends a part. -/
theorem Stops.digit_of_spelled (h : Stops least rest) (hs : Spelled [] s rest) :
    ∀ c, s.head? = some c → c.isDigit = false := by
  cases hs with
  | @done blanks _ hblanks =>
      cases blanks with
      | nil => exact h.digit
      | cons b blanks =>
          intro c hc
          obtain rfl : b = c := by simpa using hc
          have hb : IsBlank b := hblanks b List.mem_cons_self
          rcases hb with rfl | rfl | rfl | rfl <;> decide

/-- The lowest rank of the parts that a symbol ends. -/
inductive Symbol.Ends : Symbol → Nat → Prop where
  | closeParen : Ends .closeParen 0
  | closeBracket : Ends .closeBracket 0
  | comma : Ends .comma 0
  | or : Ends .or 1
  | and : Ends .and 2
  | operator (op : Comparison) : Ends (.operator op) 3
  | openBracket : Ends .openBracket 4
  | dot : Ends .dot 4

theorem stops_nil : Stops 0 [] where
  trimmed := rfl
  digit := by simp
  call := by simp
  suffix := by simp
  comparison _ := rfl
  and _ := rfl
  or _ := rfl

theorem Stops.succ (h : Stops least next) : Stops (least + 1) next where
  trimmed := h.trimmed
  digit := h.digit
  call := h.call
  suffix hle := h.suffix (by omega)
  comparison hle := h.comparison (by omega)
  and hle := h.and (by omega)
  or hle := absurd hle (Nat.succ_ne_zero least)

/-- A part that suffixes may follow is gone on by nothing but a digit or a call. -/
theorem stops_four (htrimmed : skipSpace next = next)
    (hdigit : ∀ c, next.head? = some c → c.isDigit = false) (hcall : next.head? ≠ some '(') :
    Stops 4 next where
  trimmed := htrimmed
  digit := hdigit
  call := hcall
  suffix h := absurd h (by decide)
  comparison h := absurd h (by decide)
  and h := absurd h (by decide)
  or h := absurd h (by decide)

theorem stops_of_spells (ha : a.Ends least) (h : Spells a text next) :
    Stops least (text ++ next) := by
  have htrimmed := skipSpace_of_spells h next
  cases ha with
  | closeParen =>
      cases h
      exact ⟨htrimmed, by simp, by simp, by simp, fun _ => rfl, fun _ => rfl, fun _ => rfl⟩
  | closeBracket =>
      cases h
      exact ⟨htrimmed, by simp, by simp, by simp, fun _ => rfl, fun _ => rfl, fun _ => rfl⟩
  | comma =>
      cases h
      exact ⟨htrimmed, by simp, by simp, by simp, fun _ => rfl, fun _ => rfl, fun _ => rfl⟩
  | or =>
      cases h <;>
        exact ⟨htrimmed, by simp, by simp, by simp, fun _ => rfl, fun _ => rfl,
          fun h => absurd h (by decide)⟩
  | and =>
      cases h <;>
        exact ⟨htrimmed, by simp, by simp, by simp, fun _ => rfl, fun h => absurd h (by decide),
          fun h => absurd h (by decide)⟩
  | operator op =>
      cases h <;>
        exact ⟨htrimmed, by simp, by simp, by simp, fun h => absurd h (by decide),
          fun h => absurd h (by decide), fun h => absurd h (by decide)⟩
  | openBracket =>
      cases h
      exact stops_four htrimmed (by simp) (by simp)
  | dot =>
      cases h
      exact stops_four htrimmed (by simp) (by simp)

end Rule
end Workplan
