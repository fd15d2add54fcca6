import Workplan.Proofs.Rule.Wrapping
import Workplan.Proofs.Text.Quoted
import Workplan.Rule.Value

/-!
# Quoted texts in rules

A listing quotes a text with more escapes than the rule language has. So a quoted text is read
back as the text exactly if none of its characters takes one of the other escapes. In a text that
spells symbols every string that begins also ends, so one such character anywhere spoils the whole
text.
-/

namespace Workplan

namespace Text

/-- A listing shows the character as `\r`, as `\0`, or by its hexadecimal number. -/
def Inexpressible (c : Char) : Prop :=
  quoteChar c = ['\\', 'r'] ∨ quoteChar c = ['\\', '0'] ∨
    ∃ digits, quoteChar c = ['\\', 'u', '{'] ++ digits ++ ['}']

end Text

namespace Rule

open Token

/-! ## Reading what was quoted -/

section Quoted

variable {c : Char} {s t : List Char}

/-- A character is shown by an escape that rules know, as it is, or by one they do not know. -/
theorem quoteChar_cases (c : Char) :
    (∃ d, Text.quoteChar c = ['\\', d] ∧ unescape '"' d = some c) ∨
      (Text.quoteChar c = [c] ∧ c ≠ '"' ∧ c ≠ '\\') ∨ Text.Inexpressible c := by
  rcases Text.quoteChar_shown c with ⟨d, hmem, hshown⟩ | hshown | hplain
  · have hall : ∀ x ∈ Text.shortEscapes, unescape '"' x.2 = some x.1 ∨ x.2 = 'r' ∨ x.2 = '0' := by
      decide
    rcases hall _ hmem with hescape | rfl | rfl
    · exact .inl ⟨d, hshown, hescape⟩
    · exact .inr (.inr (.inl hshown))
    · exact .inr (.inr (.inr (.inl hshown)))
  · exact .inr (.inr (.inr (.inr ⟨_, hshown⟩)))
  · exact .inr (.inl hplain)

/-- The escapes of all other characters begin as no escape of a rule does. -/
theorem escape_of_inexpressible (h : Text.Inexpressible c) :
    ∃ d more, Text.quoteChar c = '\\' :: d :: more ∧ unescape '"' d = none := by
  rcases h with h | h | ⟨digits, h⟩
  · exact ⟨'r', [], h, by decide⟩
  · exact ⟨'0', [], h, by decide⟩
  · exact ⟨'u', _, h, by decide⟩

def isInexpressible (c : Char) : Bool :=
  match Text.quoteChar c with
  | '\\' :: d :: _ => (unescape '"' d).isNone
  | _ => false

theorem isInexpressible_iff : isInexpressible c = true ↔ Text.Inexpressible c := by
  constructor
  · intro h
    rcases quoteChar_cases c with ⟨d, hshown, hescape⟩ | ⟨hshown, -, -⟩ | hother
    · simp [isInexpressible, hshown, hescape] at h
    · simp [isInexpressible, hshown] at h
    · exact hother
  · intro h
    obtain ⟨d, more, hshown, hescape⟩ := escape_of_inexpressible h
    simp [isInexpressible, hshown, hescape]

instance : DecidablePred Text.Inexpressible :=
  fun _ => decidable_of_iff _ isInexpressible_iff

theorem stringContent_quoteChar (h : ¬ Text.Inexpressible c) (t acc : List Char) :
    stringContent '"' (Text.quoteChar c ++ t) acc = stringContent '"' t (c :: acc) := by
  rcases quoteChar_cases c with ⟨d, hshown, hescape⟩ | ⟨hshown, hquote, hbackslash⟩ | hother
  · rw [hshown]
    simp [stringContent, hescape]
  · rw [hshown]
    simp [stringContent, hquote, hbackslash]
  · exact absurd hother h

theorem stringContent_inexpressible (h : Text.Inexpressible c) (t acc : List Char) :
    stringContent '"' (Text.quoteChar c ++ t) acc = none := by
  obtain ⟨d, more, hshown, hescape⟩ := escape_of_inexpressible h
  rw [hshown]
  simp [stringContent, hescape]

theorem stringContent_quoted (h : ∀ c ∈ s, ¬ Text.Inexpressible c) (t acc : List Char) :
    stringContent '"' (s.flatMap Text.quoteChar ++ '"' :: t) acc =
      some (acc.reverse ++ s, t) := by
  induction s generalizing acc with
  | nil => simp [stringContent]
  | cons c s ih =>
      obtain ⟨hc, hs⟩ := List.forall_mem_cons.mp h
      rw [List.flatMap_cons, List.append_assoc, stringContent_quoteChar hc, ih hs]
      simp

theorem stringContent_spoiled (h : ∃ c ∈ s, Text.Inexpressible c) (t acc : List Char) :
    stringContent '"' (s.flatMap Text.quoteChar ++ t) acc = none := by
  induction s generalizing acc with
  | nil => simp at h
  | cons c s ih =>
      rw [List.flatMap_cons, List.append_assoc]
      by_cases hc : Text.Inexpressible c
      · exact stringContent_inexpressible hc _ _
      · have hs : ∃ c ∈ s, Text.Inexpressible c := by
          simpa [hc] using h
        rw [stringContent_quoteChar hc, ih hs]

theorem quote_append (text : String) (t : List Char) : (Text.quote text).toList ++ t =
    '"' :: (text.toList.flatMap Text.quoteChar ++ '"' :: t) := by
  simp [Text.quote]

/-- A quoted text is read back, and what follows it is left. -/
theorem string_quote {text : String} (h : ∀ c ∈ text.toList, ¬ Text.Inexpressible c)
    (t : List Char) : Token.string ((Text.quote text).toList ++ t) = some (text, t) := by
  rw [quote_append]
  simp [Token.string, stringContent_quoted h]

theorem string_quote_spoiled {text : String} (h : ∃ c ∈ text.toList, Text.Inexpressible c)
    (t : List Char) : Token.string ((Text.quote text).toList ++ t) = none := by
  rw [quote_append]
  simp [Token.string, stringContent_spoiled h]

end Quoted

/-! ## Strings that end -/

def isQuote (c : Char) : Bool :=
  c == '"' || c == '\''

/-- Every string that begins in a text ends in it. -/
inductive Closed : List Char → Prop where
  | nil : Closed []
  | plain {c : Char} {s : List Char} : isQuote c = false → Closed s → Closed (c :: s)
  | string {s rest : List Char} {text : String} : Token.string s = some (text, rest) →
      Closed rest → Closed s

namespace Closed

variable {a : Symbol} {symbols : List Symbol} {text s t rest : List Char} {c : Char}

theorem append (h : ∀ c ∈ text, isQuote c = false) (hrest : Closed rest) :
    Closed (text ++ rest) := by
  induction text with
  | nil => exact hrest
  | cons c text ih =>
      obtain ⟨hc, htext⟩ := List.forall_mem_cons.mp h
      exact .plain hc (ih htext)

/-- Outside of a string, a character that is no quote can be left out. -/
theorem of_cons (hc : isQuote c = false) (h : Closed (c :: s)) : Closed s := by
  cases h with
  | plain _ hs => exact hs
  | string hread _ =>
      have hnone : Token.string (c :: s) = none := by
        rw [isQuote, Bool.or_eq_false_iff, beq_eq_false_iff_ne, beq_eq_false_iff_ne] at hc
        exact string_eq_none hc.1 hc.2
      rw [hnone] at hread
      cases hread

theorem of_append (h : ∀ c ∈ text, isQuote c = false) (hclosed : Closed (text ++ rest)) :
    Closed rest := by
  induction text with
  | nil => exact hclosed
  | cons c text ih =>
      obtain ⟨hc, htext⟩ := List.forall_mem_cons.mp h
      exact ih htext (of_cons hc hclosed)

/-- A string that begins can be read to its end. -/
theorem exists_string (hc : isQuote c = true) (h : Closed (c :: s)) :
    ∃ text rest, Token.string (c :: s) = some (text, rest) ∧ Closed rest := by
  cases h with
  | plain hplain _ => simp [hc] at hplain
  | string hread hrest => exact ⟨_, _, hread, hrest⟩

/-- A quoted text in a text whose strings end is read back. -/
theorem of_quote {text : String} (h : Closed ((Text.quote text).toList ++ t)) :
    (∀ c ∈ text.toList, ¬ Text.Inexpressible c) ∧ Closed t := by
  have hbegins := quote_append text t
  obtain ⟨other, rest, hread, hrest⟩ := exists_string (c := '"') (by decide) (hbegins ▸ h)
  rw [← hbegins] at hread
  by_cases hspoiled : ∃ c ∈ text.toList, Text.Inexpressible c
  · rw [string_quote_spoiled hspoiled] at hread
    cases hread
  · have hall : ∀ c ∈ text.toList, ¬ Text.Inexpressible c :=
      fun c hc hother => hspoiled ⟨c, hc, hother⟩
    rw [string_quote hall] at hread
    obtain ⟨-, rfl⟩ := Prod.mk.inj (Option.some.inj hread)
    exact ⟨hall, hrest⟩

end Closed

section Symbols

variable {a : Symbol} {symbols : List Symbol} {text next s rest : List Char} {c : Char}

/-- No character of a name or a number is a quote. -/
theorem isQuote_of_isIdentChar (h : isIdentChar c = true) : isQuote c = false := by
  rw [isQuote, Bool.or_eq_false_iff, beq_eq_false_iff_ne, beq_eq_false_iff_ne]
  exact ⟨ne_of_class h (by decide), ne_of_class h (by decide)⟩

theorem isQuote_of_isDigit (h : c.isDigit = true) : isQuote c = false :=
  isQuote_of_isIdentChar (by simp [isIdentChar, Char.isAlphanum, h])

theorem isQuote_of_isBlank (h : IsBlank c) : isQuote c = false := by
  rcases h with rfl | rfl | rfl | rfl <;> decide

/-- Quotes stand in strings only. -/
theorem unquoted_of_spells (h : Spells a text next) (ha : ∀ s, a ≠ .literal (.str s)) :
    ∀ c ∈ text, isQuote c = false := by
  cases h with
  | string _ _ => exact absurd rfl (ha _)
  | @notIn blanks _ _ hblanks _ =>
      refine List.forall_mem_append.mpr ⟨List.forall_mem_append.mpr ⟨by simp [isQuote], ?_⟩,
        by simp [isQuote]⟩
      exact fun c hc => isQuote_of_isBlank (hblanks c hc)
  | natural hdigits _ => exact fun c hc => isQuote_of_isDigit (hdigits.digit c hc)
  | negative hdigits _ =>
      exact List.forall_mem_cons.mpr
        ⟨by decide, fun c hc => isQuote_of_isDigit (hdigits.digit c hc)⟩
  | name hname _ =>
      obtain ⟨c, later, htext, hstart, hlater⟩ := hname.shape
      have hfirst : isIdentChar c = true := by
        rw [isIdentStart, Bool.or_eq_true] at hstart
        rw [isIdentChar, Char.isAlphanum, Bool.or_eq_true, Bool.or_eq_true]
        exact hstart.imp_left .inl
      rw [htext]
      exact List.forall_mem_cons.mpr
        ⟨isQuote_of_isIdentChar hfirst, fun d hd => isQuote_of_isIdentChar (hlater d hd)⟩
  | _ => simp [isQuote]

/-- In a text that spells symbols, every string ends. -/
theorem Spelled.closed (h : Spelled symbols s rest) (hrest : Closed rest) : Closed s := by
  induction h with
  | done hblanks => exact hrest.append fun c hc => isQuote_of_isBlank (hblanks c hc)
  | @symbol a _ _ text next _ hblanks hspells _ ih =>
      refine Closed.append (fun c hc => isQuote_of_isBlank (hblanks c hc)) ?_
      by_cases ha : ∃ s, a = .literal (.str s)
      · obtain ⟨s, rfl⟩ := ha
        exact .string (string_eq_some_iff.mpr ⟨text, rfl, hspells⟩) (ih hrest)
      · exact (ih hrest).append (unquoted_of_spells hspells fun s hs => ha ⟨s, hs⟩)

end Symbols

end Rule
end Workplan
