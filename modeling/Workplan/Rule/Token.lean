import Workplan.Rule.Error

/-!
# Tokens of the rule language

Each reader takes its token from the front of a text and returns the rest, or nothing if the
text does not begin with such a token. Every reader shortens the text, which is what the
`length_lt` lemmas say.
-/

namespace Workplan
namespace Rule
namespace Token

def isSpace (c : Char) : Bool :=
  c == ' ' || c == '\t' || c == '\r' || c == '\n'

def skipSpace (s : List Char) : List Char :=
  s.dropWhile isSpace

def isIdentStart (c : Char) : Bool :=
  c.isAlpha || c == '_'

def isIdentChar (c : Char) : Bool :=
  c.isAlphanum || c == '_'

def reservedWords : List String :=
  ["and", "or", "not", "in", "true", "false", "nil"]

def exactly : (tag s : List Char) → Option (List Char)
  | [], s => some s
  | _ :: _, [] => none
  | t :: tag, c :: s => if t = c then exactly tag s else none

/-- Takes a word that no identifier character follows. -/
def word (w : String) (s : List Char) : Option (List Char) :=
  match exactly w.toList s with
  | some (c :: rest) => if isIdentChar c then none else some (c :: rest)
  | other => other

/-- Takes a run of identifier characters that begins as an identifier does. -/
def nameLike : List Char → Option (String × List Char)
  | [] => none
  | c :: s =>
    if isIdentStart c then
      some (String.ofList (c :: s.takeWhile isIdentChar), s.dropWhile isIdentChar)
    else none

/-- Takes an identifier: a maximal run that is no reserved word. -/
def identifier (s : List Char) : Option (String × List Char) :=
  match nameLike s with
  | some (name, rest) => if reservedWords.contains name then none else some (name, rest)
  | none => none

def unescape (delimiter c : Char) : Option Char :=
  if c = '\\' then some '\\'
  else if c = delimiter then some delimiter
  else if c = 'n' then some '\n'
  else if c = 't' then some '\t'
  else none

/-- Takes the content of a string up to its closing quote; `acc` is what was read, reversed. -/
def stringContent (delimiter : Char) : (s acc : List Char) → Option (List Char × List Char)
  | [], _ => none
  | '\\' :: c :: s, acc =>
    match unescape delimiter c with
    | some u => stringContent delimiter s (u :: acc)
    | none => none
  | c :: s, acc =>
    if c = delimiter then some (acc.reverse, s)
    else if c = '\\' then none
    else stringContent delimiter s (c :: acc)

def string : List Char → Option (String × List Char)
  | c :: s =>
    if c = '"' || c = '\'' then
      (stringContent c s []).map fun content => (String.ofList content.1, content.2)
    else none
  | [] => none

def digitsValue (digits : List Char) : Nat :=
  digits.foldl (fun n c => 10 * n + (c.toNat - '0'.toNat)) 0

/-- An integer as a 64-bit value, if it is in range. -/
def int64? (n : Int) : Option Int64 :=
  if -0x8000000000000000 ≤ n ∧ n < 0x8000000000000000 then some (Int64.ofInt n) else none

def digits (s : List Char) : Option (List Char × List Char) :=
  match s.takeWhile Char.isDigit with
  | [] => none
  | ds => some (ds, s.dropWhile Char.isDigit)

/-- Takes an optional minus sign and decimal digits whose value is in range. -/
def integer (s : List Char) : Option (Int64 × List Char) :=
  match s with
  | '-' :: s =>
    match digits s with
    | some (ds, rest) => (int64? (-(digitsValue ds : Int))).map (·, rest)
    | none => none
  | s =>
    match digits s with
    | some (ds, rest) => (int64? (digitsValue ds)).map (·, rest)
    | none => none

def orSign (s : List Char) : Option (List Char) :=
  (exactly ['|', '|'] s).orElse fun _ => word "or" s

def andSign (s : List Char) : Option (List Char) :=
  (exactly ['&', '&'] s).orElse fun _ => word "and" s

/-- Takes `!` that no `=` follows, or the word `not`. -/
def notSign (s : List Char) : Option (List Char) :=
  match s with
  | '!' :: '=' :: _ => none
  | '!' :: rest => some rest
  | s => word "not" s

/-- Takes `not`, at least one blank, and `in`. -/
def notInSign (s : List Char) : Option (List Char) :=
  match word "not" s with
  | some (c :: rest) => if isSpace c then word "in" (skipSpace rest) else none
  | _ => none

/-- Takes a comparison or membership operator; a longer spelling goes before a shorter one. -/
def comparison (s : List Char) : Option (Comparison × List Char) :=
  match s with
  | '=' :: '=' :: rest => some (.eq, rest)
  | '!' :: '=' :: rest => some (.ne, rest)
  | '<' :: '=' :: rest => some (.le, rest)
  | '>' :: '=' :: rest => some (.ge, rest)
  | '<' :: rest => some (.lt, rest)
  | '>' :: rest => some (.gt, rest)
  | s =>
    match notInSign s with
    | some rest => some (.notIn, rest)
    | none => (word "in" s).map (.isIn, ·)

theorem length_skipSpace_le (s : List Char) : (skipSpace s).length ≤ s.length :=
  (List.dropWhile_sublist _).length_le

theorem length_exactly {tag s rest : List Char} (h : exactly tag s = some rest) :
    rest.length + tag.length = s.length := by
  induction tag generalizing s with
  | nil => simp_all [exactly]
  | cons t tag ih =>
    cases s with
    | nil => simp [exactly] at h
    | cons c s =>
      unfold exactly at h
      split at h
      · have := ih h
        simp only [List.length_cons]
        omega
      · simp at h

theorem length_word {w : String} {s rest : List Char} (h : word w s = some rest) :
    rest.length + w.toList.length = s.length := by
  unfold word at h
  split at h
  · next heq =>
    split at h
    · simp at h
    · cases h
      exact length_exactly heq
  · exact length_exactly h

theorem length_nameLike_lt {s rest : List Char} {name : String}
    (h : nameLike s = some (name, rest)) : rest.length < s.length := by
  cases s with
  | nil => simp [nameLike] at h
  | cons c s =>
    simp only [nameLike, Option.ite_none_right_eq_some, Option.some.injEq, Prod.mk.injEq] at h
    rw [← h.2.2]
    exact Nat.lt_succ_of_le (List.dropWhile_sublist _).length_le

theorem length_identifier_lt {s rest : List Char} {name : String}
    (h : identifier s = some (name, rest)) : rest.length < s.length := by
  unfold identifier at h
  split at h
  · next heq =>
    split at h
    · simp at h
    · cases h
      exact length_nameLike_lt heq
  · simp at h

theorem length_stringContent_lt {delimiter : Char} {s acc content rest : List Char}
    (h : stringContent delimiter s acc = some (content, rest)) : rest.length < s.length := by
  fun_induction stringContent delimiter s acc with
  | case1 => simp at h
  | case2 acc c s u hu ih =>
    have := ih h
    simp only [List.length_cons]
    omega
  | case3 => simp at h
  | case4 =>
    cases h
    simp
  | case5 => simp at h
  | case6 acc c s _ _ _ ih =>
    have := ih h
    simp only [List.length_cons]
    omega

theorem length_string_lt {s rest : List Char} {value : String}
    (h : string s = some (value, rest)) : rest.length < s.length := by
  cases s with
  | nil => simp [string] at h
  | cons c s =>
    simp only [string, Option.ite_none_right_eq_some] at h
    obtain ⟨⟨content, r⟩, hc, hr⟩ := Option.map_eq_some_iff.mp h.2
    cases hr
    exact Nat.lt_succ_of_lt (length_stringContent_lt hc)

theorem length_digits_lt {s ds rest : List Char} (h : digits s = some (ds, rest)) :
    rest.length < s.length := by
  unfold digits at h
  split at h
  · simp at h
  · next hne =>
    cases h
    have hsplit : (s.takeWhile Char.isDigit ++ s.dropWhile Char.isDigit).length = s.length := by
      rw [List.takeWhile_append_dropWhile]
    rw [List.length_append] at hsplit
    have : 0 < (s.takeWhile Char.isDigit).length := List.length_pos_iff.mpr hne
    omega

theorem length_integer_lt {s rest : List Char} {n : Int64}
    (h : integer s = some (n, rest)) : rest.length < s.length := by
  unfold integer at h
  split at h
  · split at h
    · next heq =>
      obtain ⟨_, _, hr⟩ := Option.map_eq_some_iff.mp h
      cases hr
      exact Nat.lt_succ_of_lt (length_digits_lt heq)
    · simp at h
  · split at h
    · next heq =>
      obtain ⟨_, _, hr⟩ := Option.map_eq_some_iff.mp h
      cases hr
      exact length_digits_lt heq
    · simp at h

theorem length_word_lt {w : String} (hw : 0 < w.toList.length) {s rest : List Char}
    (h : word w s = some rest) : rest.length < s.length := by
  have := length_word h
  omega

theorem length_orSign_lt {s rest : List Char} (h : orSign s = some rest) :
    rest.length < s.length := by
  unfold orSign at h
  cases he : exactly ['|', '|'] s with
  | some r =>
    have hlen := length_exactly he
    simp only [he, Option.orElse_some, Option.some.injEq] at h
    subst h
    simp only [List.length_cons, List.length_nil] at hlen
    omega
  | none =>
    simp only [he, Option.orElse_none] at h
    exact length_word_lt (by decide) h

theorem length_andSign_lt {s rest : List Char} (h : andSign s = some rest) :
    rest.length < s.length := by
  unfold andSign at h
  cases he : exactly ['&', '&'] s with
  | some r =>
    have hlen := length_exactly he
    simp only [he, Option.orElse_some, Option.some.injEq] at h
    subst h
    simp only [List.length_cons, List.length_nil] at hlen
    omega
  | none =>
    simp only [he, Option.orElse_none] at h
    exact length_word_lt (by decide) h

theorem length_notSign_lt {s rest : List Char} (h : notSign s = some rest) :
    rest.length < s.length := by
  unfold notSign at h
  split at h
  · simp at h
  · cases h
    simp
  · exact length_word_lt (by decide) h

theorem length_notInSign_lt {s rest : List Char} (h : notInSign s = some rest) :
    rest.length < s.length := by
  unfold notInSign at h
  split at h
  · next c r heq =>
    split at h
    · have h1 := length_word_lt (by decide) h
      have h2 := length_skipSpace_le r
      have h3 := length_word_lt (by decide) heq
      simp only [List.length_cons] at h3
      omega
    · simp at h
  · simp at h

theorem length_comparison_lt {s rest : List Char} {op : Comparison}
    (h : comparison s = some (op, rest)) : rest.length < s.length := by
  unfold comparison at h
  split at h
  case h_7 =>
    split at h
    · next heq =>
      cases h
      exact length_notInSign_lt heq
    · obtain ⟨_, heq, hr⟩ := Option.map_eq_some_iff.mp h
      cases hr
      exact length_word_lt (by decide) heq
  all_goals
    cases h
    simp only [List.length_cons]
    omega

def closing (c : Char) (s : List Char) : Option (List Char) :=
  match skipSpace s with
  | d :: rest => if d = c then some (skipSpace rest) else none
  | [] => none

theorem length_closing_lt {c : Char} {s rest : List Char} (h : closing c s = some rest) :
    rest.length < s.length := by
  have hs := length_skipSpace_le s
  unfold closing at h
  split at h
  · next d r heq =>
    rw [heq] at hs
    have hr := length_skipSpace_le r
    simp only [Option.ite_none_right_eq_some, Option.some.injEq] at h
    rw [← h.2]
    simp only [List.length_cons] at hs
    omega
  · simp at h

end Token
end Rule
end Workplan
