import Workplan.Document.Basic

/-!
# Reading Json

A strict reader of Json texts. It gives a document in which repeated keys are still there. A
string with half a surrogate pair, a number out of range and a collection nested too deep are
well formed, but stand for nothing.
-/

namespace Workplan
namespace Json

/-- What a reader took from the front of a text whose length is below `bound`. -/
structure Taken (α : Type) (bound : Nat) where
  value : α
  rest : List Char
  shorter : rest.length < bound

def isBlank (c : Char) : Bool :=
  c == ' ' || c == '\n' || c == '\t' || c == '\r'

def skipBlanks (s : List Char) : List Char :=
  s.dropWhile isBlank

theorem length_skipBlanks_le (s : List Char) : (skipBlanks s).length ≤ s.length :=
  (List.dropWhile_sublist _).length_le

def hexValue? (c : Char) : Option Nat :=
  if c.isDigit then some (c.toNat - '0'.toNat)
  else if 'a' ≤ c && c ≤ 'f' then some (c.toNat - 'a'.toNat + 10)
  else if 'A' ≤ c && c ≤ 'F' then some (c.toNat - 'A'.toNat + 10)
  else none

def hex4? (a b c d : Char) : Option Nat := do
  let a ← hexValue? a
  let b ← hexValue? b
  let c ← hexValue? c
  let d ← hexValue? d
  return ((a * 16 + b) * 16 + c) * 16 + d

def shortEscape? : Char → Option Char
  | '"' => some '"'
  | '\\' => some '\\'
  | '/' => some '/'
  | 'b' => some '\x08'
  | 'f' => some '\x0c'
  | 'n' => some '\n'
  | 'r' => some '\r'
  | 't' => some '\t'
  | _ => none

/-- The first half of a pair of escapes for one character. -/
def isHighHalf (n : Nat) : Bool := 0xD800 ≤ n && n ≤ 0xDBFF

def isLowHalf (n : Nat) : Bool := 0xDC00 ≤ n && n ≤ 0xDFFF

def lowHalf? : List Char → Option (Nat × List Char)
  | '\\' :: 'u' :: a :: b :: c :: d :: rest =>
    match hex4? a b c d with
    | some n => if isLowHalf n then some (n, rest) else none
    | none => none
  | _ => none

theorem length_lowHalf?_lt {s rest : List Char} {n : Nat} (h : lowHalf? s = some (n, rest)) :
    rest.length < s.length := by
  unfold lowHalf? at h
  split at h
  · split at h
    · split at h
      · cases h
        simp only [List.length_cons]
        omega
      · simp at h
    · simp at h
  · simp at h

/--
Reads the inside of a string up to its closing quote. `acc` holds what was read, reversed, or
nothing once an escape stood for no character.
-/
def stringInside (s : List Char) (acc : Option (List Char)) :
    Option (Option (List Char) × List Char) :=
  match s with
  | [] => none
  | '"' :: rest => some (acc.map List.reverse, rest)
  | '\\' :: 'u' :: a :: b :: c :: d :: rest =>
    match hex4? a b c d with
    | none => none
    | some n =>
      if isHighHalf n then
        match h : lowHalf? rest with
        | some (low, rest') =>
          have := length_lowHalf?_lt h
          let code := 0x10000 + (n - 0xD800) * 0x400 + (low - 0xDC00)
          stringInside rest' (acc.map (Char.ofNat code :: ·))
        | none => stringInside rest none
      else if isLowHalf n then stringInside rest none
      else stringInside rest (acc.map (Char.ofNat n :: ·))
  | '\\' :: c :: rest =>
    match shortEscape? c with
    | some u => stringInside rest (acc.map (u :: ·))
    | none => none
  | c :: rest =>
    if c.toNat < 0x20 || c == '\\' then none else stringInside rest (acc.map (c :: ·))
termination_by s.length
decreasing_by all_goals simp only [List.length_cons]; omega

theorem length_stringInside_lt {s rest : List Char} {acc content : Option (List Char)}
    (h : stringInside s acc = some (content, rest)) : rest.length < s.length := by
  fun_induction stringInside s acc generalizing content rest with
  | case1 => simp at h
  | case2 =>
    cases h
    simp
  | case3 => simp at h
  | case4 acc a b c d r n _ _ low r' hlow hlt code =>
    rename_i ih
    have := ih h
    simp only [List.length_cons]
    omega
  | case5 acc a b c d r n _ _ _ ih =>
    have := ih h
    simp only [List.length_cons]
    omega
  | case6 acc a b c d r n _ _ _ ih =>
    have := ih h
    simp only [List.length_cons]
    omega
  | case7 acc a b c d r n _ _ _ ih =>
    have := ih h
    simp only [List.length_cons]
    omega
  | case8 acc c r _ u _ ih =>
    have := ih h
    simp only [List.length_cons]
    omega
  | case9 => simp at h
  | case10 => simp at h
  | case11 acc c r _ _ _ _ ih =>
    have := ih h
    simp only [List.length_cons]
    omega

def spanDigits (s : List Char) : List Char × List Char :=
  (s.takeWhile Char.isDigit, s.dropWhile Char.isDigit)

theorem length_spanDigits_le (s : List Char) : (spanDigits s).2.length ≤ s.length :=
  (List.dropWhile_sublist _).length_le

/-- Reads the digits of the whole part, which has no needless zero in front. -/
def wholePart? (s : List Char) : Option (List Char × List Char) :=
  match spanDigits s with
  | ([], _) => none
  | (['0'], rest) => some (['0'], rest)
  | ('0' :: _, _) => none
  | digits => some digits

/-- Reads a point and at least one digit, if there is a point. -/
def fractionPart? : List Char → Option (List Char × List Char)
  | '.' :: s =>
    match spanDigits s with
    | ([], _) => none
    | digits => some digits
  | s => some ([], s)

def minusSign : List Char → Bool × List Char
  | '-' :: s => (true, s)
  | s => (false, s)

def exponentSign : List Char → Bool × List Char
  | '-' :: s => (true, s)
  | '+' :: s => (false, s)
  | s => (false, s)

theorem length_minusSign_le (s : List Char) : (minusSign s).2.length ≤ s.length := by
  unfold minusSign
  split <;> simp

theorem length_exponentSign_le (s : List Char) : (exponentSign s).2.length ≤ s.length := by
  unfold exponentSign
  split <;> simp

/-- Reads an exponent with at least one digit, if there is an exponent mark. -/
def exponentPart? : List Char → Option (Option (Bool × List Char) × List Char)
  | c :: s =>
    if c = 'e' || c = 'E' then
      match spanDigits (exponentSign s).2 with
      | ([], _) => none
      | (digits, rest) => some (some ((exponentSign s).1, digits), rest)
    else some (none, c :: s)
  | [] => some (none, [])

def spelling? (s : List Char) : Option (Number.Spelling × List Char) := do
  let (whole, afterWhole) ← wholePart? (minusSign s).2
  let (fraction, afterFraction) ← fractionPart? afterWhole
  let (exponent, rest) ← exponentPart? afterFraction
  return (⟨(minusSign s).1, whole, fraction, exponent⟩, rest)

def numberDocument (s : Number.Spelling) : Document :=
  match Number.ofSpelling s with
  | some n => .ofAtom (.number n)
  | none => .unreadable

def stringDocument : Option (List Char) → Document
  | some content => .ofAtom (.text (String.ofList content))
  | none => .unreadable

def constant? : List Char → Option (Atom × List Char)
  | 'n' :: 'u' :: 'l' :: 'l' :: rest => some (.null, rest)
  | 't' :: 'r' :: 'u' :: 'e' :: rest => some (.bool true, rest)
  | 'f' :: 'a' :: 'l' :: 's' :: 'e' :: rest => some (.bool false, rest)
  | _ => none

def simple? : List Char → Option (Document × List Char)
  | '"' :: s =>
    match stringInside s (some []) with
    | some (content, rest) => some (stringDocument content, rest)
    | none => none
  | s =>
    match constant? s with
    | some (a, rest) => some (.ofAtom a, rest)
    | none =>
      match spelling? s with
      | some (n, rest) => some (numberDocument n, rest)
      | none => none

theorem length_wholePart?_lt {s digits rest : List Char} (h : wholePart? s = some (digits, rest)) :
    rest.length < s.length := by
  have hsplit : (s.takeWhile Char.isDigit ++ s.dropWhile Char.isDigit).length = s.length := by
    rw [List.takeWhile_append_dropWhile]
  rw [List.length_append] at hsplit
  have hne : s.takeWhile Char.isDigit ≠ [] ∧ rest = s.dropWhile Char.isDigit := by
    unfold wholePart? spanDigits at h
    split at h
    · simp at h
    · next heq =>
      cases h
      rw [Prod.mk.injEq] at heq
      exact ⟨heq.1 ▸ List.cons_ne_nil _ _, heq.2.symm⟩
    · simp at h
    · next hnil _ _ =>
      cases h
      exact ⟨fun hn => hnil _ (by rw [hn]), rfl⟩
  have := List.length_pos_iff.mpr hne.1
  rw [hne.2]
  omega

theorem length_fractionPart?_le {s digits rest : List Char}
    (h : fractionPart? s = some (digits, rest)) : rest.length ≤ s.length := by
  unfold fractionPart? at h
  split at h
  · split at h
    · simp at h
    · have := length_spanDigits_le ‹List Char›
      simp_all only [Option.some.injEq, List.length_cons]
      omega
  · cases h
    exact Nat.le_refl _

theorem length_exponentPart?_le {s rest : List Char} {e : Option (Bool × List Char)}
    (h : exponentPart? s = some (e, rest)) : rest.length ≤ s.length := by
  cases s with
  | nil =>
    cases h
    exact Nat.le_refl _
  | cons c s =>
    simp only [exponentPart?] at h
    split at h
    · split at h
      · simp at h
      · next heq =>
        cases h
        have hle := length_spanDigits_le (exponentSign s).2
        rw [heq] at hle
        have := length_exponentSign_le s
        simp only [List.length_cons] at hle ⊢
        omega
    · cases h
      exact Nat.le_refl _

theorem length_spelling?_lt {s rest : List Char} {n : Number.Spelling}
    (h : spelling? s = some (n, rest)) : rest.length < s.length := by
  have h0 := length_minusSign_le s
  simp only [spelling?, Option.bind_eq_bind, Option.bind_eq_some_iff] at h
  obtain ⟨⟨w, r1⟩, h1, ⟨f, r2⟩, h2, ⟨e, r3⟩, h3, h4⟩ := h
  cases h4
  have h1 := length_wholePart?_lt h1
  have h2 := length_fractionPart?_le h2
  have h3 := length_exponentPart?_le h3
  simp only at h1 h2 h3 ⊢
  omega

theorem length_constant?_lt {s rest : List Char} {a : Atom} (h : constant? s = some (a, rest)) :
    rest.length < s.length := by
  unfold constant? at h
  split at h
  · cases h
    simp only [List.length_cons]
    omega
  · cases h
    simp only [List.length_cons]
    omega
  · cases h
    simp only [List.length_cons]
    omega
  · simp at h

theorem length_simple?_lt {s rest : List Char} {d : Document} (h : simple? s = some (d, rest)) :
    rest.length < s.length := by
  unfold simple? at h
  split at h
  · split at h
    · next heq =>
      cases h
      exact Nat.lt_succ_of_lt (length_stringInside_lt heq)
    · simp at h
  · split at h
    · next heq =>
      cases h
      exact length_constant?_lt heq
    · split at h
      · next heq =>
        cases h
        exact length_spelling?_lt heq
      · simp at h

def collection (room : Nat) (d : Document) : Document :=
  if room = 0 then .unreadable else d

def colon? (s : List Char) : Option (List Char) :=
  match skipBlanks s with
  | ':' :: rest => some (skipBlanks rest)
  | _ => none

theorem length_colon?_le {s rest : List Char} (h : colon? s = some rest) :
    rest.length ≤ s.length := by
  have hs := length_skipBlanks_le s
  unfold colon? at h
  split at h
  · next r heq =>
    cases h
    have hr := length_skipBlanks_le r
    rw [heq, List.length_cons] at hs
    omega
  · simp at h

def key? : List Char → Option (Document × List Char)
  | '"' :: s =>
    match stringInside s (some []) with
    | some (key, rest) => (colon? rest).map (stringDocument key, ·)
    | none => none
  | _ => none

theorem length_key?_lt {s rest : List Char} {d : Document} (h : key? s = some (d, rest)) :
    rest.length < s.length := by
  unfold key? at h
  split at h
  · split at h
    · next heq =>
      obtain ⟨r, hr, hpair⟩ := Option.map_eq_some_iff.mp h
      cases hpair
      have h1 := length_stringInside_lt heq
      have h2 := length_colon?_le hr
      rw [List.length_cons]
      omega
    · simp at h
  · simp at h

def memberKey? (s : List Char) : Option (Taken Document s.length) :=
  match h : key? s with
  | some (d, rest) => some ⟨d, rest, length_key?_lt h⟩
  | none => none

mutual

/-- Reads a value. Inside it, `room` levels of collections may open. -/
def readValue (room : Nat) (s : List Char) : Option (Taken Document s.length) :=
  match s with
  | '[' :: r =>
    match h : skipBlanks r with
    | ']' :: rest => some ⟨collection room (.sequence .json []), rest, by
        have := length_skipBlanks_le r
        rw [h] at this
        simp only [List.length_cons] at this ⊢
        omega⟩
    | _ =>
      have := length_skipBlanks_le r
      match readItems (room - 1) (r.length + 1) (skipBlanks r) (by omega) [] with
      | some ⟨items, rest, shorter⟩ => some ⟨collection room (.sequence .json items), rest, shorter⟩
      | none => none
  | '{' :: r =>
    match h : skipBlanks r with
    | '}' :: rest => some ⟨collection room (.mapping .json []), rest, by
        have := length_skipBlanks_le r
        rw [h] at this
        simp only [List.length_cons] at this ⊢
        omega⟩
    | _ =>
      have := length_skipBlanks_le r
      match readMembers (room - 1) (r.length + 1) (skipBlanks r) (by omega) [] with
      | some ⟨ms, rest, shorter⟩ => some ⟨collection room (.mapping .json ms), rest, shorter⟩
      | none => none
  | s =>
    match h : simple? s with
    | some (d, rest) => some ⟨d, rest, length_simple?_lt h⟩
    | none => none
termination_by (s.length, 0)

def readItems (room bound : Nat) (s : List Char) (hs : s.length < bound) (acc : List Document) :
    Option (Taken (List Document) bound) :=
  match readValue room s with
  | none => none
  | some ⟨value, afterValue, shorter⟩ =>
    have h1 := length_skipBlanks_le afterValue
    match h : skipBlanks afterValue with
    | ',' :: r =>
      have h2 := length_skipBlanks_le r
      have h3 : r.length + 1 ≤ afterValue.length := by rw [h] at h1; exact h1
      readItems room bound (skipBlanks r) (by omega) (value :: acc)
    | ']' :: rest =>
      have h3 : rest.length + 1 ≤ afterValue.length := by rw [h] at h1; exact h1
      some ⟨(value :: acc).reverse, rest, by omega⟩
    | _ => none
termination_by (s.length, 1)

def readMembers (room bound : Nat) (s : List Char) (hs : s.length < bound)
    (acc : List (Document × Document)) : Option (Taken (List (Document × Document)) bound) :=
  match memberKey? s with
  | none => none
  | some ⟨key, inner, h0⟩ =>
    match readValue room inner with
    | none => none
    | some ⟨value, afterValue, shorter⟩ =>
      have h1 := length_skipBlanks_le afterValue
      match h : skipBlanks afterValue with
      | ',' :: r =>
        have h2 := length_skipBlanks_le r
        have h3 : r.length + 1 ≤ afterValue.length := by rw [h] at h1; exact h1
        readMembers room bound (skipBlanks r) (by omega) ((key, value) :: acc)
      | '}' :: rest =>
        have h3 : rest.length + 1 ≤ afterValue.length := by rw [h] at h1; exact h1
        some ⟨((key, value) :: acc).reverse, rest, by omega⟩
      | _ => none
termination_by (s.length, 1)

end

def maxLevels : Nat := 127

def read (text : String) : Option Document :=
  match readValue maxLevels (skipBlanks text.toList) with
  | some ⟨value, rest, _⟩ => if (skipBlanks rest).isEmpty then some value else none
  | none => none

end Json
end Workplan
