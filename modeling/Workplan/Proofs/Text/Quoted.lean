import Workplan.Text.Quoted

/-!
# Reading quoted texts back

Quoting loses nothing. How a character is shown tells which one it is and where it ends, and none
is shown by the quote that ends a text. So wherever a quoted text stands, the text is known, and so
is what follows it.
-/

namespace Workplan
namespace Text

def hexDigitValue (c : Char) : Nat :=
  if c.isDigit then c.toNat - '0'.toNat else c.toNat - 'a'.toNat + 10

def hexValue (digits : List Char) : Nat :=
  digits.foldl (fun n c => 16 * n + hexDigitValue c) 0

/-- Reads one character as it is shown between double quotes. -/
def readQuoted? : List Char → Option (Char × List Char)
  | '\\' :: 'u' :: '{' :: rest =>
    some (Char.ofNat (hexValue (rest.takeWhile (· != '}'))), (rest.dropWhile (· != '}')).tail)
  | '\\' :: 'n' :: rest => some ('\n', rest)
  | '\\' :: 't' :: rest => some ('\t', rest)
  | '\\' :: 'r' :: rest => some ('\r', rest)
  | '\\' :: '0' :: rest => some ('\x00', rest)
  | '\\' :: c :: rest => some (c, rest)
  | '"' :: _ => none
  | c :: rest => some (c, rest)
  | [] => none

variable {c d : Char} {n : Nat} {s t rest other : List Char}

theorem hexDigitValue_digitChar (h : n < 16) : hexDigitValue n.digitChar = n := by
  have hall : ∀ n < 16, hexDigitValue n.digitChar = n := by
    decide
  exact hall n h

theorem hexValue_hexDigits (n : Nat) : hexValue (hexDigits n) = n := by
  induction n using Nat.strongRecOn with
  | ind n ih =>
      rw [hexDigits, Nat.toDigits_eq_if (by decide)]
      split
      · next hlt => simp [hexValue, hexDigitValue_digitChar hlt]
      · next hle =>
        have hhigher : hexValue (Nat.toDigits 16 (n / 16)) = n / 16 := ih (n / 16) (by omega)
        have hlast : hexDigitValue (n % 16).digitChar = n % 16 :=
          hexDigitValue_digitChar (Nat.mod_lt n (by decide))
        rw [hexValue] at hhigher
        rw [hexValue, List.foldl_append, hhigher, List.foldl_cons, List.foldl_nil, hlast]
        omega

theorem brace_notMem_hexDigits (n : Nat) : '}' ∉ hexDigits n := by
  have hdigit : ∀ n < 16, '}' ≠ Nat.digitChar n := by
    decide
  induction n using Nat.strongRecOn with
  | ind n ih =>
      rw [hexDigits, Nat.toDigits_eq_if (by decide)]
      split
      · simp
      · next hle =>
        rw [List.mem_append, List.mem_singleton, not_or]
        exact ⟨ih (n / 16) (by omega), hdigit _ (Nat.mod_lt n (by decide))⟩

theorem readQuoted?_numericEscape (c : Char) (rest : List Char) :
    readQuoted? (numericEscape c ++ rest) = some (c, rest) := by
  have hdigits : ∀ d ∈ hexDigits c.toNat, (d != '}') = true := fun d hd =>
    bne_iff_ne.mpr fun heq => brace_notMem_hexDigits c.toNat (heq ▸ hd)
  simp [numericEscape, readQuoted?, List.takeWhile_append_of_pos hdigits,
    List.dropWhile_append_of_pos hdigits, hexValue_hexDigits]

/-- The characters that are shown by a backslash and one more character. -/
def shortEscapes : List (Char × Char) :=
  [('"', '"'), ('\\', '\\'), ('\n', 'n'), ('\t', 't'), ('\r', 'r'), ('\x00', '0')]

/-- A character is shown by a short escape, by its number, or as it is. -/
theorem quoteChar_shown (c : Char) :
    (∃ d, (c, d) ∈ shortEscapes ∧ quoteChar c = ['\\', d]) ∨ quoteChar c = numericEscape c ∨
      (quoteChar c = [c] ∧ c ≠ '"' ∧ c ≠ '\\') := by
  by_cases hshort : c ∈ shortEscapes.map Prod.fst
  · obtain ⟨⟨c, d⟩, hmem, rfl⟩ := List.mem_map.mp hshort
    have hall : ∀ x ∈ shortEscapes, quoteChar x.1 = ['\\', x.2] := by
      decide
    exact .inl ⟨d, hmem, hall _ hmem⟩
  · simp only [shortEscapes, List.map_cons, List.map_nil, List.mem_cons, List.not_mem_nil, or_false,
      not_or] at hshort
    obtain ⟨hquote, hbackslash, hnewline, htab, hreturn, hzero⟩ := hshort
    simp only [quoteChar, hquote, hbackslash, hnewline, htab, hreturn, hzero, if_false]
    split
    · exact .inr (.inl rfl)
    · exact .inr (.inr ⟨rfl, hquote, hbackslash⟩)

theorem readQuoted?_quoteChar (c : Char) (rest : List Char) :
    readQuoted? (quoteChar c ++ rest) = some (c, rest) := by
  rcases quoteChar_shown c with ⟨d, hmem, hshown⟩ | hshown | ⟨hshown, hquote, hbackslash⟩
  · have hall : ∀ x ∈ shortEscapes, readQuoted? ('\\' :: x.2 :: rest) = some (x.1, rest) := by
      simp [shortEscapes, readQuoted?]
    rw [hshown]
    exact hall _ hmem
  · rw [hshown, readQuoted?_numericEscape]
  · rw [hshown]
    simp [readQuoted?, hbackslash]

/-- What shows a character tells which one it is, and where it ends. -/
theorem quoteChar_append_inj (h : quoteChar c ++ s = quoteChar d ++ t) : c = d ∧ s = t := by
  have hread : some (c, s) = some (d, t) := by
    rw [← readQuoted?_quoteChar c s, h, readQuoted?_quoteChar]
  simpa using hread

theorem quoteChar_append_ne (c : Char) (s t : List Char) : quoteChar c ++ s ≠ '"' :: t := by
  intro h
  have hread := readQuoted?_quoteChar c s
  rw [h] at hread
  cases hread

theorem flatMap_quoteChar_inj
    (h : s.flatMap quoteChar ++ '"' :: rest = t.flatMap quoteChar ++ '"' :: other) :
    s = t ∧ rest = other := by
  induction s generalizing t with
  | nil =>
      cases t with
      | nil => simpa using h
      | cons d t =>
          rw [List.flatMap_cons, List.append_assoc] at h
          exact absurd h.symm (quoteChar_append_ne d _ _)
  | cons c s ih =>
      rw [List.flatMap_cons, List.append_assoc] at h
      cases t with
      | nil => exact absurd h (quoteChar_append_ne c _ _)
      | cons d t =>
          rw [List.flatMap_cons, List.append_assoc] at h
          obtain ⟨rfl, hrest⟩ := quoteChar_append_inj h
          obtain ⟨rfl, hother⟩ := ih hrest
          exact ⟨rfl, hother⟩

/-- A quoted text and what follows it are known from both together. -/
theorem quote_append_inj {s t rest other : String} (h : quote s ++ rest = quote t ++ other) :
    s = t ∧ rest = other := by
  have hlists : s.toList.flatMap quoteChar ++ '"' :: rest.toList =
      t.toList.flatMap quoteChar ++ '"' :: other.toList := by
    simpa [quote] using congrArg String.toList h
  obtain ⟨htext, hrest⟩ := flatMap_quoteChar_inj hlists
  exact ⟨String.toList_inj.mp htext, String.toList_inj.mp hrest⟩

end Text
end Workplan
