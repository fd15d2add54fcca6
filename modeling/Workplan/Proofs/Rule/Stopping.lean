import Workplan.Proofs.Rule.Acceptance
import Workplan.Proofs.Text.Quoted

/-!
# Where reading a rule stops

A rejected text is reported with what is left of it where reading stopped, and with a code. Either
no expression begins in the text at all, or one ends before it does: then the part in front stands
on its own as an accepted text, since what was read depends on nothing behind it but on where words
and signs end. The message of the error quotes the rest, so that both are known from it.
-/

namespace Workplan
namespace Rule

open Token

def Trimmed (rest : String) : Prop :=
  ∀ c, rest.toList.head? = some c → ¬ IsBlank c

/-- The text begins with a word of the shape of an identifier, and the word is reserved. -/
def BeginsReserved (rest : String) : Prop :=
  ∃ word ∈ reservedWords, ∃ next, rest.toList = word.toList ++ next ∧ WordEnds next

/-- `rest` is `source` without its leading blanks. -/
def TrimsTo (source rest : String) : Prop :=
  ∃ blanks : String, source = blanks ++ rest ∧ (∀ c ∈ blanks.toList, IsBlank c) ∧ Trimmed rest

/-- Reading `source` stops before `rest`, for the cause that `code` stands for. -/
inductive StopsAt (source : String) : SyntaxError → (rest code : String) → Prop where
  | satisfy {rest : String} : TrimsTo source rest → ¬ BeginsReserved rest →
      StopsAt source (.noTerm rest) rest "Satisfy"
  | verify {rest : String} : TrimsTo source rest → BeginsReserved rest →
      StopsAt source (.reservedWord rest) rest "Verify"
  | eof {read rest : String} {e : Expr} : source = read ++ rest → rest ≠ "" → Trimmed rest →
      Expr.parse read = .ok e → StopsAt source (.leftOver rest) rest "Eof"

namespace SyntaxError

variable {rest other code otherCode : String}

theorem report_inj (h : report rest code = report other otherCode) :
    rest = other ∧ code = otherCode := by
  unfold report at h
  simp only [String.append_assoc] at h
  obtain ⟨hrest, hcode⟩ := Text.quote_append_inj ((String.append_right_inj _).mp h)
  exact ⟨hrest, (String.append_left_inj _).mp ((String.append_right_inj _).mp hcode)⟩

theorem report_ne_tooDeep (rest code : String) : report rest code ≠ tooDeep.message := by
  intro h
  have hfirst : (report rest code).toList.head? = tooDeep.message.toList.head? := by rw [h]
  unfold report message at hfirst
  simp at hfirst

/-- No two syntax errors have the same message. -/
theorem message_inj {cause other : SyntaxError} (h : cause.message = other.message) :
    cause = other := by
  cases cause with
  | tooDeep =>
      cases other with
      | tooDeep => rfl
      | _ => exact absurd h.symm (report_ne_tooDeep _ _)
  | noTerm rest =>
      cases other with
      | tooDeep => exact absurd h (report_ne_tooDeep rest _)
      | noTerm other => rw [(report_inj h).1]
      | _ => exact absurd (report_inj h).2 (by decide)
  | reservedWord rest =>
      cases other with
      | tooDeep => exact absurd h (report_ne_tooDeep rest _)
      | reservedWord other => rw [(report_inj h).1]
      | _ => exact absurd (report_inj h).2 (by decide)
  | leftOver rest =>
      cases other with
      | tooDeep => exact absurd h (report_ne_tooDeep rest _)
      | leftOver other => rw [(report_inj h).1]
      | _ => exact absurd (report_inj h).2 (by decide)

end SyntaxError

variable {source : String} {s : List Char}

theorem trimmed_skipSpace (s : List Char) : Trimmed (String.ofList (skipSpace s)) := by
  intro c hc hblank
  rw [String.toList_ofList] at hc
  have hspace : isSpace c = true := isSpace_iff.mpr hblank
  have hhead := List.head?_dropWhile_not isSpace s
  rw [skipSpace] at hc
  simp [hc, hspace] at hhead

theorem trimsTo_skipSpace (source : String) :
    TrimsTo source (String.ofList (skipSpace source.toList)) := by
  obtain ⟨blanks, hs, hblanks⟩ := exists_blanks source.toList
  refine ⟨String.ofList blanks, ?_, by simpa using hblanks, trimmed_skipSpace _⟩
  rw [← String.ofList_append, ← hs, String.ofList_toList]

theorem beginsReserved_iff : BeginsReserved (String.ofList s) ↔
    ∃ word next, nameLike s = some (word, next) ∧ word ∈ reservedWords := by
  simp only [BeginsReserved, String.toList_ofList]
  constructor
  · intro h
    obtain ⟨word, hword, next, hs, hends⟩ := h
    exact ⟨word, next, nameLike_eq_some_iff.mpr ⟨hs, reserved_shape hword, hends⟩, hword⟩
  · intro h
    obtain ⟨word, next, hname, hword⟩ := h
    obtain ⟨hs, -, hends⟩ := nameLike_eq_some_iff.mp hname
    exact ⟨word, hword, next, hs, hends⟩

theorem stopsAt_noTermAt (source : String) :
    ∃ rest code, StopsAt source (noTermAt (skipSpace source.toList)) rest code ∧
      (noTermAt (skipSpace source.toList)).message =
        "Parsing Error: Error \x7b input: " ++ Text.quote rest ++ ", code: " ++ code ++ " \x7d" := by
  have htrims := trimsTo_skipSpace source
  unfold noTermAt
  split
  · next name next hname =>
    split
    · next hreserved =>
      have hbegins := beginsReserved_iff.mpr ⟨name, next, hname, by simpa using hreserved⟩
      exact ⟨_, _, .verify htrims hbegins, rfl⟩
    · next hfree =>
      refine ⟨_, _, .satisfy htrims fun hbegins => ?_, rfl⟩
      obtain ⟨word, other, hword, hmem⟩ := beginsReserved_iff.mp hbegins
      obtain ⟨rfl, -⟩ : name = word ∧ next = other := by simpa [hname] using hword
      exact hfree (by simpa using hmem)
  · next hnone =>
    refine ⟨_, _, .satisfy htrims fun hbegins => ?_, rfl⟩
    obtain ⟨word, other, hword, -⟩ := beginsReserved_iff.mp hbegins
    simp [hnone] at hword

/-- What was read of a text is accepted without the rest. -/
theorem parse_read {e : Expr} {rest : List Char}
    (h : ((level (maxNesting + 1)).disjunction (skipSpace source.toList)).outcome = .value e rest) :
    ∃ read, source = read ++ String.ofList (skipSpace rest) ∧ Expr.parse read = .ok e := by
  obtain ⟨symbols, hsymbols, hitem⟩ := (level_obeys _).disjunction _ e rest h
  have hspelled : Spelled symbols source.toList (skipSpace rest) := by
    simpa using ((Spelled.skipSpace source.toList).append hsymbols).append (Spelled.skipSpace rest)
  obtain ⟨read, hs, hread⟩ := hspelled.cut
  refine ⟨String.ofList read, ?_, parse_eq_ok_iff.mpr ⟨symbols, by simpa using hread, hitem⟩⟩
  rw [← String.ofList_append, ← hs, String.ofList_toList]

/-- A text that is rejected, but not for its nesting, is reported with the rest at which reading it
stops. The message names the rest and the code, and no other error has it. -/
theorem parse_stopsAt {source : String} {cause : SyntaxError}
    (h : Expr.parse source = .error cause) (hcause : cause ≠ .tooDeep) :
    ∃ rest code, StopsAt source cause rest code ∧
      cause.message =
        "Parsing Error: Error \x7b input: " ++ Text.quote rest ++ ", code: " ++ code ++ " \x7d" ∧
      ∀ other : SyntaxError, other.message = cause.message → other = cause := by
  have hunique : ∀ other : SyntaxError, other.message = cause.message → other = cause :=
    fun _ => SyntaxError.message_inj
  rw [parse_eq] at h
  split at h
  · exact absurd (Except.error.inj h).symm hcause
  · obtain rfl := Except.error.inj h
    obtain ⟨rest, code, hstops, hmessage⟩ := stopsAt_noTermAt source
    exact ⟨rest, code, hstops, hmessage, hunique⟩
  · next e rest hread =>
    obtain ⟨read, hsource, haccepted⟩ := parse_read hread
    split at h
    · cases h
    · next hrest =>
      obtain rfl := Except.error.inj h
      have hne : String.ofList (skipSpace rest) ≠ "" := fun hempty => hrest (by simpa using hempty)
      exact ⟨_, _, .eof hsource hne (trimmed_skipSpace rest) haccepted, rfl, hunique⟩

/-- A connective without a member after it is given back, and so are the words after it. -/
theorem parse_stopsAt_connective :
    Expr.parse " a && not in b" = .error (.leftOver "&& not in b") ∧
      (∃ rest code, StopsAt " a && not in b" (.leftOver "&& not in b") rest code ∧
        (SyntaxError.leftOver "&& not in b").message =
          "Parsing Error: Error \x7b input: " ++ Text.quote rest ++ ", code: " ++ code ++ " \x7d" ∧
        ∀ other : SyntaxError, other.message = (SyntaxError.leftOver "&& not in b").message →
          other = .leftOver "&& not in b") ∧
      (SyntaxError.leftOver "&& not in b").message =
        "Parsing Error: Error \x7b input: \"&& not in b\", code: Eof \x7d" := by
  have hparse : (Expr.parse " a && not in b").map (fun _ => ()) =
      .error (.leftOver "&& not in b") := by
    decide +kernel
  have herror := parse_of_map_error hparse
  exact ⟨herror, parse_stopsAt herror (by decide), by decide +kernel⟩

end Rule
end Workplan
