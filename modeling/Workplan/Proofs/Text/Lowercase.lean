import Mathlib
import Workplan.Text.Lowercase

/-!
# ASCII in lower case

A text in lower case has no capital of ASCII, whether a letter was one of ASCII before or not. What
is of ASCII and has no capitals is in lower case already.
-/

namespace Workplan
namespace Text

variable {s : List Char} {c d : Char}

/-- The table leads nowhere below the small letters of ASCII, and so to none of its capitals. -/
theorem le_of_mem_lowercaseRuns :
    ∀ entry ∈ lowercaseRuns, 0x5B ≤ (entry.1 : Int) + entry.2.2.2 := by
  decide +kernel

theorem isUpper_iff : c.isUpper = true ↔ 65 ≤ c.toNat ∧ c.toNat ≤ 90 := by
  rw [Char.isUpper, decide_eq_true_eq]
  rfl

theorem isUpper_ofNat {n : Nat} (h : 0x5B ≤ n) : (Char.ofNat n).isUpper = false := by
  have hval := Char.toNat_ofNat n
  rw [Bool.eq_false_iff, ne_eq, isUpper_iff]
  split at hval <;> omega

theorem isUpper_of_not_ascii (h : ¬c.toNat < 0x80) : c.isUpper = false := by
  rw [Bool.eq_false_iff, ne_eq, isUpper_iff]
  omega

theorem isUpper_of_mem_lowercaseChar (h : d ∈ lowercaseChar c) :
    d.isUpper = false := by
  unfold lowercaseChar at h
  split at h
  · rw [List.mem_singleton.mp h]
    exact Char.isUpper_toLower_eq_false c
  · next hascii =>
      split at h
      · rcases List.mem_pair.mp h with rfl | rfl <;> rfl
      · split at h
        · next first last step shift hfind =>
            have hentry : 0x5B ≤ (first : Int) + shift :=
              le_of_mem_lowercaseRuns _ (Array.mem_of_find?_eq_some hfind)
            have hfound := Array.find?_some hfind
            simp only [Bool.and_eq_true, decide_eq_true_eq] at hfound
            rw [List.mem_singleton.mp h]
            exact isUpper_ofNat (by omega)
        · rw [List.mem_singleton.mp h]
          exact isUpper_of_not_ascii hascii

theorem isUpper_of_mem_lowercase (h : c ∈ lowercase s) : c.isUpper = false := by
  obtain ⟨_, -, hc⟩ := List.mem_flatMap.mp h
  exact isUpper_of_mem_lowercaseChar hc

/-- ASCII without capitals is in lower case already. -/
theorem lowercase_eq_self (h : ∀ c ∈ s, c.toNat < 0x80 ∧ c.isUpper = false) :
    lowercase s = s := by
  induction s with
  | nil => rfl
  | cons c rest ih =>
      obtain ⟨⟨hascii, hlower⟩, hrest⟩ := List.forall_mem_cons.mp h
      have hchar : lowercaseChar c = [c] := by
        rw [lowercaseChar, if_pos hascii, Char.toLower_eq_of_not_isUpper (by simp [hlower])]
      show lowercaseChar c ++ lowercase rest = c :: rest
      rw [hchar, ih hrest, List.singleton_append]

end Text
end Workplan
