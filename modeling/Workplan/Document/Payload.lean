import Workplan.Document.Basic

/-!
# Payloads

A payload is a Json value that is kept without being looked at. Its objects have distinct keys
in increasing order, which `Document.isOrdered_of_json?` says of every value that is read.
-/

namespace Workplan
namespace Document

theorem membersOrdered_place {key : String} {value : Json} {members : List (String × Json)}
    (hv : value.IsOrdered) (h : Json.MembersOrdered members) :
    Json.MembersOrdered (Dictionary.place key value members) := by
  induction members with
  | nil => exact ⟨hv, trivial⟩
  | cons head rest ih =>
    obtain ⟨other, old⟩ := head
    unfold Dictionary.place
    split
    · exact ⟨hv, h.2⟩
    · split
      · exact ⟨hv, h⟩
      · exact ⟨h.1, ih h.2⟩

mutual

theorem isOrdered_of_json? : (d : Document) → {j : Json} → json? d = some j → j.IsOrdered
  | scalar r, j, h => by
    obtain ⟨a, _, rfl⟩ := Option.map_eq_some_iff.mp (by simpa only [json?] using h)
    cases a <;> trivial
  | sequence style items, j, h => by
    simp only [json?, Option.ite_none_left_eq_some] at h
    obtain ⟨js, hjs, rfl⟩ := Option.map_eq_some_iff.mp h.2
    exact allOrdered_of_jsonAll? items hjs
  | mapping style entries, j, h => by
    simp only [json?, Option.ite_none_left_eq_some] at h
    obtain ⟨ms, hms, rfl⟩ := Option.map_eq_some_iff.mp h.2
    exact ordered_of_jsonMembers? entries List.Pairwise.nil trivial hms
  | unreadable, j, h => by simp [json?] at h

theorem allOrdered_of_jsonAll? : (ds : List Document) → {js : List Json} →
    jsonAll? ds = some js → Json.AllOrdered js
  | [], js, h => by
    cases h
    trivial
  | d :: ds, js, h => by
    unfold jsonAll? at h
    split at h
    · next hd hds =>
      cases h
      exact ⟨isOrdered_of_json? d hd, allOrdered_of_jsonAll? ds hds⟩
    · simp at h

theorem ordered_of_jsonMembers? : (entries : List (Document × Document)) →
    {acc ms : List (String × Json)} → acc.Pairwise (fun a b => a.1 < b.1) →
    Json.MembersOrdered acc → jsonMembers? entries acc = some ms →
    ms.Pairwise (fun a b => a.1 < b.1) ∧ Json.MembersOrdered ms
  | [], acc, ms, hsorted, hmembers, h => by
    cases h
    exact ⟨hsorted, hmembers⟩
  | (key, value) :: rest, acc, ms, hsorted, hmembers, h => by
    unfold jsonMembers? at h
    split at h
    · next hk hv =>
      exact ordered_of_jsonMembers? rest (Dictionary.sorted_place _ _ hsorted)
        (membersOrdered_place (isOrdered_of_json? value hv) hmembers) h
    · simp at h

end

end Document

/-- A Json value that is passed on as it is. -/
structure Payload where
  value : Json
  isOrdered : value.IsOrdered

namespace Payload

def null : Payload := ⟨.null, trivial⟩

instance : Inhabited Payload := ⟨null⟩

def isNull (p : Payload) : Bool :=
  match p.value with
  | .null => true
  | _ => false

def decode (d : Document) : Option Payload :=
  match h : d.json? with
  | some value => some ⟨value, d.isOrdered_of_json? h⟩
  | none => none

end Payload
end Workplan
