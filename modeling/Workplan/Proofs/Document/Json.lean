import Workplan.Document.Content
import Workplan.Document.Payload
import Workplan.Document.Record
import Workplan.Document.Shape

/-!
# Documents of Json values

What decoders find in the document of a Json value: the items of an array as those of a list, the
members of an object as the fields of a record, in whatever order they stand, and, where keys
increase, the value itself. So what is written is read back (`Document.Reads`) wherever its parts
are, as it was written or with its members sorted.
-/

namespace Workplan

/-! ## Entries in order -/

namespace Dictionary

variable {α β : Type} {key : String} {value : α} {entries : List (String × α)}

/-- What comes after all entries is placed at the end. -/
theorem place_of_forall_lt (h : ∀ entry ∈ entries, entry.1 < key) :
    place key value entries = entries ++ [(key, value)] := by
  induction entries with
  | nil => rfl
  | cons entry rest ih =>
      obtain ⟨hlt, hrest⟩ := List.forall_mem_cons.mp h
      have hne : ¬ key = entry.1 := fun heq => String.lt_irrefl _ (heq ▸ hlt)
      have hnlt : ¬ key < entry.1 := fun hgt => String.lt_irrefl _ (String.lt_trans hlt hgt)
      rw [place, if_neg hne, if_neg hnlt, ih hrest, List.cons_append]

/-- What comes before all entries is placed in front. -/
theorem place_of_forall_gt (h : ∀ entry ∈ entries, key < entry.1) :
    place key value entries = (key, value) :: entries := by
  cases entries with
  | nil => rfl
  | cons entry rest =>
      have hlt := h entry List.mem_cons_self
      have hne : ¬ key = entry.1 := fun heq => String.lt_irrefl _ (heq ▸ hlt)
      rw [place, if_neg hne, if_pos hlt]

theorem place_perm (h : key ∉ entries.map Prod.fst) :
    (place key value entries).Perm ((key, value) :: entries) := by
  induction entries with
  | nil => rfl
  | cons entry rest ih =>
      obtain ⟨hne, hrest⟩ := not_or.mp (mt List.mem_cons.mpr h)
      rw [place, if_neg hne]
      split
      · rfl
      · exact ((ih hrest).cons entry).trans (.swap _ _ _)

theorem place_map (f : α → β) :
    place key (f value) (entries.map fun entry => (entry.1, f entry.2)) =
      (place key value entries).map fun entry => (entry.1, f entry.2) := by
  induction entries with
  | nil => rfl
  | cons entry rest ih =>
      rw [List.map_cons, place, place, ih]
      split
      · rfl
      · split <;> rfl

/-- Entries that continue a dictionary in order are added at its end. -/
theorem toList_insertAll {d : Dictionary α}
    (h : (d.toList ++ entries).Pairwise fun a b => a.1 < b.1) :
    (d.insertAll entries).toList = d.toList ++ entries := by
  induction entries generalizing d with
  | nil => simp [insertAll]
  | cons entry rest ih =>
      have hlast : (d.insert entry.1 entry.2).toList = d.toList ++ [entry] :=
        place_of_forall_lt fun other hother =>
          (List.pairwise_append.mp h).2.2 other hother entry List.mem_cons_self
      rw [insertAll, List.foldl_cons, ← insertAll, ih, hlast, List.append_assoc]
      · rfl
      · rwa [hlast, List.append_assoc]

/-- A dictionary is made again from its entries. -/
theorem ofList_toList (d : Dictionary α) : ofList d.toList = d :=
  eq_of_toList_eq (toList_insertAll d.sorted)

end Dictionary

namespace Json

def byKey (members : List (String × Json)) : List (String × Json) :=
  members.foldr (fun member sorted => Dictionary.place member.1 member.2 sorted) []

theorem byKey_perm {members : List (String × Json)} (h : (members.map Prod.fst).Nodup) :
    (byKey members).Perm members := by
  induction members with
  | nil => rfl
  | cons member rest ih =>
      obtain ⟨hmember, hrest⟩ := List.nodup_cons.mp h
      have hperm := ih hrest
      have hfresh : member.1 ∉ (byKey rest).map Prod.fst :=
        fun hmem => hmember ((hperm.map _).mem_iff.mp hmem)
      exact (Dictionary.place_perm hfresh).trans (hperm.cons _)

theorem membersOrdered_texts (entries : List (String × String)) :
    MembersOrdered (entries.map fun entry => (entry.1, .text entry.2)) := by
  induction entries with
  | nil => trivial
  | cons entry rest ih => exact ⟨trivial, ih⟩

mutual

/-- The value with the members of each object sorted by their keys. -/
def sorted : Json → Json
  | array items => array (sortedAll items)
  | object members => object (sortedMembers members)
  | j => j

def sortedAll : List Json → List Json
  | [] => []
  | item :: rest => sorted item :: sortedAll rest

def sortedMembers : List (String × Json) → List (String × Json)
  | [] => []
  | (key, value) :: rest => Dictionary.place key (sorted value) (sortedMembers rest)

end

theorem sortedAll_eq_map (items : List Json) : sortedAll items = items.map sorted := by
  induction items with
  | nil => rfl
  | cons item rest ih => rw [sortedAll, ih, List.map_cons]

theorem sortedMembers_eq (members : List (String × Json)) :
    sortedMembers members = (byKey members).map fun member => (member.1, member.2.sorted) := by
  induction members with
  | nil => rfl
  | cons member rest ih =>
      rw [sortedMembers, ih, Dictionary.place_map]
      rfl

mutual

/-- A value in order stays as it is. -/
theorem sorted_of_isOrdered : (j : Json) → j.IsOrdered → j.sorted = j
  | null, _ => rfl
  | bool _, _ => rfl
  | number _, _ => rfl
  | text _, _ => rfl
  | array items, h => by rw [sorted, sortedAll_of_allOrdered items h]
  | object members, h => by rw [sorted, sortedMembers_of_ordered members h.1 h.2]

theorem sortedAll_of_allOrdered : (items : List Json) → AllOrdered items →
    sortedAll items = items
  | [], _ => rfl
  | item :: rest, h => by
      rw [sortedAll, sorted_of_isOrdered item h.1, sortedAll_of_allOrdered rest h.2]

theorem sortedMembers_of_ordered : (members : List (String × Json)) →
    members.Pairwise (fun a b => a.1 < b.1) → MembersOrdered members →
    sortedMembers members = members
  | [], _, _ => rfl
  | (key, value) :: rest, hsorted, h => by
      obtain ⟨hfirst, hrest⟩ := List.pairwise_cons.mp hsorted
      rw [sortedMembers, sorted_of_isOrdered value h.1, sortedMembers_of_ordered rest hrest h.2]
      exact Dictionary.place_of_forall_gt hfirst

end

end Json

namespace Document

theorem ofJsonAll_eq_map (items : List Json) : ofJsonAll items = items.map ofJson := by
  induction items with
  | nil => rfl
  | cons item rest ih => rw [ofJsonAll, ih, List.map_cons]

theorem ofJsonMembers_eq_map (members : List (String × Json)) :
    ofJsonMembers members = members.map fun member =>
      (ofAtom (.text member.1), ofJson member.2) := by
  induction members with
  | nil => rfl
  | cons member rest ih => rw [ofJsonMembers, ih, List.map_cons]

mutual

/-- A value in order is found as it is. -/
theorem json?_ofJson : (j : Json) → j.IsOrdered → (ofJson j).json? = some j
  | .null, _ => rfl
  | .bool _, _ => rfl
  | .number _, _ => rfl
  | .text _, _ => rfl
  | .array items, h => by
      rw [ofJson, json?, if_neg (by decide), jsonAll?_ofJsonAll items h]
      rfl
  | .object members, h => by
      rw [ofJson, json?, if_neg (by decide), jsonMembers?_ofJsonMembers members [] h.1 h.2]
      rfl

theorem jsonAll?_ofJsonAll : (items : List Json) → Json.AllOrdered items →
    jsonAll? (ofJsonAll items) = some items
  | [], _ => rfl
  | item :: rest, h => by
      rw [ofJsonAll, jsonAll?, json?_ofJson item h.1, jsonAll?_ofJsonAll rest h.2]

/-- Members that continue those found before in order are added to them. -/
theorem jsonMembers?_ofJsonMembers : (members found : List (String × Json)) →
    (found ++ members).Pairwise (fun a b => a.1 < b.1) → Json.MembersOrdered members →
    jsonMembers? (ofJsonMembers members) found = some (found ++ members)
  | [], found, _, _ => by
      rw [List.append_nil]
      rfl
  | (key, value) :: rest, found, hsorted, h => by
      have hlast : Dictionary.place key value found = found ++ [(key, value)] :=
        Dictionary.place_of_forall_lt fun other hother =>
          (List.pairwise_append.mp hsorted).2.2 other hother _ List.mem_cons_self
      rw [List.append_cons, ← hlast] at hsorted ⊢
      rw [ofJsonMembers, jsonMembers?, json?_ofJson value h.1]
      exact jsonMembers?_ofJsonMembers rest _ hsorted h.2

end

/-! ## Documents that show a value -/

/-- A way to make documents of Json values that keeps what they say: items stay in their order,
members may stand in any order. -/
structure Faithful (view : Json → Document) : Prop where
  ordered : ∀ j : Json, j.IsOrdered → view j = ofJson j
  array : ∀ items, view (.array items) = sequence .json (items.map view)
  object : ∀ members : List (String × Json), (members.map Prod.fst).Nodup →
    ∃ entries : List (String × Json), entries.Perm members ∧ view (.object members) =
      mapping .json (entries.map fun entry => (ofAtom (.text entry.1), view entry.2))

theorem faithful_ofJson : Faithful ofJson where
  ordered := fun _ _ => rfl
  array := fun items => by rw [ofJson, ofJsonAll_eq_map]
  object := fun members _ => ⟨members, .refl _, by rw [ofJson, ofJsonMembers_eq_map]⟩

theorem faithful_sorted : Faithful fun j => ofJson j.sorted where
  ordered := fun j h => by rw [Json.sorted_of_isOrdered j h]
  array := by
    intro items
    rw [Json.sorted, ofJson, ofJsonAll_eq_map, Json.sortedAll_eq_map, List.map_map]
    rfl
  object := by
    intro members h
    refine ⟨Json.byKey members, Json.byKey_perm h, ?_⟩
    rw [Json.sorted, ofJson, ofJsonMembers_eq_map, Json.sortedMembers_eq, List.map_map]
    rfl

def Reads {α : Type} (view : Json → Document) (decode : Document → Option α) (encode : α → Json) :
    Prop :=
  ∀ a, decode (view (encode a)) = some a

section Parts

variable {α : Type} {view : Json → Document} {decode : Document → Option α} {encode : α → Json}
  {members : List (String × Json)}

@[simp] theorem required_some (d : Document) : required decode (some d) = decode d := rfl

@[simp] theorem orElse_some (default : α) (d : Document) :
    orElse default decode (some d) = decode d := rfl

@[simp] theorem orElse_none (default : α) : orElse default decode none = some default := rfl

@[simp] theorem names_record (fields : List (String × Shape)) :
    (Shape.record fields).names = fields.map Prod.fst := rfl

@[simp] theorem names_plainRecord (names : List String) :
    (Shape.plainRecord names).names = names := by
  simp [Shape.plainRecord, Function.comp_def]

theorem table?_mapping (f : Json → Document) :
    (mapping .json (members.map fun member => (ofAtom (.text member.1), f member.2))).table? =
      some (members.map fun member => (member.1, f member.2)) := by
  rw [table?, List.mapM_map]
  exact List.mapM_pure

theorem filter_key_eq (h : (members.map Prod.fst).Nodup) (name : String) :
    members.filter (·.1 == name) = ((members.lookup name).map (name, ·)).toList := by
  induction members with
  | nil => rfl
  | cons member rest ih =>
      obtain ⟨hmember, hrest⟩ := List.nodup_cons.mp h
      by_cases hname : member.1 = name
      · have hnone : rest.filter (·.1 == name) = [] :=
          List.filter_eq_nil_iff.mpr fun other hother heq =>
            hmember (List.mem_map.mpr ⟨other, hother, (eq_of_beq heq).trans hname.symm⟩)
        obtain ⟨key, value⟩ := member
        obtain rfl : key = name := hname
        rw [List.filter_cons_of_pos (by simp), hnone, List.lookup_cons_self]
        rfl
      · have hother : (name == member.1) = false := beq_false_of_ne (Ne.symm hname)
        rw [List.filter_cons_of_neg (by simpa using hname), ih hrest, List.lookup_cons, hother]

/-- What is found under a key does not depend on the order of the members. -/
theorem field?_of_perm (h : (members.map Prod.fst).Nodup) {entries : List (String × Json)}
    (hperm : entries.Perm members) (f : Json → Document) (name : String) :
    field? name (entries.map fun entry => (entry.1, f entry.2)) =
      some ((members.lookup name).map f) := by
  have hfilter := hperm.filter (·.1 == name)
  rw [filter_key_eq h] at hfilter
  rw [field?, List.filter_map]
  cases hlookup : members.lookup name with
  | none =>
      rw [hlookup] at hfilter
      have hnone := List.perm_nil.mp hfilter
      simp [Function.comp_def, hnone]
  | some value =>
      rw [hlookup] at hfilter
      have hone := List.perm_singleton.mp hfilter
      simp [Function.comp_def, hone]

variable (hview : Faithful view)

include hview

theorem Faithful.view_text (s : String) : view (.text s) = ofAtom (.text s) :=
  hview.ordered _ trivial

theorem Faithful.reads_text : Reads view text? .text := by
  intro s
  rw [hview.view_text]
  rfl

theorem Faithful.reads_bool : Reads view bool? .bool := by
  intro b
  rw [hview.ordered (.bool b) trivial]
  rfl

/-- A text is read where it may be absent, too. -/
theorem Faithful.reads_optionalText (s : String) :
    optionalText? (view (.text s)) = some (some s) := by
  rw [hview.view_text]
  rfl

theorem Faithful.reads_list (h : Reads view decode encode) :
    Reads view (listOf decode) fun items => .array (items.map encode) := by
  intro items
  have hitem : decode ∘ view ∘ encode = fun a => pure (id a) := funext h
  rw [hview.array, List.map_map]
  simp only [listOf, list?, List.mapM_map, hitem, List.mapM_pure, List.map_id]
  rfl

theorem Faithful.reads_texts : Reads view (listOf text?) .ofTexts :=
  hview.reads_list hview.reads_text

/-- The fields of a record are found in the object with its members. -/
theorem Faithful.fields?_object (h : (members.map Prod.fst).Nodup) (names : List String) :
    fields? names (view (.object members)) =
      some (names.map fun name => (members.lookup name).map view) := by
  obtain ⟨entries, hperm, hentries⟩ := hview.object members h
  rw [hentries]
  simp only [fields?, table?_mapping, field?_of_perm h hperm]
  exact List.mapM_pure

end Parts

end Document

theorem Payload.reads {view : Json → Document} (hview : Document.Faithful view) :
    Document.Reads view decode value := by
  intro p
  have hjson := Document.json?_ofJson p.value p.isOrdered
  rw [hview.ordered p.value p.isOrdered]
  unfold decode
  split
  · next value hvalue =>
    obtain rfl : value = p.value := Option.some.inj (hvalue.symm.trans hjson)
    rfl
  · next hnone => cases hnone.symm.trans hjson

end Workplan
