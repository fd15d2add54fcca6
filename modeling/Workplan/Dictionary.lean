/-!
# Dictionaries in key order

A finite map from texts to values, stored as entries whose keys strictly increase (by code
point). Each map has one representation, so two dictionaries with the same look-ups are equal.
-/

namespace Workplan

/-- A finite map whose entries stand in strictly increasing order of their keys. -/
structure Dictionary (α : Type) where
  /-- The entries, by increasing key. -/
  toList : List (String × α)
  sorted : toList.Pairwise (fun a b => a.1 < b.1)

namespace Dictionary

variable {α : Type}

/-- Two keys neither of which comes first are the same. -/
theorem eq_of_not_lt {a b : String} (hab : ¬ a < b) (hba : ¬ b < a) : a = b :=
  String.le_antisymm (String.not_lt.mp hba) (String.not_lt.mp hab)

def lookup (key : String) : List (String × α) → Option α
  | [] => none
  | (other, value) :: rest => if key = other then some value else lookup key rest

/-- Puts an entry into its place, in place of one with the same key. -/
def place (key : String) (value : α) : List (String × α) → List (String × α)
  | [] => [(key, value)]
  | (other, old) :: rest =>
    if key = other then (key, value) :: rest
    else if key < other then (key, value) :: (other, old) :: rest
    else (other, old) :: place key value rest

/-- A key after placing is the key placed or an old one. -/
theorem mem_place {key : String} {value : α} {entries : List (String × α)}
    {entry : String × α} (h : entry ∈ place key value entries) :
    entry = (key, value) ∨ entry ∈ entries := by
  induction entries with
  | nil => simpa [place] using h
  | cons head rest ih =>
    obtain ⟨other, old⟩ := head
    unfold place at h
    split at h
    · rcases List.mem_cons.mp h with h | h
      · exact .inl h
      · exact .inr (List.mem_cons_of_mem _ h)
    · split at h
      · rcases List.mem_cons.mp h with h | h
        · exact .inl h
        · exact .inr h
      · rcases List.mem_cons.mp h with h | h
        · exact .inr (h ▸ List.mem_cons_self)
        · exact (ih h).imp id (List.mem_cons_of_mem _)

/-- Placing keeps the order of the keys. -/
theorem sorted_place (key : String) (value : α) {entries : List (String × α)}
    (h : entries.Pairwise (fun a b => a.1 < b.1)) :
    (place key value entries).Pairwise (fun a b => a.1 < b.1) := by
  induction entries with
  | nil => simp [place]
  | cons head rest ih =>
    obtain ⟨other, old⟩ := head
    obtain ⟨hall, hrest⟩ := List.pairwise_cons.mp h
    unfold place
    split
    · next heq => exact List.pairwise_cons.mpr ⟨fun e he => heq ▸ hall e he, hrest⟩
    · split
      · next _ hlt =>
        refine List.pairwise_cons.mpr ⟨fun e he => ?_, h⟩
        rcases List.mem_cons.mp he with rfl | he
        · exact hlt
        · exact String.lt_trans hlt (hall e he)
      · next hne hnlt =>
        refine List.pairwise_cons.mpr ⟨fun e he => ?_, ih hrest⟩
        rcases mem_place he with rfl | he
        · exact Classical.byContradiction fun hn => hne (eq_of_not_lt hnlt hn)
        · exact hall e he

theorem lookup_place (key other : String) (value : α) (entries : List (String × α)) :
    lookup other (place key value entries) =
      if other = key then some value else lookup other entries := by
  induction entries with
  | nil => simp [place, lookup]
  | cons head rest ih =>
    obtain ⟨first, old⟩ := head
    unfold place
    by_cases hk : key = first
    · subst hk
      by_cases ho : other = key <;> simp [lookup, ho]
    · by_cases hl : key < first
      · by_cases ho : other = key <;> simp [hk, hl, lookup, ho]
      · by_cases ho : other = key
        · subst ho
          simp [hk, hl, lookup, ih]
        · simp [hk, hl, lookup, ih, ho]

def empty : Dictionary α := ⟨[], List.Pairwise.nil⟩

instance : Inhabited (Dictionary α) := ⟨empty⟩

def get? (d : Dictionary α) (key : String) : Option α :=
  lookup key d.toList

def contains (d : Dictionary α) (key : String) : Bool :=
  (d.get? key).isSome

def insert (d : Dictionary α) (key : String) (value : α) : Dictionary α :=
  ⟨place key value d.toList, sorted_place key value d.sorted⟩

def size (d : Dictionary α) : Nat :=
  d.toList.length

def keys (d : Dictionary α) : List String :=
  d.toList.map Prod.fst

/-- Sets the entries of a list one after the other, so that the last one of a key stays. -/
def insertAll (d : Dictionary α) (entries : List (String × α)) : Dictionary α :=
  entries.foldl (fun d entry => d.insert entry.1 entry.2) d

def ofList (entries : List (String × α)) : Dictionary α :=
  empty.insertAll entries

@[simp] theorem get?_empty (key : String) : (empty : Dictionary α).get? key = none := rfl

@[simp] theorem get?_insert (d : Dictionary α) (key other : String) (value : α) :
    (d.insert key value).get? other = if other = key then some value else d.get? other :=
  lookup_place key other value d.toList

/-- A dictionary is known by its entries. -/
theorem eq_of_toList_eq {d e : Dictionary α} (h : d.toList = e.toList) : d = e := by
  cases d; cases e; cases h; rfl

instance [DecidableEq α] : DecidableEq (Dictionary α) := fun d e =>
  decidable_of_iff (d.toList = e.toList) ⟨eq_of_toList_eq, fun h => h ▸ rfl⟩

end Dictionary
end Workplan
