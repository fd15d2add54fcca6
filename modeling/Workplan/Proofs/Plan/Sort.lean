import Workplan.Plan.Sort
import Workplan.Proofs.Precedence.Arrange
import Workplan.Proofs.Precedence.Search

/-!
# Sorted steps

Where sorting succeeds, no two steps have one id, each id that a step waits for is the id of a
step, and the precedence among the positions is exactly who waits for whom. So the result is the
first of all arrangements of the steps in which each one comes after those that it waits for.
-/

namespace Workplan
namespace Step

variable {steps sorted : List Step} {ids texts seen : List String} {s t : Step} {g : Precedence}

theorem dependsOn_iff {id : String} : s.dependsOn id = true ↔ ∃ d ∈ s.runAfter, d.id = id := by
  simp [dependsOn]

def placedAt (s : Step) (place : Nat) : Step :=
  { s with order := place }

@[simp] theorem placedAt_id (s : Step) (place : Nat) : (s.placedAt place).id = s.id := rfl

@[simp] theorem placedAt_scope (s : Step) (place : Nat) : (s.placedAt place).scope = s.scope := rfl

@[simp] theorem placedAt_action (s : Step) (place : Nat) : (s.placedAt place).action = s.action := rfl

@[simp] theorem placedAt_module (s : Step) (place : Nat) : (s.placedAt place).module = s.module := rfl

@[simp] theorem placedAt_runAfter (s : Step) (place : Nat) :
    (s.placedAt place).runAfter = s.runAfter := rfl

@[simp] theorem placedAt_order (s : Step) (place : Nat) : (s.placedAt place).order = place := rfl

@[simp] theorem dependsOn_placedAt (s : Step) (place : Nat) (id : String) :
    (s.placedAt place).dependsOn id = s.dependsOn id := rfl

/-- An order of the positions of a list of steps in which each step comes after all the steps
whose ids it waits for. -/
structure Arranges (steps : List Step) (order : List Nat) : Prop where
  perm : order.Perm (List.range steps.length)
  waits : ∀ v p s t, steps[v]? = some s → steps[p]? = some t → s.dependsOn t.id = true →
    order.idxOf p < order.idxOf v

/-! ## Ids and the positions they name -/

theorem firstRepeated?_eq_none :
    firstRepeated? seen texts = none ↔ texts.Nodup ∧ ∀ t ∈ texts, t ∉ seen := by
  induction texts generalizing seen with
  | nil => simp [firstRepeated?]
  | cons t rest ih =>
      by_cases ht : t ∈ seen
      · simp [firstRepeated?, ht]
      · simp only [firstRepeated?, List.contains_iff_mem, ht, if_false, ih, List.nodup_cons,
          List.mem_cons, forall_eq_or_imp, not_or]
        constructor
        · intro ⟨hnodup, hfresh⟩
          exact ⟨⟨fun hmem => (hfresh t hmem).1 rfl, hnodup⟩, not_false, fun x hx => (hfresh x hx).2⟩
        · intro hrest
          obtain ⟨⟨hmem, hnodup⟩, -, hfresh⟩ := hrest
          exact ⟨hnodup, fun x hx => ⟨fun heq => hmem (heq ▸ hx), hfresh x hx⟩⟩

def addPosition (ids : List String) (s : Step) (found : List Nat) (d : Dependency) :
    Except Plan.Error (List Nat) :=
  match ids.findIdx? (· == d.id) with
  | some v => .ok (if found.contains v then found else found ++ [v])
  | none => .error (.unknownDependency s.id d.id)

theorem positions_eq_foldlM (ids : List String) (s : Step) :
    positions ids s = s.runAfter.foldlM (addPosition ids s) [] := rfl

theorem addPosition_ok {start found : List Nat} {d : Dependency}
    (h : addPosition ids s start d = .ok found) :
    ∃ v, ids.findIdx? (· == d.id) = some v ∧ (start.Nodup → found.Nodup) ∧
      ∀ u, u ∈ found ↔ u ∈ start ∨ u = v := by
  unfold addPosition at h
  split at h
  · next v hv =>
    refine ⟨v, hv, ?_⟩
    obtain rfl := Except.ok.inj h
    by_cases hmem : v ∈ start
    · simp only [List.contains_iff_mem, hmem, if_true]
      refine ⟨fun hnodup => hnodup, fun u => ⟨.inl, ?_⟩⟩
      intro hu
      rcases hu with hu | rfl
      · exact hu
      · exact hmem
    · simp only [List.contains_iff_mem, hmem, if_false]
      refine ⟨fun hnodup => ?_, by simp⟩
      refine List.nodup_append.mpr ⟨hnodup, by simp, ?_⟩
      intro u hu w hw huw
      subst huw
      exact hmem (List.mem_singleton.mp hw ▸ hu)
  · cases h

theorem foldlM_addPosition_ok {waits : List Dependency} {start found : List Nat}
    (h : waits.foldlM (addPosition ids s) start = .ok found) :
    (start.Nodup → found.Nodup) ∧
      (∀ d ∈ waits, ∃ v, ids.findIdx? (· == d.id) = some v) ∧
      ∀ u, u ∈ found ↔ u ∈ start ∨ ∃ d ∈ waits, ids.findIdx? (· == d.id) = some u := by
  induction waits generalizing start with
  | nil =>
      obtain rfl := Except.ok.inj h
      simp
  | cons d rest ih =>
      rw [List.foldlM_cons] at h
      cases hd : addPosition ids s start d with
      | error e => simp [hd, bind, Except.bind] at h
      | ok next =>
          rw [hd] at h
          obtain ⟨v, hv, hnodup, hnext⟩ := addPosition_ok hd
          obtain ⟨hnodupRest, hresolved, hfound⟩ := ih h
          refine ⟨hnodupRest ∘ hnodup, ?_, ?_⟩
          · simpa [hv] using hresolved
          · intro u
            simp [hfound u, hnext u, hv, or_assoc, eq_comm]

theorem positions_ok {found : List Nat} (h : positions ids s = .ok found) :
    found.Nodup ∧ (∀ d ∈ s.runAfter, ∃ v, ids.findIdx? (· == d.id) = some v) ∧
      ∀ u, u ∈ found ↔ ∃ d ∈ s.runAfter, ids.findIdx? (· == d.id) = some u := by
  rw [positions_eq_foldlM] at h
  obtain ⟨hnodup, hresolved, hfound⟩ := foldlM_addPosition_ok h
  exact ⟨hnodup List.nodup_nil, hresolved, by simpa using hfound⟩

/-! ## The precedence of a list of steps -/

theorem mapM_ok {α β ε : Type} {f : α → Except ε β} {items : List α} {results : List β}
    (h : items.mapM f = .ok results) :
    results.length = items.length ∧
      ∀ (v : Nat) (a : α), items[v]? = some a → ∃ b, results[v]? = some b ∧ f a = .ok b := by
  induction items generalizing results with
  | nil =>
      obtain rfl := Except.ok.inj h
      simp
  | cons a rest ih =>
      rw [List.mapM_cons] at h
      cases hb : f a with
      | error e => simp [hb, bind, Except.bind] at h
      | ok b =>
          cases hrest : rest.mapM f with
          | error e => simp [hb, hrest, bind, Except.bind] at h
          | ok later =>
              rw [hb, hrest] at h
              obtain rfl := Except.ok.inj h
              obtain ⟨hlength, hget⟩ := ih hrest
              refine ⟨by simp [hlength], ?_⟩
              intro v x hx
              cases v with
              | zero => exact ⟨b, rfl, by simpa [← Option.some.inj hx] using hb⟩
              | succ v => exact hget v x hx

theorem precedence_ok (h : precedence steps = .ok g) :
    g.size = steps.length ∧
      ∀ v s, steps[v]? = some s → positions (steps.map Step.id) s = .ok (g.predecessors v) := by
  unfold precedence at h
  split at h
  · next before hbefore =>
    obtain rfl := Except.ok.inj h
    obtain ⟨hlength, hget⟩ := mapM_ok hbefore
    refine ⟨by simpa [Precedence.size] using hlength, ?_⟩
    intro v s hs
    obtain ⟨found, hfound, hpositions⟩ := hget v s hs
    simpa [Precedence.predecessors, hfound] using hpositions
  · cases h

/-- The position that an id names, if ids are distinct, is that of the step of this id. -/
theorem findIdx?_id {v : Nat} {id : String} (hids : (steps.map Step.id).Nodup) :
    (steps.map Step.id).findIdx? (· == id) = some v ↔ ∃ t, steps[v]? = some t ∧ t.id = id := by
  rw [List.findIdx?_eq_some_iff_getElem]
  constructor
  · intro hv
    obtain ⟨hv, hid, -⟩ := hv
    rw [List.length_map] at hv
    exact ⟨steps[v], List.getElem?_eq_getElem hv, by simpa using hid⟩
  · intro ht
    obtain ⟨t, ht, rfl⟩ := ht
    obtain ⟨hv, rfl⟩ := List.getElem?_eq_some_iff.mp ht
    refine ⟨by simpa using hv, by simp, ?_⟩
    intro p hp hsame
    have hlt : v < (steps.map Step.id).length := by simpa using hv
    have heq : (steps.map Step.id)[p] = (steps.map Step.id)[v] := by
      simpa using hsame
    have hpv := (List.getElem_inj hids).mp heq
    omega

theorem before_precedence_iff (hids : (steps.map Step.id).Nodup) (h : precedence steps = .ok g)
    (p v : Nat) :
    g.Before p v ↔ ∃ s t, steps[v]? = some s ∧ steps[p]? = some t ∧ s.dependsOn t.id = true := by
  obtain ⟨hsize, hpositions⟩ := precedence_ok h
  constructor
  · intro hbefore
    have hv : v < steps.length := hsize ▸ hbefore.lt_size
    have hs := List.getElem?_eq_getElem hv
    obtain ⟨d, hd, hp⟩ := ((positions_ok (hpositions v _ hs)).2.2 p).mp hbefore
    obtain ⟨t, ht, hid⟩ := (findIdx?_id hids).mp hp
    exact ⟨_, t, hs, ht, dependsOn_iff.mpr ⟨d, hd, hid.symm⟩⟩
  · intro ⟨s, t, hs, ht, hwaits⟩
    obtain ⟨d, hd, hid⟩ := dependsOn_iff.mp hwaits
    exact ((positions_ok (hpositions v s hs)).2.2 p).mpr
      ⟨d, hd, (findIdx?_id hids).mpr ⟨t, ht, hid.symm⟩⟩

theorem precedence_wellFormed (hids : (steps.map Step.id).Nodup) (h : precedence steps = .ok g) :
    g.WellFormed where
  lt_size := by
    intro v p hp
    obtain ⟨s, t, -, ht, -⟩ := (before_precedence_iff hids h p v).mp hp
    exact (precedence_ok h).1 ▸ (List.getElem?_eq_some_iff.mp ht).1
  nodup := by
    intro v
    by_cases hv : v < steps.length
    · exact (positions_ok ((precedence_ok h).2 v _ (List.getElem?_eq_getElem hv))).1
    · have hnone : g.predecessors v = [] := List.eq_nil_iff_forall_not_mem.mpr fun p hp =>
        hv ((precedence_ok h).1 ▸ Precedence.Before.lt_size hp)
      rw [hnone]
      exact List.nodup_nil

/-- Keeping to the precedence of steps is arranging them. -/
theorem keeps_precedence_iff {order : List Nat} (hids : (steps.map Step.id).Nodup)
    (h : precedence steps = .ok g) : g.Keeps order ↔ Arranges steps order := by
  have hsize := (precedence_ok h).1
  constructor
  · intro ⟨hperm, hbefore⟩
    exact ⟨hsize ▸ hperm, fun v p s t hs ht hwaits =>
      hbefore v p ((before_precedence_iff hids h p v).mpr ⟨s, t, hs, ht, hwaits⟩)⟩
  · intro ⟨hperm, hwaits⟩
    refine ⟨hsize ▸ hperm, fun v p hbefore => ?_⟩
    obtain ⟨s, t, hs, ht, hst⟩ := (before_precedence_iff hids h p v).mp hbefore
    exact hwaits v p s t hs ht hst

/-! ## Sorting -/

theorem sort_eq_ok :
    sort steps = .ok sorted ↔ (steps.map Step.id).Nodup ∧
      ∃ g, precedence steps = .ok g ∧ g.cycleMember? = none ∧ arranged steps g.arrange = sorted := by
  unfold sort
  split
  · next id hid =>
    have hnot : ¬ (steps.map Step.id).Nodup := fun hnodup => by
      have hnone : firstRepeated? [] (steps.map Step.id) = none :=
        firstRepeated?_eq_none.mpr ⟨hnodup, by simp⟩
      simp [hnone] at hid
    simp [hnot]
  · next hnone =>
    have hnodup := (firstRepeated?_eq_none.mp hnone).1
    cases hg : precedence steps with
    | error e => simp
    | ok g => cases hcycle : g.cycleMember? <;> simp [hnodup, hcycle]

/-- As long as positions differ, each slot is still filled when its turn comes. -/
theorem getElem?_takeOut {slots : Array (Option Step)} {order : List Nat} (hnodup : order.Nodup)
    (h : ∀ v ∈ order, ∃ s, slots[v]? = some (some s)) (start place : Nat) :
    (takeOut slots start order)[place]? =
      order[place]?.bind fun v => slots[v]?.join.map (placedAt · (start + place)) := by
  induction order generalizing slots start place with
  | nil => simp [takeOut]
  | cons v rest ih =>
      obtain ⟨hv, hrest⟩ := List.nodup_cons.mp hnodup
      obtain ⟨s, hs⟩ := h v List.mem_cons_self
      have hkept : ∀ u ∈ rest, (slots.setIfInBounds v none)[u]? = slots[u]? := by
        intro u hu
        have hne : v ≠ u := fun heq => hv (heq ▸ hu)
        exact Array.getElem?_setIfInBounds_ne hne
      have hfilled : ∀ u ∈ rest, ∃ s, (slots.setIfInBounds v none)[u]? = some (some s) := by
        intro u hu
        rw [hkept u hu]
        exact h u (List.mem_cons_of_mem _ hu)
      simp only [takeOut, hs, Option.join_some]
      cases place with
      | zero => simp [hs, placedAt]
      | succ place =>
          rw [List.getElem?_cons_succ, List.getElem?_cons_succ, ih hrest hfilled]
          cases hu : rest[place]? with
          | none => rfl
          | some u =>
              simp [hkept u (List.mem_of_getElem? hu), Nat.add_comm, Nat.add_left_comm]

/-- The steps at an order of positions, each one with its new place. -/
theorem getElem?_arranged {order : List Nat} (hperm : order.Perm (List.range steps.length))
    (place : Nat) :
    (arranged steps order)[place]? =
      order[place]?.bind fun v => steps[v]?.map (placedAt · place) := by
  have hfilled : ∀ v ∈ order, ∃ s, (steps.map some).toArray[v]? = some (some s) := by
    intro v hv
    have hlt := List.mem_range.mp (hperm.mem_iff.mp hv)
    exact ⟨steps[v], by simp [hlt]⟩
  rw [arranged, getElem?_takeOut (hperm.nodup_iff.mpr List.nodup_range) hfilled]
  cases order[place]? with
  | none => rfl
  | some v => cases hs : steps[v]? <;> simp [hs]

/-- No step is lost. -/
theorem length_arranged {order : List Nat} (hperm : order.Perm (List.range steps.length)) :
    (arranged steps order).length = steps.length := by
  have hlength : ∀ place, (arranged steps order).length ≤ place ↔ steps.length ≤ place := by
    intro place
    rw [← List.getElem?_eq_none_iff, getElem?_arranged hperm, ← List.length_range (n := steps.length),
      ← hperm.length_eq, ← List.getElem?_eq_none_iff]
    cases hv : order[place]? with
    | none => simp
    | some v =>
        have hlt := List.mem_range.mp (hperm.mem_iff.mp (List.mem_of_getElem? hv))
        simp [hlt]
  exact Nat.le_antisymm ((hlength _).mpr (Nat.le_refl _)) ((hlength _).mp (Nat.le_refl _))

/-- The steps of an arrangement are the given ones, each one placed where its position stands. -/
theorem mem_arranged_iff {order : List Nat} (hperm : order.Perm (List.range steps.length)) :
    s ∈ arranged steps order ↔
      ∃ (v : Nat) (t : Step), steps[v]? = some t ∧ s = t.placedAt (order.idxOf v) := by
  have hnodup : order.Nodup := hperm.nodup_iff.mpr List.nodup_range
  rw [List.mem_iff_getElem?]
  constructor
  · intro ⟨place, hs⟩
    rw [getElem?_arranged hperm] at hs
    obtain ⟨v, hv, hs⟩ := Option.bind_eq_some_iff.mp hs
    obtain ⟨t, ht, rfl⟩ := Option.map_eq_some_iff.mp hs
    obtain ⟨hplace, rfl⟩ := List.getElem?_eq_some_iff.mp hv
    exact ⟨_, t, ht, by rw [hnodup.idxOf_getElem]⟩
  · intro hs
    obtain ⟨v, t, ht, rfl⟩ := hs
    have hmem : v ∈ order :=
      hperm.mem_iff.mpr (List.mem_range.mpr (List.getElem?_eq_some_iff.mp ht).1)
    refine ⟨order.idxOf v, ?_⟩
    simp [getElem?_arranged hperm, List.getElem?_idxOf hmem, ht]

theorem sort_arranges (h : sort steps = .ok sorted) :
    (steps.map Step.id).Nodup ∧ (∀ s ∈ steps, ∀ d ∈ s.runAfter, ∃ t ∈ steps, t.id = d.id) ∧
      ∃ order, Arranges steps order ∧
        (∀ other, Arranges steps other → order = other ∨ List.Lex (· < ·) order other) ∧
        arranged steps order = sorted := by
  obtain ⟨hids, g, hg, hcycle, hsorted⟩ := sort_eq_ok.mp h
  have hwellFormed := precedence_wellFormed hids hg
  obtain ⟨hkeeps, hleast⟩ :=
    Precedence.arrange_least hwellFormed (Precedence.wellFounded_before hwellFormed hcycle)
  refine ⟨hids, ?_, g.arrange, (keeps_precedence_iff hids hg).mp hkeeps, ?_, hsorted⟩
  · intro s hs d hd
    obtain ⟨v, hv⟩ := List.mem_iff_getElem?.mp hs
    obtain ⟨p, hp⟩ := (positions_ok ((precedence_ok hg).2 v s hv)).2.1 d hd
    obtain ⟨t, ht, hid⟩ := (findIdx?_id hids).mp hp
    exact ⟨t, List.mem_of_getElem? ht, hid⟩
  · intro other hother
    exact hleast other ((keeps_precedence_iff hids hg).mpr hother)

/-- `sorted` holds the steps in the order of positions `order`, which is the first, position by
position, of those that respect who waits for whom. -/
structure SortedBy (steps : List Step) (order : List Nat) (sorted : List Step) : Prop where
  perm : order.Perm (List.range steps.length)
  length : sorted.length = steps.length
  place : ∀ place v, order[place]? = some v →
    ∃ s : Step, steps[v]? = some s ∧ sorted[place]? = some (s.placedAt place)
  after : ∀ s ∈ sorted, ∀ d ∈ s.runAfter,
    (∃ t ∈ sorted, t.id = d.id) ∧ ∀ t ∈ sorted, t.id = d.id → t.order < s.order
  arranges : Arranges steps order
  least : ∀ other, Arranges steps other → order = other ∨ List.Lex (· < ·) order other

theorem sort_sortedBy (h : sort steps = .ok sorted) : ∃ order, SortedBy steps order sorted := by
  obtain ⟨-, hresolved, order, harranges, hleast, rfl⟩ := sort_arranges h
  have hlt : ∀ v ∈ order, v < steps.length := fun v hv =>
    List.mem_range.mp (harranges.perm.mem_iff.mp hv)
  refine ⟨order, harranges.perm, ?_, ?_, ?_, harranges, hleast⟩
  · exact length_arranged harranges.perm
  · intro place v hv
    have hs := List.getElem?_eq_getElem (hlt v (List.mem_of_getElem? hv))
    exact ⟨_, hs, by simp [getElem?_arranged harranges.perm, hv, hs]⟩
  · intro s hs d hd
    obtain ⟨v, s, hv, rfl⟩ := (mem_arranged_iff harranges.perm).mp hs
    constructor
    · obtain ⟨t, ht, hid⟩ := hresolved s (List.mem_of_getElem? hv) d hd
      obtain ⟨p, hp⟩ := List.mem_iff_getElem?.mp ht
      exact ⟨_, (mem_arranged_iff harranges.perm).mpr ⟨p, t, hp, rfl⟩, hid⟩
    · intro t ht hid
      obtain ⟨p, t, hp, rfl⟩ := (mem_arranged_iff harranges.perm).mp ht
      exact harranges.waits v p s t hv hp (dependsOn_iff.mpr ⟨d, hd, hid.symm⟩)

def waiting (id : String) (waits : List String) : Step where
  id
  name := id
  stage := ""
  scope := .project
  action := id
  module := none
  runAfter := waits.map fun wait => ⟨wait, wait⟩
  order := 0
  config := .null

/-- The first step waits, twice, for a later one, which itself waits. -/
theorem sort_sortedBy_late_dependencies :
    ∃ sorted order,
      sort [waiting "a" ["c", "c"], waiting "b" [], waiting "c" ["b"], waiting "d" []] = .ok sorted ∧
      sorted.map Step.id = ["b", "c", "a", "d"] ∧
      SortedBy [waiting "a" ["c", "c"], waiting "b" [], waiting "c" ["b"], waiting "d" []]
        order sorted := by
  have hsort : sort [waiting "a" ["c", "c"], waiting "b" [], waiting "c" ["b"], waiting "d" []] =
      .ok [(waiting "b" []).placedAt 0, (waiting "c" ["b"]).placedAt 1,
        (waiting "a" ["c", "c"]).placedAt 2, (waiting "d" []).placedAt 3] := rfl
  obtain ⟨order, horder⟩ := sort_sortedBy hsort
  exact ⟨_, order, hsort, rfl, horder⟩

end Step
end Workplan
