import Workplan.Proofs.Plan.Sort
import Workplan.Proofs.Precedence.Cycle

/-!
# Why steps cannot be sorted

Sorting looks at three things in turn: whether an id is repeated, whether an id that a step waits
for is missing, and whether steps wait for each other in a circle. It fails at the first of these
that is the case, names where it is, and succeeds if none is.
-/

namespace Workplan
namespace Step

open Relation (TransGen)

variable {steps : List Step} {ids texts seen : List String} {s : Step} {g : Precedence}
  {e : Plan.Error} {p v : Nat}

/-- `text` is the first one of the list that stands there for a second time. -/
def RepeatedFirst (texts : List String) (text : String) : Prop :=
  ∃ before after, texts = before ++ text :: after ∧ text ∈ before ∧ before.Nodup

def entries (steps : List Step) : List (Step × Dependency) :=
  steps.flatMap fun s => s.runAfter.map fun d => (s, d)

/-- The entry of `step` for `dependency` is the first one that names an id that no step has. -/
def UnknownFirst (steps : List Step) (step dependency : String) : Prop :=
  ∃ before s d after, entries steps = before ++ (s, d) :: after ∧ s.id = step ∧
    d.id = dependency ∧ (∀ t ∈ steps, t.id ≠ d.id) ∧ ∀ x ∈ before, ∃ t ∈ steps, t.id = x.2.id

/-- Each entry names the id of a step. -/
def Resolved (steps : List Step) : Prop :=
  ∀ s ∈ steps, ∀ d ∈ s.runAfter, ∃ t ∈ steps, t.id = d.id

/-- The step at `v` waits for the step at `p`. -/
def Precedes (steps : List Step) (p v : Nat) : Prop :=
  ∃ s t, steps[v]? = some s ∧ steps[p]? = some t ∧ s.dependsOn t.id = true

/-- What becomes of a list of steps: they are sorted, or the first thing that is wrong is named. -/
structure Judged (steps : List Step) (result : Except Plan.Error (List Step)) : Prop where
  duplicate : ∀ id, result = .error (.duplicateStep id) ↔ RepeatedFirst (steps.map Step.id) id
  exists_duplicate : (∃ id, result = .error (.duplicateStep id)) ↔ ¬ (steps.map Step.id).Nodup
  unknown : ∀ step dependency, result = .error (.unknownDependency step dependency) ↔
    (steps.map Step.id).Nodup ∧ UnknownFirst steps step dependency
  exists_unknown : (∃ step dependency, result = .error (.unknownDependency step dependency)) ↔
    (steps.map Step.id).Nodup ∧ ¬ Resolved steps
  exists_cyclic : (∃ id, result = .error (.cyclicDependency id)) ↔
    (steps.map Step.id).Nodup ∧ Resolved steps ∧ ∃ v, TransGen (Precedes steps) v v
  /-- The step that is named lies on a cycle. -/
  cyclic : ∀ id, result = .error (.cyclicDependency id) →
    ∃ v s, steps[v]? = some s ∧ s.id = id ∧ TransGen (Precedes steps) v v
  sorted : (∃ sorted, result = .ok sorted) ↔
    (steps.map Step.id).Nodup ∧ Resolved steps ∧ ∀ v, ¬ TransGen (Precedes steps) v v

/-! ## Repeated ids -/

theorem firstRepeated?_eq_some {text : String} :
    firstRepeated? seen texts = some text ↔
      ∃ before after, texts = before ++ text :: after ∧ (text ∈ before ∨ text ∈ seen) ∧
        before.Nodup ∧ ∀ t ∈ before, t ∉ seen := by
  induction texts generalizing seen with
  | nil => simp [firstRepeated?]
  | cons t rest ih =>
      by_cases ht : t ∈ seen
      · simp only [firstRepeated?, List.contains_iff_mem, ht, if_true, Option.some.injEq]
        constructor
        · intro h
          subst h
          exact ⟨[], rest, rfl, .inr ht, List.nodup_nil, by simp⟩
        · intro h
          obtain ⟨before, after, heq, -, -, hfresh⟩ := h
          cases before with
          | nil => exact (List.cons.inj heq).1
          | cons x before =>
              obtain ⟨rfl, -⟩ := List.cons.inj heq
              exact absurd ht (hfresh t List.mem_cons_self)
      · simp only [firstRepeated?, List.contains_iff_mem, ht, if_false, ih]
        constructor
        · intro h
          obtain ⟨before, after, rfl, htext, hnodup, hfresh⟩ := h
          have hne : t ∉ before := fun hmem => hfresh t hmem List.mem_cons_self
          refine ⟨t :: before, after, rfl, ?_, List.nodup_cons.mpr ⟨hne, hnodup⟩, ?_⟩
          · simpa [or_comm, or_left_comm, or_assoc] using htext
          · intro x hx
            rcases List.mem_cons.mp hx with rfl | hx
            · exact ht
            · exact fun hseen => hfresh x hx (List.mem_cons_of_mem _ hseen)
        · intro h
          obtain ⟨before, after, heq, htext, hnodup, hfresh⟩ := h
          cases before with
          | nil =>
              obtain ⟨rfl, -⟩ := List.cons.inj heq
              simp [ht] at htext
          | cons x before =>
              obtain ⟨rfl, rfl⟩ := List.cons.inj heq
              obtain ⟨hne, hnodup⟩ := List.nodup_cons.mp hnodup
              refine ⟨before, after, rfl, ?_, hnodup, ?_⟩
              · simpa [or_comm, or_left_comm, or_assoc] using htext
              · intro y hy hseen
                rcases List.mem_cons.mp hseen with rfl | hseen
                · exact hne hy
                · exact hfresh y (List.mem_cons_of_mem _ hy) hseen

theorem firstRepeated?_nil_eq_some {text : String} :
    firstRepeated? [] texts = some text ↔ RepeatedFirst texts text := by
  simp [firstRepeated?_eq_some, RepeatedFirst]

/-- A list has repetitions exactly if some text is the first one that is repeated. -/
theorem exists_repeatedFirst : (∃ text, RepeatedFirst texts text) ↔ ¬ texts.Nodup := by
  have hnone : firstRepeated? [] texts = none ↔ texts.Nodup := by
    simp [firstRepeated?_eq_none]
  rw [← hnone, ← ne_eq, Option.ne_none_iff_exists']
  exact exists_congr fun text => firstRepeated?_nil_eq_some.symm

/-! ## Unknown dependencies -/

def isUnknown (ids : List String) (d : Dependency) : Bool :=
  !ids.contains d.id

theorem isUnknown_iff {d : Dependency} :
    isUnknown (steps.map Step.id) d = true ↔ ∀ t ∈ steps, t.id ≠ d.id := by
  simp [isUnknown]

theorem addPosition_eq (ids : List String) (s : Step) (found : List Nat) (d : Dependency) :
    if isUnknown ids d then addPosition ids s found d = .error (.unknownDependency s.id d.id)
    else ∃ next, addPosition ids s found d = .ok next := by
  unfold addPosition
  cases hv : ids.findIdx? (· == d.id) with
  | none =>
      have hmissing : d.id ∉ ids := fun hmem => by
        simpa using List.findIdx?_eq_none_iff.mp hv d.id hmem
      simp [isUnknown, hmissing]
  | some v =>
      obtain ⟨hlt, heq, -⟩ := List.findIdx?_eq_some_iff_getElem.mp hv
      have hmem : d.id ∈ ids := eq_of_beq heq ▸ List.getElem_mem hlt
      simp [isUnknown, hmem]

/-- Looking positions up stops at the first unknown entry. -/
theorem foldlM_addPosition (ids : List String) (s : Step) (waits : List Dependency)
    (start : List Nat) :
    match waits.find? (isUnknown ids) with
    | some d => waits.foldlM (addPosition ids s) start = .error (.unknownDependency s.id d.id)
    | none => ∃ found, waits.foldlM (addPosition ids s) start = .ok found := by
  induction waits generalizing start with
  | nil => exact ⟨start, rfl⟩
  | cons d rest ih =>
      have hd := addPosition_eq ids s start d
      rw [List.find?_cons, List.foldlM_cons]
      cases hunknown : isUnknown ids d with
      | true =>
          rw [hunknown, if_pos rfl] at hd
          rw [hd]
          rfl
      | false =>
          rw [hunknown] at hd
          obtain ⟨next, hnext⟩ : ∃ next, addPosition ids s start d = .ok next := by simpa using hd
          rw [hnext]
          exact ih next

theorem mapM_positions (ids : List String) (steps : List Step) :
    match (entries steps).find? fun x => isUnknown ids x.2 with
    | some x => steps.mapM (positions ids) = .error (.unknownDependency x.1.id x.2.id)
    | none => ∃ before, steps.mapM (positions ids) = .ok before := by
  induction steps with
  | nil => exact ⟨[], rfl⟩
  | cons s rest ih =>
      have hs := foldlM_addPosition ids s s.runAfter []
      rw [← positions_eq_foldlM] at hs
      rw [entries, List.flatMap_cons, ← entries, List.find?_append, List.find?_map,
        List.mapM_cons]
      simp only [Function.comp_def]
      cases hfirst : s.runAfter.find? (isUnknown ids) with
      | some d =>
          rw [hfirst] at hs
          rw [hs]
          rfl
      | none =>
          rw [hfirst] at hs
          obtain ⟨found, hfound⟩ := hs
          rw [hfound]
          cases hlater : (entries rest).find? fun x => isUnknown ids x.2 with
          | some x =>
              rw [hlater] at ih
              rw [ih]
              rfl
          | none =>
              rw [hlater] at ih
              obtain ⟨before, hbefore⟩ := ih
              rw [hbefore]
              exact ⟨_, rfl⟩

def firstUnknown? (steps : List Step) : Option (Step × Dependency) :=
  (entries steps).find? fun x => isUnknown (steps.map Step.id) x.2

theorem unknownFirst_iff {step dependency : String} :
    UnknownFirst steps step dependency ↔
      ∃ x, firstUnknown? steps = some x ∧ x.1.id = step ∧ x.2.id = dependency := by
  simp only [firstUnknown?, List.find?_eq_some_iff_append, isUnknown_iff, Prod.exists,
    Bool.not_eq_true']
  constructor
  · intro h
    obtain ⟨before, s, d, after, heq, hs, hd, hmissing, hbefore⟩ := h
    refine ⟨s, d, ⟨hmissing, before, after, heq, fun x hx => ?_⟩, hs, hd⟩
    obtain ⟨t, ht, hid⟩ := hbefore x hx
    rw [Bool.eq_false_iff, ne_eq, isUnknown_iff]
    exact fun hunknown => hunknown t ht hid
  · intro h
    obtain ⟨s, d, ⟨hmissing, before, after, heq, hbefore⟩, hs, hd⟩ := h
    refine ⟨before, s, d, after, heq, hs, hd, hmissing, fun x hx => ?_⟩
    have hknown := hbefore x hx
    rw [Bool.eq_false_iff, ne_eq, isUnknown_iff] at hknown
    simpa using hknown

theorem resolved_iff : Resolved steps ↔ firstUnknown? steps = none := by
  simp only [firstUnknown?, List.find?_eq_none, isUnknown_iff, entries, List.mem_flatMap,
    List.mem_map, Resolved]
  constructor
  · intro h x hx hmissing
    obtain ⟨s, hs, d, hd, rfl⟩ := hx
    obtain ⟨t, ht, hid⟩ := h s hs d hd
    exact hmissing t ht hid
  · intro h s hs d hd
    simpa using h (s, d) ⟨s, hs, d, hd, rfl⟩

theorem exists_unknownFirst :
    (∃ step dependency, UnknownFirst steps step dependency) ↔ ¬ Resolved steps := by
  rw [resolved_iff, ← ne_eq, Option.ne_none_iff_exists']
  simp [unknownFirst_iff]

theorem precedence_eq (steps : List Step) :
    match firstUnknown? steps with
    | some x => precedence steps = .error (.unknownDependency x.1.id x.2.id)
    | none => ∃ g, precedence steps = .ok g := by
  have h := mapM_positions (steps.map Step.id) steps
  unfold firstUnknown? precedence
  split
  · next x hx =>
    rw [hx] at h
    rw [h]
  · next hnone =>
    rw [hnone] at h
    obtain ⟨before, hbefore⟩ := h
    exact ⟨⟨before.toArray⟩, by rw [hbefore]⟩

/-! ## Cycles -/

theorem onCycle_precedence_iff (hids : (steps.map Step.id).Nodup) (h : precedence steps = .ok g) :
    g.OnCycle v ↔ TransGen (Precedes steps) v v := by
  have hbefore : g.Before = Precedes steps := by
    funext p v
    exact propext (before_precedence_iff hids h p v)
  rw [Precedence.OnCycle, hbefore]

/-- Where no id is repeated and none is missing, only cycles are left to go wrong. -/
theorem sort_of_resolved (hids : (steps.map Step.id).Nodup) (hresolved : Resolved steps) :
    (∃ v s, steps[v]? = some s ∧ TransGen (Precedes steps) v v ∧
      sort steps = .error (.cyclicDependency s.id)) ∨
    (∀ v, ¬ TransGen (Precedes steps) v v) ∧ ∃ sorted, sort steps = .ok sorted := by
  have hrepeated : firstRepeated? [] (steps.map Step.id) = none :=
    firstRepeated?_eq_none.mpr ⟨hids, by simp⟩
  have hprecedence := precedence_eq steps
  rw [resolved_iff.mp hresolved] at hprecedence
  obtain ⟨g, hg⟩ := hprecedence
  have hwellFormed := precedence_wellFormed hids hg
  cases hmember : g.cycleMember? with
  | some v =>
      have hcycle := Precedence.onCycle_of_cycleMember? hwellFormed hmember
      have hv : v < steps.length := by
        obtain ⟨u, -, hu⟩ := TransGen.tail'_iff.mp hcycle
        exact (precedence_ok hg).1 ▸ hu.lt_size
      have hs := List.getElem?_eq_getElem hv
      refine .inl ⟨v, _, hs, (onCycle_precedence_iff hids hg).mp hcycle, ?_⟩
      simp [sort, hrepeated, hg, hmember, hs]
  | none =>
      refine .inr ⟨fun v hv => ?_, ?_⟩
      · have hnone := (Precedence.cycleMember?_eq_none hwellFormed).mp hmember
        exact hnone v ((onCycle_precedence_iff hids hg).mpr hv)
      · exact ⟨_, sort_eq_ok.mpr ⟨hids, g, hg, hmember, rfl⟩⟩

/-! ## All outcomes -/

theorem sort_of_repeatedFirst {id : String} (h : RepeatedFirst (steps.map Step.id) id) :
    sort steps = .error (.duplicateStep id) := by
  rw [sort, firstRepeated?_nil_eq_some.mpr h]

theorem sort_of_unknownFirst {step dependency : String} (hids : (steps.map Step.id).Nodup)
    (h : UnknownFirst steps step dependency) :
    sort steps = .error (.unknownDependency step dependency) := by
  obtain ⟨x, hx, rfl, rfl⟩ := unknownFirst_iff.mp h
  have hprecedence := precedence_eq steps
  rw [hx] at hprecedence
  rw [sort, firstRepeated?_eq_none.mpr ⟨hids, by simp⟩, hprecedence]

theorem judged_of_repeated (hids : ¬ (steps.map Step.id).Nodup) : Judged steps (sort steps) := by
  obtain ⟨id, hid⟩ := exists_repeatedFirst.mpr hids
  have hsort := sort_of_repeatedFirst hid
  refine ⟨fun other => ⟨fun h => ?_, sort_of_repeatedFirst⟩, ?_, ?_, ?_, ?_, ?_, ?_⟩
  · obtain rfl : id = other := by simpa [hsort] using h
    exact hid
  all_goals simp [hsort, hids]

theorem judged_of_unknown (hids : (steps.map Step.id).Nodup) (hresolved : ¬ Resolved steps) :
    Judged steps (sort steps) := by
  have hfresh : ∀ id, ¬ RepeatedFirst (steps.map Step.id) id :=
    not_exists.mp (exists_repeatedFirst.not.mpr (not_not.mpr hids))
  obtain ⟨step, dependency, hunknown⟩ := exists_unknownFirst.mpr hresolved
  have hsort := sort_of_unknownFirst hids hunknown
  refine ⟨?_, ?_, fun s d => ⟨fun h => ⟨hids, ?_⟩, fun h => sort_of_unknownFirst hids h.2⟩, ?_, ?_,
    ?_, ?_⟩
  case refine_3 =>
    obtain ⟨rfl, rfl⟩ : step = s ∧ dependency = d := by simpa [hsort] using h
    exact hunknown
  all_goals simp [hsort, hids, hresolved, hfresh]

theorem judged_of_resolved (hids : (steps.map Step.id).Nodup) (hresolved : Resolved steps) :
    Judged steps (sort steps) := by
  have hfresh : ∀ id, ¬ RepeatedFirst (steps.map Step.id) id :=
    not_exists.mp (exists_repeatedFirst.not.mpr (not_not.mpr hids))
  have hknown : ∀ step dependency, ¬ UnknownFirst steps step dependency := by
    simpa using exists_unknownFirst.not.mpr (not_not.mpr hresolved)
  rcases sort_of_resolved hids hresolved with ⟨v, s, hs, hcycle, hsort⟩ | ⟨hnone, sorted, hsort⟩
  · have hexists : ∃ v, TransGen (Precedes steps) v v := ⟨v, hcycle⟩
    refine ⟨?_, ?_, ?_, ?_, ?_, fun id h => ⟨v, s, hs, ?_, hcycle⟩, ?_⟩
    case refine_6 => simpa [hsort] using h
    all_goals simp [hsort, hids, hresolved, hfresh, hknown, hexists]
  · refine ⟨?_, ?_, ?_, ?_, ?_, ?_, ?_⟩
    all_goals simp [hsort, hids, hresolved, hfresh, hknown, hnone]

/-- Sorting names the first thing that is wrong, and sorts where nothing is. -/
theorem sort_judged (steps : List Step) : Judged steps (sort steps) := by
  by_cases hids : (steps.map Step.id).Nodup
  · by_cases hresolved : Resolved steps
    · exact judged_of_resolved hids hresolved
    · exact judged_of_unknown hids hresolved
  · exact judged_of_repeated hids

/-- The first step waits for a cycle without being on it, and is not named. -/
example : sort [waiting "a" ["b"], waiting "b" ["c"], waiting "c" ["b"]] =
    .error (.cyclicDependency "c") := rfl

end Step
end Workplan
