import Workplan.Proofs.Plan.Decisions

/-!
# What diagnostics cover

Every rule of a catalog has a position: a list of numbers that leads from the catalog to the rule.
The order of the catalog is the lexicographic order of positions. The diagnostics list, in this
order, each position whose rule cannot be read, with words that lead there. No rule that planning
compiles is left out.
-/

namespace Workplan

variable {α β : Type} {find? : List Nat → Option α} {items later : List α} {c : Catalog}

/-! ## Items by position -/

/-- The items are what is found at the positions at which something is found, in their order. -/
def Enumerates (find? : List Nat → Option α) (items : List α) : Prop :=
  ∃ positions : List (List Nat), positions.Pairwise (· < ·) ∧
    (∀ position, (find? position).isSome → position ∈ positions) ∧
    positions.map find? = items.map some

/-- A position among later items, counted with one item in front of them. -/
def behind : List Nat → List Nat
  | [] => []
  | i :: position => (i + 1) :: position

theorem behind_lt {p q : List Nat} (h : p < q) : behind p < behind q := by
  cases p with
  | nil =>
      cases q with
      | nil => exact h
      | cons j q => exact List.nil_lt_cons _ _
  | cons i p =>
      cases q with
      | nil => exact absurd h (List.not_lt_nil _)
      | cons j q =>
          rw [behind, behind, List.cons_lt_cons_iff]
          exact (List.cons_lt_cons_iff.mp h).imp Nat.succ_lt_succ (And.imp (congrArg _) id)

namespace Enumerates

theorem congr {other : List Nat → Option α} (h : Enumerates find? items)
    (hsame : ∀ position, find? position = other position) : Enumerates other items :=
  funext hsame ▸ h

theorem nil (h : ∀ position, find? position = none) : Enumerates find? [] :=
  ⟨[], .nil, fun position hsome => by simp [h position] at hsome, rfl⟩

theorem isSome_of_mem {positions : List (List Nat)} {position : List Nat}
    (h : positions.map find? = items.map some) (hmem : position ∈ positions) :
    (find? position).isSome = true := by
  have hfound : find? position ∈ items.map some := h ▸ List.mem_map_of_mem hmem
  obtain ⟨a, -, ha⟩ := List.mem_map.mp hfound
  rw [← ha]
  rfl

/-- The items below the first number come before those below the later ones. -/
theorem cons (hroot : find? [] = none)
    (h : Enumerates (fun position => find? (0 :: position)) items)
    (hlater : Enumerates (fun position => find? (behind position)) later) :
    Enumerates find? (items ++ later) := by
  obtain ⟨ps, hps, hall, hitems⟩ := h
  obtain ⟨qs, hqs, hallLater, hitemsLater⟩ := hlater
  have hne : ∀ q ∈ qs, ∃ i rest, q = i :: rest := by
    intro q hq
    cases q with
    | nil =>
        have hsome := isSome_of_mem hitemsLater hq
        rw [behind, hroot] at hsome
        cases hsome
    | cons i rest => exact ⟨i, rest, rfl⟩
  refine ⟨ps.map (0 :: ·) ++ qs.map behind, ?_, ?_, ?_⟩
  · refine List.pairwise_append.mpr ⟨?_, ?_, ?_⟩
    · exact List.pairwise_map.mpr (hps.imp fun h => List.cons_lt_cons_iff.mpr (.inr ⟨rfl, h⟩))
    · exact List.pairwise_map.mpr (hqs.imp behind_lt)
    · intro p hp q hq
      obtain ⟨p, -, rfl⟩ := List.mem_map.mp hp
      obtain ⟨q, hmem, rfl⟩ := List.mem_map.mp hq
      obtain ⟨i, rest, rfl⟩ := hne q hmem
      exact List.cons_lt_cons_iff.mpr (.inl (Nat.succ_pos i))
  · intro position hsome
    match position with
    | [] => simp [hroot] at hsome
    | 0 :: position => exact List.mem_append_left _ (List.mem_map_of_mem (hall position hsome))
    | (i + 1) :: position =>
        exact List.mem_append_right _ (List.mem_map_of_mem (hallLater (i :: position) hsome))
  · rw [List.map_append, List.map_map, List.map_map, List.map_append, ← hitems, ← hitemsLater]
    rfl

theorem singleton {a : α} (hroot : find? [] = some a)
    (h : ∀ i position, find? (i :: position) = none) : Enumerates find? [a] := by
  refine ⟨[[]], List.pairwise_singleton _ _, ?_, ?_⟩
  · intro position hsome
    cases position with
    | nil => exact List.mem_singleton.mpr rfl
    | cons i position => simp [h] at hsome
  · rw [List.map_singleton, hroot]
    rfl

/-- The items of several lists one after the other, by the number of the list. -/
theorem flatMap {xs : List β} {f : β → List α} {at? : β → List Nat → Option α}
    (hroot : find? [] = none)
    (hat : ∀ i position, find? (i :: position) = xs[i]?.bind (at? · position))
    (h : ∀ x, Enumerates (at? x) (f x)) : Enumerates find? (xs.flatMap f) := by
  induction xs generalizing find? with
  | nil =>
      refine nil fun position => ?_
      cases position with
      | nil => exact hroot
      | cons i position => rw [hat, List.getElem?_nil, Option.bind_none]
  | cons x xs ih =>
      refine cons hroot ((h x).congr fun position => ?_) (ih ?_ fun i position => ?_)
      · rw [hat, List.getElem?_cons_zero, Option.bind_some]
      · exact hroot
      · rw [behind, hat, List.getElem?_cons_succ]

theorem map_filter_isSome (g : α → Option β) (xs : List α) :
    (xs.filter fun x => (g x).isSome).map g = (xs.filterMap g).map some := by
  induction xs with
  | nil => rfl
  | cons x xs ih =>
      cases hx : g x with
      | none => simpa [hx] using ih
      | some b => simpa [hx] using ih

/-- What a function makes of some of the items is found at their positions. -/
theorem filterMap (h : Enumerates find? items) (f : α → Option β) :
    Enumerates (fun position => (find? position).bind f) (items.filterMap f) := by
  obtain ⟨positions, hsorted, hall, hitems⟩ := h
  refine ⟨positions.filter fun position => ((find? position).bind f).isSome, hsorted.filter _,
    ?_, ?_⟩
  · intro position hsome
    obtain ⟨b, hb⟩ := Option.isSome_iff_exists.mp hsome
    obtain ⟨a, ha, -⟩ := Option.bind_eq_some_iff.mp hb
    exact List.mem_filter.mpr ⟨hall position (by rw [ha]; rfl), hsome⟩
  · have hmade : positions.filterMap (fun position => (find? position).bind f) =
        items.filterMap f := by
      have hboth := congrArg (List.filterMap (·.bind f)) hitems
      simpa [List.filterMap_map, Function.comp_def] using hboth
    rw [map_filter_isSome, hmade]

/-- The positions of the items are told by the function alone, and go with the items. -/
theorem exists_forall₂ (h : Enumerates find? items) :
    ∃ positions : List (List Nat), positions.Pairwise (· < ·) ∧
      (∀ position, position ∈ positions ↔ ∃ a, find? position = some a) ∧
      List.Forall₂ (fun position a => find? position = some a) positions items := by
  obtain ⟨positions, hsorted, hall, hitems⟩ := h
  refine ⟨positions, hsorted, fun position => ?_, ?_⟩
  · rw [← Option.isSome_iff_exists]
    exact ⟨isSome_of_mem hitems, hall position⟩
  · rwa [← List.forall₂_eq_eq_eq, List.forall₂_map_left_iff, List.forall₂_map_right_iff] at hitems

end Enumerates

/-! ## Positions of rules -/

def ruleIn? (place : RulePlace) (rules : List Rule) : List Nat → Option (RulePlace × Rule)
  | [i] => rules[i]?.map (place, ·)
  | _ => none

/-- The rules of a stage come below 0, those of its references below 1, 2 and so on. -/
def Stage.ruleAt? (workflow : String) (s : Stage) : List Nat → Option (RulePlace × Rule)
  | [] => none
  | 0 :: position => ruleIn? (.stage workflow s.name) s.rules position
  | (k + 1) :: position =>
    s.actions[k]?.bind fun r => ruleIn? (.reference workflow s.name r.id) r.rules position

/-- The rules of a workflow come below 0, those of its stages below 1, 2 and so on. -/
def Workflow.ruleAt? (w : Workflow) : List Nat → Option (RulePlace × Rule)
  | [] => none
  | 0 :: position => ruleIn? (.workflow w.name) w.rules position
  | (k + 1) :: position => w.stages[k]?.bind fun s => s.ruleAt? w.name position

namespace Catalog

/-- The rule at a position, and its place. The rules of the actions come below 0, by the index of
the action, and those of the workflows below 1, 2 and so on. -/
def ruleAt? (c : Catalog) : List Nat → Option (RulePlace × Rule)
  | [] => none
  | [0] => none
  | 0 :: k :: position => c.actions[k]?.bind fun a => ruleIn? (.action a.id) a.rules position
  | (k + 1) :: position => c.workflows[k]?.bind fun w => w.ruleAt? position

def placedRules (c : Catalog) : List (RulePlace × Rule) :=
  c.rulePlaces.flatMap fun entry => entry.2.map (entry.1, ·)

end Catalog

theorem enumerates_ruleIn? (place : RulePlace) (rules : List Rule) :
    Enumerates (ruleIn? place rules) (rules.map (place, ·)) := by
  have hone : ∀ (i : Nat) (position : List Nat), ruleIn? place rules (i :: position) =
      rules[i]?.bind fun r => if position = [] then some (place, r) else none := by
    intro i position
    cases position with
    | nil => exact Option.map_eq_bind
    | cons j position => cases hr : rules[i]? <;> simp [ruleIn?]
  rw [List.map_eq_flatMap]
  exact .flatMap rfl hone fun r => .singleton rfl fun _ _ => rfl

theorem Stage.enumerates_ruleAt? (workflow : String) (s : Stage) :
    Enumerates (s.ruleAt? workflow) (s.rules.map (RulePlace.stage workflow s.name, ·) ++
      s.actions.flatMap fun r => r.rules.map (RulePlace.reference workflow s.name r.id, ·)) :=
  .cons rfl (enumerates_ruleIn? _ _)
    (.flatMap rfl (fun _ _ => rfl) fun _ => enumerates_ruleIn? _ _)

theorem Workflow.enumerates_ruleAt? (w : Workflow) :
    Enumerates w.ruleAt? (w.rules.map (RulePlace.workflow w.name, ·) ++
      w.stages.flatMap fun s => s.rules.map (RulePlace.stage w.name s.name, ·) ++
        s.actions.flatMap fun r => r.rules.map (RulePlace.reference w.name s.name r.id, ·)) :=
  .cons rfl (enumerates_ruleIn? _ _)
    (.flatMap rfl (fun _ _ => rfl) fun s => s.enumerates_ruleAt? w.name)

namespace Catalog

theorem placedRules_eq (c : Catalog) : c.placedRules =
    (c.actions.flatMap fun a => a.rules.map (RulePlace.action a.id, ·)) ++
      c.workflows.flatMap fun w => w.rules.map (RulePlace.workflow w.name, ·) ++
        w.stages.flatMap fun s => s.rules.map (RulePlace.stage w.name s.name, ·) ++
          s.actions.flatMap fun r => r.rules.map (RulePlace.reference w.name s.name r.id, ·) := by
  simp [placedRules, rulePlaces, workflowPlaces, List.flatMap_append, List.flatMap_map,
    List.flatMap_assoc]

theorem enumerates_ruleAt? (c : Catalog) : Enumerates c.ruleAt? c.placedRules := by
  rw [placedRules_eq]
  exact .cons rfl (.flatMap rfl (fun _ _ => rfl) fun _ => enumerates_ruleIn? _ _)
    (.flatMap rfl (fun _ _ => rfl) fun w => w.enumerates_ruleAt?)

theorem diagnostics_eq (c : Catalog) :
    c.diagnostics = c.placedRules.filterMap fun entry => diagnose entry.1 entry.2 := by
  simp [diagnostics, placedRules, List.filterMap_flatMap, List.filterMap_map]

theorem diagnose_eq_some_iff {place : RulePlace} {rule : Rule} {d : Diagnostic} :
    diagnose place rule = some d ↔
      d.place = place ∧ d.rule = rule ∧ rule.compile = .error d.error := by
  obtain ⟨dplace, drule, derror⟩ := d
  unfold diagnose
  cases rule.compile with
  | ok program => simp
  | error e => simp [eq_comm]

def diagnosisAt? (c : Catalog) (position : List Nat) : Option Diagnostic :=
  (c.ruleAt? position).bind fun entry => diagnose entry.1 entry.2

theorem diagnosisAt?_eq_some_iff {position : List Nat} {d : Diagnostic} :
    c.diagnosisAt? position = some d ↔
      c.ruleAt? position = some (d.place, d.rule) ∧ d.rule.compile = .error d.error := by
  rw [diagnosisAt?, Option.bind_eq_some_iff]
  constructor
  · rintro ⟨⟨place, rule⟩, hrule, hd⟩
    obtain ⟨rfl, rfl, he⟩ := diagnose_eq_some_iff.mp hd
    exact ⟨hrule, he⟩
  · rintro ⟨hrule, he⟩
    exact ⟨_, hrule, diagnose_eq_some_iff.mpr ⟨rfl, rfl, he⟩⟩

theorem enumerates_diagnosisAt? (c : Catalog) : Enumerates c.diagnosisAt? c.diagnostics := by
  rw [diagnostics_eq]
  exact c.enumerates_ruleAt?.filterMap _

/-- A text that says where in a catalog a rule stands. -/
inductive Locates (c : Catalog) (rule : Rule) : String → Prop where
  | action {a : Action} : a ∈ c.actions → rule ∈ a.rules →
      Locates c rule ("action '" ++ a.id ++ "'")
  | workflow {w : Workflow} : w ∈ c.workflows → rule ∈ w.rules →
      Locates c rule ("workflow '" ++ w.name ++ "'")
  | stage {w : Workflow} {s : Stage} : w ∈ c.workflows → s ∈ w.stages → rule ∈ s.rules →
      Locates c rule ("workflow '" ++ w.name ++ "' stage '" ++ s.name ++ "'")
  | reference {w : Workflow} {s : Stage} {r : Reference} : w ∈ c.workflows → s ∈ w.stages →
      r ∈ s.actions → rule ∈ r.rules →
      Locates c rule
        ("workflow '" ++ w.name ++ "' stage '" ++ s.name ++ "' action '" ++ r.id ++ "'")

/-- The place of a diagnostic is described by words that lead to its rule. -/
theorem locates_describe {d : Diagnostic} (h : d ∈ c.diagnostics) :
    c.Locates d.rule d.place.describe := by
  obtain ⟨place, rule, e⟩ := d
  have hplaced : (place, rule) ∈ c.placedRules := by
    rw [diagnostics_eq] at h
    obtain ⟨entry, hentry, hd⟩ := List.mem_filterMap.mp h
    obtain ⟨rfl, rfl, -⟩ := diagnose_eq_some_iff.mp hd
    exact hentry
  simp only [placedRules_eq, List.mem_append, List.mem_flatMap, List.mem_map, Prod.mk.injEq]
    at hplaced
  rcases hplaced with ⟨a, ha, _, hr, rfl, rfl⟩ | ⟨w, hw, ⟨_, hr, rfl, rfl⟩ |
    ⟨s, hs, ⟨_, hr, rfl, rfl⟩ | ⟨r, hmem, _, hr, rfl, rfl⟩⟩⟩
  · exact .action ha hr
  · exact .workflow hw hr
  · exact .stage hw hs hr
  · exact .reference hw hs hmem hr

/-! ## Rules that planning compiles -/

variable {p : Project} {w : Workflow} {r : Rule}

/-- What planning cannot compile is diagnosed. -/
theorem Compiles.exists_diagnostic {e : Rule.Error} (h : c.Compiles p r)
    (he : r.compile = .error e) : ∃ d ∈ c.diagnostics, d.rule = r ∧ d.error = e := by
  obtain ⟨entry, hentry, hr⟩ := List.mem_flatMap.mp h.mem_rules
  refine ⟨⟨entry.1, r, e⟩, ?_, rfl, rfl⟩
  rw [diagnostics_eq]
  refine List.mem_filterMap.mpr ⟨(entry.1, r), ?_, ?_⟩
  · exact List.mem_flatMap.mpr ⟨entry, hentry, List.mem_map_of_mem hr⟩
  · exact diagnose_eq_some_iff.mpr ⟨rfl, rfl, he⟩

theorem Compiles.of_clean (hclean : c.diagnostics = []) (h : c.Compiles p r) :
    ∃ program, r.compile = .ok program := by
  cases hr : r.compile with
  | ok program => exact ⟨program, rfl⟩
  | error e =>
      obtain ⟨d, hd, -⟩ := h.exists_diagnostic hr
      rw [hclean] at hd
      cases hd

/-- In a catalog without diagnostics, the rules of placements have all been read. -/
theorem none_notMem_programs (hclean : c.diagnostics = [])
    (hselected : c.selectWorkflow? p.context = some w) {placement : Placement}
    (hplacement : placement ∈ Placement.ofWorkflow c w p.context) :
    none ∉ placement.rules.programs := by
  intro hnone
  have hrules : placement.rules =
      .compile (placement.reference.rules ++ placement.action.rules) := by
    obtain ⟨s, -, -, reference, -, a, -, rfl⟩ := Placement.mem_ofWorkflow_iff.mp hplacement
    rfl
  rw [hrules] at hnone
  obtain ⟨r, hr, hprogram⟩ := List.mem_map.mp hnone
  obtain ⟨program, hcompile⟩ := Compiles.of_clean hclean (.placement hselected hplacement hr)
  rw [Rule.program?, show Rule.Program.compile r.expression = .ok program from hcompile] at hprogram
  cases hprogram

end Catalog

/-- Each position whose rule cannot be read gives one diagnostic, in the order of positions, and no
other position gives one. Whatever planning compiles in vain, for any project, is among them, so
that without diagnostics planning reads every rule that it compiles. It depends on no others. -/
theorem diagnostics_cover (c : Catalog) :
    (∃ positions : List (List Nat), positions.Pairwise (· < ·) ∧
      (∀ position, position ∈ positions ↔ ∃ place rule e,
        c.ruleAt? position = some (place, rule) ∧ rule.compile = .error e) ∧
      List.Forall₂ (fun position d => c.ruleAt? position = some (d.place, d.rule) ∧
        d.rule.compile = .error d.error) positions c.diagnostics) ∧
    (∀ (p : Project) (r : Rule) (e : Rule.Error), c.Compiles p r → r.compile = .error e →
      ∃ d ∈ c.diagnostics, d.rule = r ∧ d.error = e) ∧
    (c.diagnostics = [] → ∀ p : Project,
      (∀ r, c.Compiles p r → ∃ program, r.compile = .ok program) ∧
      ∀ w placement, c.selectWorkflow? p.context = some w →
        placement ∈ Placement.ofWorkflow c w p.context → none ∉ placement.rules.programs) ∧
    ∀ (p : Project) (f : Rule → Rule), (∀ r, c.Compiles p r → f r = r) →
      (c.mapRules f).plan p = c.plan p := by
  refine ⟨?_, fun p r e h he => h.exists_diagnostic he, fun hclean p => ⟨?_, ?_⟩,
    fun p f hf => Catalog.plan_mapRules_of_compiles hf⟩
  · obtain ⟨positions, hsorted, hall, hlisted⟩ := c.enumerates_diagnosisAt?.exists_forall₂
    refine ⟨positions, hsorted, fun position => (hall position).trans ?_, hlisted.imp ?_⟩
    · constructor
      · rintro ⟨d, hd⟩
        exact ⟨d.place, d.rule, d.error, Catalog.diagnosisAt?_eq_some_iff.mp hd⟩
      · rintro ⟨place, rule, e, hwrong⟩
        exact ⟨⟨place, rule, e⟩, Catalog.diagnosisAt?_eq_some_iff.mpr hwrong⟩
    · exact fun position d hd => Catalog.diagnosisAt?_eq_some_iff.mp hd
  · exact fun r h => h.of_clean hclean
  · exact fun w placement hselected hplacement =>
      Catalog.none_notMem_programs hclean hselected hplacement

namespace Delivery

/-- A delivery that only tests, by a rule that cannot be read and two that can. -/
def misspelled : Catalog :=
  .ofValid ⟨[action "test" .module ["(", "MODULE_NAME != \"docs\""] ["image"] ["report"]],
    [⟨"release", [], [⟨"check", [], [reference "test" ["true"]]⟩]⟩]⟩ (by decide +kernel)

def mended : Catalog :=
  .ofValid ⟨[action "test" .module ["MODULE_NAME != \"docs\""] ["image"] ["report"]],
    [⟨"release", [], [⟨"check", [], [reference "test" ["true"]]⟩]⟩]⟩ (by decide +kernel)

/-- What the only placement compiles in vain is diagnosed where it stands, at the action. -/
theorem diagnosed_delivery :
    misspelled.diagnostics.map Diagnostic.place = [.action "ci/test"] ∧
    (∃ e, misspelled.Compiles project ⟨"("⟩ ∧ Rule.compile ⟨"("⟩ = .error e ∧
      ∃ d ∈ misspelled.diagnostics, d.rule = ⟨"("⟩ ∧ d.error = e) ∧
    mended.diagnostics = [] ∧
    ∃ w placement, mended.selectWorkflow? project.context = some w ∧
      placement ∈ Placement.ofWorkflow mended w project.context ∧
      placement.rules.size = 2 ∧ none ∉ placement.rules.programs := by
  have hcompiles : misspelled.Compiles project ⟨"("⟩ :=
    .placement (w := misspelled.workflows[0]) rfl (List.mem_singleton.mpr rfl) (by decide)
  have hclean : mended.diagnostics = [] := List.isEmpty_iff.mp (by decide +kernel)
  have hbroken : (Rule.compile ⟨"("⟩).isOk = false := by decide +kernel
  obtain ⟨e, he⟩ : ∃ e, Rule.compile ⟨"("⟩ = .error e := by
    cases he : Rule.compile ⟨"("⟩ with
    | ok program => rw [he] at hbroken; cases hbroken
    | error e => exact ⟨e, rfl⟩
  refine ⟨by decide +kernel, ⟨e, hcompiles, he, ?_⟩, hclean, mended.workflows[0], _, rfl,
    List.mem_singleton.mpr rfl, rfl, ?_⟩
  · exact (diagnostics_cover misspelled).2.1 project ⟨"("⟩ e hcompiles he
  · exact ((diagnostics_cover mended).2.2.1 hclean project).2 _ _ rfl (List.mem_singleton.mpr rfl)

end Delivery
end Workplan
