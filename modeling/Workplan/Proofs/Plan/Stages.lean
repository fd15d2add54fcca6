import Workplan.Proofs.Plan.Failure
import Workplan.Proofs.Plan.Listing
import Workplan.Proofs.Plan.Prescription

/-!
# Stages of a plan

A plan names the stages that have tasks, in the order of its workflow. Sorting moves steps across
stages but changes no step, and the stages of a workflow have different names. So when the steps
of a plan are looked up stage by stage, each is found exactly once, and the listing of a plan,
which goes stage by stage, shows each step in one place.
-/

namespace Workplan

variable {c : Catalog} {p : Project} {plan : Plan} {w : Workflow} {order : List Nat}

/-- The listing of a plan shows its steps in blocks, one for each stage. A block is made of the
steps of its stage, each with the line that shows it. -/
structure Plan.Lists (plan : Plan) (blocks : List (String × List (Step × String))) : Prop where
  text : plan.listing = "workflow: " ++ plan.name ++ "\n" ++
    String.join (blocks.map fun b => "stage: " ++ b.1 ++ "\n" ++ String.join (b.2.map Prod.snd))
  stages : blocks.map Prod.fst = plan.stages
  shown : ∀ b ∈ blocks, ∀ x ∈ b.2, x.1.ShownBy x.2
  own : ∀ b ∈ blocks, ∀ x ∈ b.2, x.1.stage = b.1
  ascending : ∀ b ∈ blocks, (b.2.map fun x => x.1.order).Pairwise (· < ·)
  complete : (blocks.flatMap fun b => b.2.map Prod.fst).Perm plan.steps
  /-- No two steps have the same line. -/
  distinct : (blocks.flatMap fun b => b.2.map Prod.snd).Nodup

/-- The stages of a plan are those of the workflow that apply and have steps, and divide the steps
among them. -/
structure Plan.Staged (c : Catalog) (p : Project) (w : Workflow) (plan : Plan) : Prop where
  selected : c.selectWorkflow? p.context = some w
  distinct : plan.stages.Nodup
  stages : plan.stages = (w.stages.filter fun s =>
    Rule.anyMatch s.rules p.context && plan.steps.any (·.stage == s.name)).map Stage.name
  /-- The stages named are those with tasks. -/
  tasks : ∀ s ∈ w.stages, s.name ∈ plan.stages ↔ Task.ofStage c p s ≠ []
  division : (plan.stages.flatMap plan.stepsInStage).Perm plan.steps
  once : ((plan.stages.flatMap plan.stepsInStage).map Step.id).Nodup
  listing : ∃ blocks, plan.Lists blocks

/-! ## Groups of a list -/

section Groups

variable {α : Type} {key : α → String} {items : List α} {keys : List String}

/-- Grouping by distinct keys loses nothing and repeats nothing. -/
theorem flatMap_filter_perm (h : keys.Nodup) (hkeys : ∀ a ∈ items, key a ∈ keys) :
    (keys.flatMap fun k => items.filter (key · == k)).Perm items := by
  induction keys generalizing items with
  | nil =>
      obtain rfl := List.eq_nil_iff_forall_not_mem.mpr fun a ha => List.not_mem_nil (hkeys a ha)
      rfl
  | cons k rest ih =>
      obtain ⟨hk, hrest⟩ := List.nodup_cons.mp h
      -- the other groups are those of what the first group leaves
      have hothers : (rest.flatMap fun other => items.filter (key · == other)) =
          rest.flatMap fun other =>
            (items.filter fun a => !key a == k).filter (key · == other) := by
        refine List.flatMap_congr fun other hother => ?_
        have hne : other ≠ k := fun heq => hk (heq ▸ hother)
        rw [List.filter_filter]
        refine List.filter_congr fun a _ => ?_
        by_cases ha : key a = other <;> simp [ha, hne]
      rw [List.flatMap_cons, hothers]
      refine (List.Perm.append_left _ (ih hrest ?_)).trans (List.filter_append_perm _ _)
      intro a ha
      obtain ⟨hmem, hne⟩ := List.mem_filter.mp ha
      exact (List.mem_cons.mp (hkeys a hmem)).resolve_left (by simpa using hne)

theorem eraseDups_of_forall_eq {k : String} (h : ∀ other ∈ keys, other = k) :
    keys.eraseDups = if keys.isEmpty then [] else [k] := by
  cases keys with
  | nil => rfl
  | cons first rest =>
      obtain ⟨rfl, hrest⟩ := List.forall_mem_cons.mp h
      have hnone : (rest.filter fun other => !other == first) = [] :=
        List.filter_eq_nil_iff.mpr fun other hother => by simp [hrest other hother]
      rw [List.eraseDups_cons, hnone]
      rfl

/-- Where items bring no key but their own, which differ, the keys from first to last are those of
the items that bring one. -/
theorem eraseDups_flatMap {f : α → List String} (h : (items.map key).Nodup)
    (hf : ∀ a ∈ items, ∀ k ∈ f a, k = key a) :
    (items.flatMap f).eraseDups = (items.filter fun a => !(f a).isEmpty).map key := by
  induction items with
  | nil => rfl
  | cons a rest ih =>
      obtain ⟨ha, hrest⟩ := List.nodup_cons.mp h
      obtain ⟨hown, hothers⟩ := List.forall_mem_cons.mp hf
      have hnew : (rest.flatMap f).removeAll (f a) = rest.flatMap f := by
        refine List.filter_eq_self.mpr fun k hk => ?_
        obtain ⟨b, hb, hkb⟩ := List.mem_flatMap.mp hk
        have hne : k ∉ f a := by
          intro hka
          have hsame : key b = key a := (hothers b hb k hkb).symm.trans (hown k hka)
          exact ha (List.mem_map.mpr ⟨b, hb, hsame⟩)
        simpa using hne
      rw [List.flatMap_cons, List.eraseDups_append, hnew, ih hrest hothers,
        eraseDups_of_forall_eq hown, List.filter_cons]
      cases (f a).isEmpty <;> rfl

/-- Items whose keys come in blocks, one for each group, are these blocks. -/
theorem eq_flatMap_filter {β : Type} {groups : List β} {name : β → String}
    (blocks : β → List String) (hnames : (groups.map name).Nodup)
    (hown : ∀ g ∈ groups, ∀ k ∈ blocks g, k = name g)
    (h : items.map key = groups.flatMap blocks) :
    items = (groups.map name).flatMap fun k => items.filter (key · == k) := by
  induction groups generalizing items with
  | nil => simpa using h
  | cons g rest ih =>
      obtain ⟨hg, hrest⟩ := List.nodup_cons.mp hnames
      obtain ⟨hkeys, hothers⟩ := List.forall_mem_cons.mp hown
      obtain ⟨block, later, rfl, hblock, hlater⟩ := List.map_eq_append_iff.mp h
      have hin : ∀ b ∈ block, key b = name g := fun b hb =>
        hkeys _ (hblock ▸ List.mem_map_of_mem hb)
      have hout : ∀ b ∈ later, key b ∈ rest.map name := by
        intro b hb
        have hmem : key b ∈ later.map key := List.mem_map_of_mem hb
        rw [hlater, ← List.flatMap_def] at hmem
        obtain ⟨other, hother, hk⟩ := List.mem_flatMap.mp hmem
        exact hothers other hother _ hk ▸ List.mem_map_of_mem hother
      have hfirst : (block ++ later).filter (key · == name g) = block := by
        have hnone : later.filter (key · == name g) = [] :=
          List.filter_eq_nil_iff.mpr fun b hb heq => hg (eq_of_beq heq ▸ hout b hb)
        rw [List.filter_append, hnone, List.append_nil, List.filter_eq_self]
        exact fun b hb => beq_iff_eq.mpr (hin b hb)
      have hsecond : ((rest.map name).flatMap fun k => (block ++ later).filter (key · == k)) =
          (rest.map name).flatMap fun k => later.filter (key · == k) := by
        refine List.flatMap_congr fun k hk => ?_
        have hnone : block.filter (key · == k) = [] :=
          List.filter_eq_nil_iff.mpr fun b hb heq => hg (hin b hb ▸ eq_of_beq heq ▸ hk)
        rw [List.filter_append, hnone, List.nil_append]
      rw [List.map_cons, List.flatMap_cons, hfirst, hsecond, ← ih hrest hothers hlater]

end Groups

/-! ## Stages of tasks -/

namespace Task

theorem stage_of_mem_ofReference {stage : String} {r : Reference} {t : Task}
    (h : t ∈ ofReference c p stage r) : t.stage = stage := by
  unfold ofReference at h
  split at h
  · cases h
  · split at h
    · split at h
      · rw [List.mem_singleton.mp h]
      · cases h
    · obtain ⟨m, -, rfl⟩ := List.mem_map.mp h
      rfl

theorem stage_of_mem_ofStage {s : Stage} {t : Task} (h : t ∈ ofStage c p s) : t.stage = s.name := by
  unfold ofStage at h
  split at h
  · obtain ⟨r, -, ht⟩ := List.mem_flatMap.mp h
    exact stage_of_mem_ofReference ht
  · cases h

theorem anyMatch_of_ofStage_ne_nil {s : Stage} (h : ofStage c p s ≠ []) :
    Rule.anyMatch s.rules p.context = true := by
  unfold ofStage at h
  split at h
  · assumption
  · exact absurd rfl h

end Task

namespace Catalog

theorem map_stage_steps_eq_tasks :
    (c.steps w p).map Step.stage = (Task.ofWorkflow c p w).map Task.stage := by
  rw [map_stage_steps, ← Emission.map_task_emissions, List.map_map]
  rfl

namespace Makes

variable (h : c.Makes p w order plan)

include h

theorem mem_workflows : w ∈ c.workflows :=
  List.mem_of_find?_eq_some h.selected

theorem stages_eq :
    plan.stages = (w.stages.filter fun s => !(Task.ofStage c p s).isEmpty).map Stage.name := by
  have hnames := c.valid.distinctStages w h.mem_workflows
  rw [h.stages, map_stage_steps_eq_tasks, Task.ofWorkflow, List.map_flatMap, eraseDups_flatMap hnames]
  · simp
  · intro s _ name hname
    obtain ⟨t, ht, rfl⟩ := List.mem_map.mp hname
    exact Task.stage_of_mem_ofStage ht

theorem mem_stages_iff {s : Stage} (hs : s ∈ w.stages) :
    s.name ∈ plan.stages ↔ Task.ofStage c p s ≠ [] := by
  have hnames := c.valid.distinctStages w h.mem_workflows
  rw [h.stages_eq, List.mem_map]
  constructor
  · intro ⟨other, hother, hname⟩
    obtain ⟨hmem, htasks⟩ := List.mem_filter.mp hother
    obtain rfl := List.inj_on_of_nodup_map hnames hmem hs hname
    simpa using htasks
  · intro htasks
    exact ⟨s, List.mem_filter.mpr ⟨hs, by simpa using htasks⟩, rfl⟩

theorem mem_stages_iff_exists (name : String) :
    name ∈ plan.stages ↔ ∃ s ∈ plan.steps, s.stage = name := by
  rw [h.stages, List.mem_eraseDups, List.mem_map]
  constructor
  · intro ⟨s, hs, hname⟩
    obtain ⟨v, e, he, rfl⟩ := Catalog.mem_steps_iff.mp hs
    exact ⟨_, h.mem_steps_iff.mpr ⟨v, e, he, rfl⟩, hname⟩
  · intro ⟨s, hs, hname⟩
    obtain ⟨v, e, he, rfl⟩ := h.mem_steps_iff.mp hs
    exact ⟨_, Catalog.mem_steps_iff.mpr ⟨v, e, he, rfl⟩, hname⟩

theorem nodup_stages : plan.stages.Nodup := by
  rw [h.stages_eq]
  exact (c.valid.distinctStages w h.mem_workflows).sublist (List.filter_sublist.map _)

theorem division : (plan.stages.flatMap plan.stepsInStage).Perm plan.steps := by
  apply flatMap_filter_perm h.nodup_stages
  intro s hs
  exact (h.mem_stages_iff_exists s.stage).mpr ⟨s, hs, rfl⟩

theorem map_order : plan.steps.map Step.order = List.range plan.steps.length := by
  refine List.ext_getElem? fun place => ?_
  rw [List.getElem?_map]
  cases hs : plan.steps[place]? with
  | none => simpa using hs
  | some s =>
      have hlt := (List.getElem?_eq_some_iff.mp hs).1
      rw [Option.map_some, h.order_eq place s hs, List.getElem?_range hlt]

theorem ascending (stage : String) :
    ((plan.stepsInStage stage).map Step.order).Pairwise (· < ·) := by
  have hsteps : (plan.steps.map Step.order).Pairwise (· < ·) := by
    rw [h.map_order]
    exact List.pairwise_lt_range
  exact hsteps.sublist (List.filter_sublist.map _)

theorem nodup_lines : ((plan.stages.flatMap plan.stepsInStage).map Step.line).Nodup := by
  have horders : ((plan.stages.flatMap plan.stepsInStage).map Step.order).Nodup := by
    rw [(h.division.map Step.order).nodup_iff, h.map_order]
    exact List.nodup_range
  rw [List.Nodup, List.pairwise_map] at horders ⊢
  refine horders.imp fun {s t} hne hline => hne ?_
  exact s.shownBy_line.order_eq (hline ▸ t.shownBy_line)

theorem lists : plan.Lists (plan.stages.map fun stage =>
    (stage, (plan.stepsInStage stage).map fun s => (s, s.line))) where
  text := by
    simp only [Plan.listing, List.map_map, Function.comp_def]
    rfl
  stages := by
    rw [List.map_map]
    exact List.map_id plan.stages
  shown := by
    simp only [List.forall_mem_map]
    exact fun _ _ s _ => s.shownBy_line
  own := by
    simp only [List.forall_mem_map]
    intro stage _ s hs
    simpa using (List.mem_filter.mp hs).2
  ascending := by
    simp only [List.forall_mem_map, List.map_map, Function.comp_def]
    exact fun stage _ => h.ascending stage
  complete := by
    simpa only [List.flatMap_map, List.map_map, Function.comp_def, List.map_id'] using h.division
  distinct := by
    simpa only [List.flatMap_map, List.map_map, Function.comp_def, List.map_flatMap] using
      h.nodup_lines

end Makes
end Catalog

theorem plan_staged (h : c.plan p = .ok plan) : ∃ w, plan.Staged c p w := by
  obtain ⟨w, order, hmakes⟩ := Catalog.exists_makes h
  refine ⟨w, hmakes.selected, hmakes.nodup_stages, ?_, fun s hs => hmakes.mem_stages_iff hs,
    hmakes.division, ?_, _, hmakes.lists⟩
  · rw [hmakes.stages_eq]
    congr 1
    refine List.filter_congr fun s hs => ?_
    have hsteps : plan.steps.any (·.stage == s.name) = true ↔ Task.ofStage c p s ≠ [] := by
      rw [← hmakes.mem_stages_iff hs, hmakes.mem_stages_iff_exists]
      simp
    rw [Bool.eq_iff_iff, Bool.and_eq_true, hsteps,
      and_iff_right_of_imp Task.anyMatch_of_ofStage_ne_nil]
    simp
  · exact (hmakes.division.map Step.id).nodup_iff.mpr hmakes.nodup_ids

/-- The stage that is left out is not named. The step that runs first is listed in the last
stage. -/
theorem Delivery.staged_delivery : ∃ plan w,
    Delivery.catalog.plan Delivery.project = .ok plan ∧
      (plan.stages.map fun stage => (stage, (plan.stepsInStage stage).map Step.id)) =
        [("ship", ["1", "0"]), ("check", ["4", "2", "3"])] ∧
      plan.Staged Delivery.catalog Delivery.project w := by
  obtain ⟨plan, hplan, hstages⟩ : ∃ plan, Delivery.catalog.plan Delivery.project = .ok plan ∧
      (plan.stages.map fun stage => (stage, (plan.stepsInStage stage).map Step.id)) =
        [("ship", ["1", "0"]), ("check", ["4", "2", "3"])] :=
    exists_ok_of_toOption (by decide +kernel)
  obtain ⟨w, hw⟩ := plan_staged hplan
  exact ⟨plan, w, hplan, hstages, hw⟩

end Workplan
