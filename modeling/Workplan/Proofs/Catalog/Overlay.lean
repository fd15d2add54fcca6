import Workplan.Catalog.Load
import Workplan.File.Tree
import Workplan.Proofs.Catalog.Validity

/-!
# Definitions from several sources

Merging goes item by item: an item takes the place of the one that has its key, or goes to the
end. So of all items of all sources there remains, for each key, the last one, and it stands where
the key occurred first. Keys are distinct then, and building never refuses merged definitions for
a repeated id or name. This holds of a single source as well: what it defines twice is merged
before anything is checked, so a file that repeats a key is not judged as its definitions are.
-/

namespace Workplan

open Catalog (Error build)

/-- `merged` holds the last item of each key that occurs in `items`, in the order in which the keys
occur for the first time. -/
structure LastWins {α : Type} (key : α → String) (items merged : List α) : Prop where
  distinct : (merged.map key).Nodup
  keys : merged.map key = (items.map key).eraseDups
  last : ∀ a ∈ merged, (items.filter fun b => key b = key a).getLast? = some a

section Items

open Definitions (upsert mergeBy)

variable {α : Type} {key : α → String} {items others merged before after : List α} {a b : α}

theorem not_mem_of_nodup (h : ((before ++ a :: after).map key).Nodup) :
    key a ∉ before.map key := by
  intro hmem
  rw [List.map_append] at h
  exact (List.nodup_append.mp h).2.2 _ hmem _ List.mem_cons_self rfl

theorem eraseDups_concat (keys : List String) (k : String) :
    (keys ++ [k]).eraseDups = if k ∈ keys then keys.eraseDups else keys.eraseDups ++ [k] := by
  rw [List.eraseDups_append]
  by_cases h : k ∈ keys <;> simp [List.removeAll, h, List.eraseDups_cons]

/-! ## One item -/

namespace Definitions

theorem upsert_of_not_mem (h : key a ∉ items.map key) : upsert key a items = items ++ [a] := by
  induction items with
  | nil => rfl
  | cons b rest ih =>
      obtain ⟨hb, hrest⟩ := not_or.mp (mt List.mem_cons.mpr h)
      rw [upsert, if_neg (Ne.symm hb), ih hrest, List.cons_append]

theorem map_key_upsert_of_mem (h : key a ∈ items.map key) :
    (upsert key a items).map key = items.map key := by
  induction items with
  | nil => cases h
  | cons b rest ih =>
      by_cases hb : key b = key a
      · rw [upsert, if_pos hb, List.map_cons, List.map_cons, hb]
      · have hrest := (List.mem_cons.mp h).resolve_left (Ne.symm hb)
        rw [upsert, if_neg hb, List.map_cons, List.map_cons, ih hrest]

theorem eq_or_mem_of_mem_upsert (h : (items.map key).Nodup) (hb : b ∈ upsert key a items) :
    b = a ∨ b ∈ items ∧ key b ≠ key a := by
  induction items with
  | nil => exact .inl (List.mem_singleton.mp hb)
  | cons first rest ih =>
      obtain ⟨hfirst, hrest⟩ := List.nodup_cons.mp h
      by_cases hkey : key first = key a
      · rw [upsert, if_pos hkey] at hb
        rcases List.mem_cons.mp hb with rfl | hb
        · exact .inl rfl
        · refine .inr ⟨List.mem_cons_of_mem _ hb, ?_⟩
          intro heq
          exact hfirst (List.mem_map.mpr ⟨b, hb, heq.trans hkey.symm⟩)
      · rw [upsert, if_neg hkey] at hb
        rcases List.mem_cons.mp hb with rfl | hb
        · exact .inr ⟨List.mem_cons_self, hkey⟩
        · exact (ih hrest hb).imp_right fun hmem => ⟨List.mem_cons_of_mem _ hmem.1, hmem.2⟩

/-! ## Lists of items -/

theorem mergeBy_of_nodup (h : ((items ++ others).map key).Nodup) :
    mergeBy key items others = items ++ others := by
  induction others generalizing items with
  | nil => exact (List.append_nil items).symm
  | cons a rest ih =>
      have hsplit : items ++ a :: rest = items ++ [a] ++ rest := by
        simp
      show mergeBy key (upsert key a items) rest = _
      rw [upsert_of_not_mem (not_mem_of_nodup h), hsplit]
      exact ih (hsplit ▸ h)

end Definitions

namespace LastWins

theorem nil : LastWins key [] [] where
  distinct := List.nodup_nil
  keys := rfl
  last := nofun

theorem concat (h : LastWins key items merged) (a : α) :
    LastWins key (items ++ [a]) (upsert key a merged) := by
  have hsame : key a ∈ merged.map key ↔ key a ∈ items.map key := by
    rw [h.keys, List.mem_eraseDups]
  have hlast : ∀ b ∈ upsert key a merged,
      ((items ++ [a]).filter fun x => key x = key b).getLast? = some b := by
    intro b hb
    rcases Definitions.eq_or_mem_of_mem_upsert h.distinct hb with rfl | ⟨hmem, hne⟩
    · simp
    · simpa [hne.symm] using h.last b hmem
  by_cases hmem : key a ∈ merged.map key
  · refine ⟨?_, ?_, hlast⟩
    · rw [Definitions.map_key_upsert_of_mem hmem]
      exact h.distinct
    · rw [Definitions.map_key_upsert_of_mem hmem, h.keys, List.map_append, List.map_singleton,
        eraseDups_concat, if_pos (hsame.mp hmem)]
  · refine ⟨?_, ?_, hlast⟩
    · rw [Definitions.upsert_of_not_mem hmem, List.map_append]
      exact List.nodup_append.mpr ⟨h.distinct, by simp, by simpa using hmem⟩
    · rw [Definitions.upsert_of_not_mem hmem, List.map_append, List.map_append,
        List.map_singleton, h.keys, eraseDups_concat, if_neg (mt hsame.mpr hmem)]

theorem append (h : LastWins key items merged) (others : List α) :
    LastWins key (items ++ others) (mergeBy key merged others) := by
  induction others generalizing items merged with
  | nil => simpa [mergeBy] using h
  | cons a rest ih => simpa [mergeBy] using ih (h.concat a)

/-- The last item of the first key stands first. -/
example : mergeBy Prod.fst [] [("a", 1), ("b", 1), ("a", 2), ("c", 1)] =
    [("a", 2), ("b", 1), ("c", 1)] := by
  decide

theorem eq (h : LastWins key items merged) (ho : LastWins key items others) : merged = others := by
  refine List.ext_getElem? fun place => ?_
  -- both lists have the same keys at the same places, and a key has one last item
  have hkey : merged[place]?.map key = others[place]?.map key := by
    rw [← List.getElem?_map, ← List.getElem?_map, h.keys, ho.keys]
  cases ha : merged[place]? with
  | none =>
      rw [ha] at hkey
      exact (Option.map_eq_none_iff.mp hkey.symm).symm
  | some a =>
      rw [ha] at hkey
      obtain ⟨b, hb, heq⟩ := Option.map_eq_some_iff.mp hkey.symm
      have hlast := ho.last b (List.mem_of_getElem? hb)
      rw [heq, h.last a (List.mem_of_getElem? ha)] at hlast
      rw [hb, hlast]

end LastWins

end Items

/-! ## Repeated keys -/

/-- An error about an id or a name that is defined twice. -/
def Catalog.Error.IsRepetition : Error → Prop
  | duplicateAction _ => True
  | duplicateWorkflow _ => True
  | _ => False

theorem exists_of_mem_faultsInOrder {α : Type} {faults : List α → α → List Error}
    {earlier items : List α} {e : Error} (h : e ∈ faultsInOrder faults earlier items) :
    ∃ before a after, items = before ++ a :: after ∧ e ∈ faults (earlier ++ before) a := by
  induction items generalizing earlier with
  | nil => cases h
  | cons a rest ih =>
      rcases List.mem_append.mp h with h | h
      · exact ⟨[], a, rest, rfl, by simpa using h⟩
      · obtain ⟨before, b, after, rfl, hb⟩ := ih h
        exact ⟨a :: before, b, after, rfl, by simpa using hb⟩

theorem Action.not_isRepetition {a : Action} {e : Error} (h : e ∈ a.ownFaults) :
    ¬ e.IsRepetition := by
  simp only [ownFaults, List.mem_append, List.mem_ite_nil_left, List.mem_ite_nil_right,
    List.mem_singleton, List.mem_map] at h
  obtain (⟨-, rfl⟩ | ⟨-, rfl⟩) | ⟨fault, -, rfl⟩ := h <;> exact not_false

theorem Workflow.not_isRepetition {w : Workflow} {e : Error} (h : e ∈ w.ownFaults) :
    ¬ e.IsRepetition := by
  rcases List.mem_append.mp h with h | h
  · obtain ⟨-, h⟩ := List.mem_ite_nil_right.mp h
    obtain rfl := List.mem_singleton.mp h
    exact not_false
  · obtain ⟨before, s, after, -, h⟩ := exists_of_mem_faultsInOrder h
    simp only [Stage.faults, List.mem_append, List.mem_ite_nil_right, List.mem_singleton] at h
    obtain ⟨-, rfl⟩ | ⟨-, rfl⟩ := h <;> exact not_false

namespace Definitions

variable {sources : List Definitions} {d other : Definitions} {e : Error}

/-- Definitions in which no two actions have one id, and no two workflows one name. -/
structure Distinct (d : Definitions) : Prop where
  actions : (d.actions.map Action.id).Nodup
  workflows : (d.workflows.map Workflow.name).Nodup

theorem Distinct.not_isRepetition (h : d.Distinct) (he : build d = .error e) :
    ¬ e.IsRepetition := by
  have hfault := List.mem_of_head? (Catalog.build_eq_error.mp he)
  rcases List.mem_append.mp hfault with hfault | hfault
  · obtain ⟨before, a, after, hitems, ha⟩ := exists_of_mem_faultsInOrder hfault
    have hnew : a.id ∉ before.map Action.id := not_mem_of_nodup (hitems ▸ h.actions)
    rw [Action.faults, List.nil_append, if_neg hnew, List.append_nil] at ha
    exact Action.not_isRepetition ha
  · obtain ⟨before, w, after, hitems, hw⟩ := exists_of_mem_faultsInOrder hfault
    have hnew : w.name ∉ before.map Workflow.name := not_mem_of_nodup (hitems ▸ h.workflows)
    rw [Workflow.faults, List.nil_append, if_neg hnew, List.append_nil] at hw
    rcases List.mem_append.mp hw with hw | hw
    · exact Workflow.not_isRepetition hw
    · obtain ⟨x, -, rfl⟩ := List.mem_map.mp hw
      exact not_false

/-! ## Sources -/

/-- Definitions that hold what remains of the items of sources. -/
structure Overlaid (sources : List Definitions) (d : Definitions) : Prop where
  actions : LastWins Action.id (sources.flatMap actions) d.actions
  workflows : LastWins Workflow.name (sources.flatMap workflows) d.workflows

namespace Overlaid

theorem merge (h : d.Overlaid sources) (other : Definitions) :
    (d.merge other).Overlaid (sources ++ [other]) where
  actions := by simpa [Definitions.merge] using h.actions.append other.actions
  workflows := by simpa [Definitions.merge] using h.workflows.append other.workflows

theorem foldl_merge (h : d.Overlaid sources) (others : List Definitions) :
    (others.foldl Definitions.merge d).Overlaid (sources ++ others) := by
  induction others generalizing sources d with
  | nil => simpa using h
  | cons other rest ih => simpa using ih (h.merge other)

theorem eq (h : d.Overlaid sources) (ho : other.Overlaid sources) : d = other := by
  cases d
  cases other
  exact congrArg₂ Definitions.mk (h.actions.eq ho.actions) (h.workflows.eq ho.workflows)

theorem distinct (h : d.Overlaid sources) : d.Distinct :=
  ⟨h.actions.distinct, h.workflows.distinct⟩

end Overlaid

theorem overlaid_mergeAll (sources : List Definitions) : (mergeAll sources).Overlaid sources := by
  have hempty : empty.Overlaid [] := ⟨.nil, .nil⟩
  exact hempty.foldl_merge sources

end Definitions

/-! ## Files -/

section Files

variable {α β : Type} {t : FileTree}

/-- What only reads files and goes on with what only reads them reads one after the other. -/
theorem run_bind_eq {x : LoadT (StateM FileTree) α} {f : α → LoadT (StateM FileTree) β}
    {result : Except Error α} {g : α → Except Error β} (hx : x.run.run t = (result, t))
    (hf : ∀ a, (f a).run.run t = (g a, t)) : (x >>= f).run.run t = (result.bind g, t) := by
  rw [ExceptT.run_bind, StateT.run_bind, hx]
  cases result with
  | error e => rfl
  | ok a => exact hf a

theorem run_mapM_eq {f : α → LoadT (StateM FileTree) β} {g : α → Except Error β}
    (h : ∀ a, (f a).run.run t = (g a, t)) (items : List α) :
    (items.mapM f).run.run t = (items.mapM g, t) := by
  induction items with
  | nil => rfl
  | cons a rest ih =>
      rw [List.mapM_cons, List.mapM_cons]
      exact run_bind_eq (h a) fun b => run_bind_eq ih fun bs => rfl

end Files

namespace Definitions

def ofText (path : String) (format : FileFormat) :
    Except FileFault String → Except Error Definitions
  | .error fault => .error (.unreadable path fault)
  | .ok text => parseText shape decode format path text

def ofFile (t : FileTree) (path : String) : Except Error Definitions :=
  match FileFormat.ofPath? path with
  | none => .error (.unsupportedFormat path)
  | some format => ofText path format (t.readText path)

theorem run_load (t : FileTree) (path : String) :
    (load path : LoadT (StateM FileTree) Definitions).run.run t = (ofFile t path, t) := by
  unfold load loadFile ofFile
  cases FileFormat.ofPath? path with
  | none => rfl
  | some format =>
      have hread : (ExceptT.lift (FileAccess.readText path) :
          LoadT (StateM FileTree) (Except FileFault String)).run.run t =
            (.ok (t.readText path), t) := rfl
      refine run_bind_eq (g := ofText path format) hread ?_
      intro text
      cases text <;> rfl

end Definitions

namespace Catalog

/-- Files are read in order and left as they are, and what they define is merged and built. -/
theorem run_load (t : FileTree) (paths : List String) :
    (load paths : LoadT (StateM FileTree) Catalog).run.run t =
      ((paths.mapM (Definitions.ofFile t)).bind fun sources => build (.mergeAll sources), t) :=
  run_bind_eq (run_mapM_eq (Definitions.run_load t) paths) fun _ => rfl

end Catalog

namespace Definitions

/-- The last definition of an id or a name counts, at the place of the first one. Merged
definitions repeat nothing, and whatever is arranged like them is built like them. Loading files
builds what they define in that way. -/
theorem mergeAll_lastWins (sources : List Definitions) :
    (mergeAll sources).Overlaid sources ∧
      (∀ id, build (mergeAll sources) ≠ .error (.duplicateAction id)) ∧
      (∀ name, build (mergeAll sources) ≠ .error (.duplicateWorkflow name)) ∧
      (∀ d, d.Overlaid sources → build (mergeAll sources) = build d) ∧
      ∀ t paths, paths.mapM (ofFile t) = .ok sources →
        (Catalog.load paths : LoadT (StateM FileTree) Catalog).run.run t =
          (build (mergeAll sources), t) := by
  have hoverlaid := overlaid_mergeAll sources
  refine ⟨hoverlaid, ?_, ?_, ?_, ?_⟩
  · intro id h
    exact hoverlaid.distinct.not_isRepetition h trivial
  · intro name h
    exact hoverlaid.distinct.not_isRepetition h trivial
  · intro d hd
    rw [hoverlaid.eq hd]
  · intro t paths h
    rw [Catalog.run_load, h]
    rfl

/-! ## A single source -/

theorem mergeAll_of_distinct {d : Definitions} (h : d.Distinct) : mergeAll [d] = d := by
  have hactions : mergeBy Action.id [] d.actions = d.actions := mergeBy_of_nodup h.actions
  have hworkflows : mergeBy Workflow.name [] d.workflows = d.workflows :=
    mergeBy_of_nodup h.workflows
  exact congrArg₂ Definitions.mk hactions hworkflows

/-- What a single file defines is merged with itself before it is built. That comes to building it
as it is exactly if no key is repeated, or if something else is wrong of which both ways tell
first. -/
theorem build_mergeAll_singleton (d : Definitions) :
    (∀ t path, ofFile t path = .ok d →
      (Catalog.load [path] : LoadT (StateM FileTree) Catalog).run.run t =
        (build (mergeAll [d]), t)) ∧
    (build (mergeAll [d]) = build d ↔ d.Distinct ∨
      ∃ e, ¬ e.IsRepetition ∧ build d = .error e ∧ build (mergeAll [d]) = .error e) := by
  constructor
  · intro t path h
    rw [Catalog.run_load, List.mapM_cons, h]
    rfl
  constructor
  · intro h
    cases hbuilt : build d with
    | ok c =>
        obtain rfl := Catalog.build_eq_ok.mp hbuilt
        exact .inl ⟨c.valid.distinctActions, c.valid.distinctWorkflows⟩
    | error e =>
        have hmerged := h.trans hbuilt
        exact .inr ⟨e, (overlaid_mergeAll [d]).distinct.not_isRepetition hmerged, rfl, hmerged⟩
  · intro h
    rcases h with h | ⟨e, -, hbuilt, hmerged⟩
    · rw [mergeAll_of_distinct h]
    · rw [hbuilt, hmerged]

def linter (name : String) : Action where
  id := "ci/lint"
  name
  category := ""
  scope := .project
  rules := []
  inputs := []
  outputs := []
  access := .none
  runner := .builtin

/-- A source that defines two actions of one id. -/
def repeated : Definitions :=
  ⟨[linter "lint", linter "lint strictly"], []⟩

/-- As it stands the source is refused. Loaded, it becomes a catalog of the second action. -/
theorem build_mergeAll_repeated :
    build repeated = .error (.duplicateAction "ci/lint") ∧
      ∃ c, build (mergeAll [repeated]) = .ok c ∧ c.actions = [linter "lint strictly"] := by
  constructor
  · exact Catalog.build_eq_error.mpr (by decide +kernel)
  · exact ⟨.ofValid ⟨[linter "lint strictly"], []⟩ (by decide +kernel), Catalog.build_eq_ok.mpr rfl,
      rfl⟩

end Definitions
end Workplan
