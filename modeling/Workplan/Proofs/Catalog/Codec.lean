import Workplan.Catalog.Load
import Workplan.Proofs.Document.Json
import Mathlib.Data.List.Permutation

/-!
# Written catalogs are read back

Each part of a catalog is read back from the Json value that is made of it. Absent texts and
configurations that say nothing are left out of it and are what a reader takes for a missing
field; a rule is written as a record although it is read from a bare text, too. Members may be
sorted on the way.
-/

namespace Workplan

open Document (Faithful Reads faithful_ofJson faithful_sorted)

variable {view : Json → Document} (hview : Faithful view)

include hview

/-! ## Actions -/

theorem Scope.reads : Reads view decode fun s => .text s.name := by
  intro s
  rw [hview.view_text]
  cases s <;> rfl

theorem Rule.reads : Reads view decode encode := by
  intro r
  have hordered : r.encode.IsOrdered := ⟨List.pairwise_singleton _ _, trivial, trivial⟩
  rw [hview.ordered _ hordered]
  rfl

theorem Rule.reads_all : Reads view (Document.listOf decode) encodeAll :=
  hview.reads_list (Rule.reads hview)

theorem Artifact.reads : Reads view decode encode := by
  intro a
  rw [decode, encode, hview.fields?_object (by simp)]
  simp [shape, List.lookup_cons, hview.reads_text _]

theorem Artifact.reads_list : Reads view decodeList encodeList := by
  intro artifacts
  rw [decodeList, encodeList, hview.fields?_object (by simp)]
  simp [listShape, List.lookup_cons, hview.reads_list (Artifact.reads hview) _]

theorem EnvironmentAccess.reads : Reads view decode encode := by
  intro a
  obtain ⟨name, description, pattern, secret⟩ := a
  cases description with
  | none =>
      rw [decode, encode, optionalMember, hview.fields?_object (by simp)]
      simp [shape, List.lookup_cons, hview.reads_text _, hview.reads_bool _]
  | some text =>
      rw [decode, encode, optionalMember, hview.fields?_object (by simp)]
      simp [shape, List.lookup_cons, hview.reads_text _, hview.reads_bool _,
        hview.reads_optionalText _]

theorem ExecutableAccess.reads : Reads view decode encode := by
  intro a
  obtain ⟨name, constraint⟩ := a
  cases constraint with
  | none =>
      rw [decode, encode, optionalMember, hview.fields?_object (by simp)]
      simp [shape, List.lookup_cons, hview.reads_text _]
  | some text =>
      rw [decode, encode, optionalMember, hview.fields?_object (by simp)]
      simp [shape, List.lookup_cons, hview.reads_text _, hview.reads_optionalText _]

theorem NetworkAccess.reads : Reads view decode encode := by
  intro a
  rw [decode, encode, hview.fields?_object (by simp)]
  simp [shape, List.lookup_cons, hview.reads_text _]

theorem Access.reads : Reads view decode encode := by
  intro a
  rw [decode, encode, hview.fields?_object (by simp)]
  simp [shape, List.lookup_cons, hview.reads_list (EnvironmentAccess.reads hview) _,
    hview.reads_list (ExecutableAccess.reads hview) _,
    hview.reads_list (NetworkAccess.reads hview) _]

/-- The members of a runner in a container may stand in any order. -/
theorem Runner.decode_container {image : String} {command : Option String}
    {entries : List (String × Json)}
    (h : entries.Perm ((typeKey, .text RunnerType.container.name) :: ("image", .text image) ::
      optionalMember "command" command)) :
    decode (.mapping .json (entries.map fun entry => (.ofAtom (.text entry.1), view entry.2))) =
      some (.container image command) := by
  cases command with
  | none =>
      obtain rfl | rfl := List.perm_pair.mp h <;>
        simp only [List.map_cons, List.map_nil, hview.view_text] <;> rfl
  | some text =>
      simp only [← List.mem_permutations', optionalMember, List.permutations',
        List.permutations'Aux, List.flatMap_cons, List.flatMap_nil, List.map_cons, List.map_nil,
        List.cons_append, List.nil_append, List.mem_cons, List.not_mem_nil, or_false] at h
      obtain rfl | rfl | rfl | rfl | rfl | rfl := h <;>
        simp only [List.map_cons, List.map_nil, hview.view_text] <;> rfl

theorem Runner.reads : Reads view decode encode := by
  intro r
  cases r with
  | builtin =>
      have hordered : (encode .builtin).IsOrdered := ⟨List.pairwise_singleton _ _, trivial, trivial⟩
      rw [hview.ordered _ hordered]
      rfl
  | container image command =>
      have hnodup : (((typeKey, .text RunnerType.container.name) :: ("image", .text image) ::
          optionalMember "command" command : List (String × Json)).map Prod.fst).Nodup := by
        cases command <;> simp [typeKey, optionalMember]
      obtain ⟨entries, hperm, hentries⟩ := hview.object _ hnodup
      exact (congrArg decode hentries).trans (Runner.decode_container hview hperm)
  | githubAction uses =>
      have hlt : typeKey < "uses" := by decide
      have hordered : (encode (.githubAction uses)).IsOrdered :=
        ⟨List.pairwise_pair.mpr hlt, trivial, trivial, trivial⟩
      rw [hview.ordered _ hordered]
      rfl

theorem Action.reads : Reads view decode encode := by
  intro a
  rw [decode, encode, hview.fields?_object (by simp)]
  simp [shape, List.lookup_cons, hview.reads_text _, Scope.reads hview _, Rule.reads_all hview _,
    Artifact.reads_list hview _, Access.reads hview _, Runner.reads hview _]

/-! ## Workflows -/

omit hview in
theorem Payload.eq_null_of_isNull {p : Payload} (h : p.isNull = true) : p = .null := by
  obtain ⟨value, hvalue⟩ := p
  cases value with
  | null => rfl
  | _ => cases h

theorem Reference.reads : Reads view decode encode := by
  intro r
  rw [decode, encode, Payload.encodeMember]
  cases hnull : r.config.isNull with
  | true =>
      -- nothing is written, and nothing is what a missing configuration stands for
      rw [hview.fields?_object (by simp)]
      simp [shape, List.lookup_cons, hview.reads_text _, Rule.reads_all hview _,
        ← Payload.eq_null_of_isNull hnull]
  | false =>
      rw [hview.fields?_object (by simp)]
      simp [shape, List.lookup_cons, hview.reads_text _, Rule.reads_all hview _,
        Payload.reads hview _]

theorem Stage.reads : Reads view decode encode := by
  intro s
  rw [decode, encode, hview.fields?_object (by simp)]
  simp [shape, List.lookup_cons, hview.reads_text _, Rule.reads_all hview _,
    hview.reads_list (Reference.reads hview) _]

theorem Workflow.reads : Reads view decode encode := by
  intro w
  rw [decode, encode, hview.fields?_object (by simp)]
  simp [shape, List.lookup_cons, hview.reads_text _, Rule.reads_all hview _,
    hview.reads_list (Stage.reads hview) _]

theorem Definitions.reads : Reads view decode encode := by
  intro d
  rw [decode, encode, hview.fields?_object (by simp)]
  simp [shape, List.lookup_cons, hview.reads_list (Action.reads hview) _,
    hview.reads_list (Workflow.reads hview) _]

/-! ## Modules -/

namespace Module

/-- The one order of the languages is found again. -/
theorem reads_language : Reads view decodeLanguage fun language =>
    .object (language.toList.map fun entry => (entry.1, .text entry.2)) := by
  intro language
  have hordered : (Json.object (language.toList.map fun entry =>
      (entry.1, .text entry.2))).IsOrdered :=
    ⟨List.pairwise_map.mpr language.sorted, Json.membersOrdered_texts _⟩
  have htexts : (language.toList.mapM fun entry =>
      (Document.ofJson (.text entry.2)).text?.map (entry.1, ·)) = some language.toList :=
    List.mapM_pure.trans (congrArg some (List.map_id _))
  simp only [hview.ordered _ hordered, Document.ofJson, Document.ofJsonMembers_eq_map,
    decodeLanguage, Document.table?_mapping]
  simp [Function.comp_def, htexts, Dictionary.ofList_toList]

theorem reads : Reads view decode encode := by
  intro m
  rw [decode, encode, hview.fields?_object (by simp)]
  simp [shape, List.lookup_cons, hview.reads_text _, reads_language hview _, hview.reads_texts _]

end Module

omit hview in
/-- Nothing of a catalog or of a list of modules is lost when it is written, whether the members
of its objects stay as they are written or are sorted by their keys. -/
theorem catalog_lossless :
    (∀ d : Definitions, Definitions.decode (.ofJson d.encode) = some d ∧
      Definitions.decode (.ofJson d.encode.sorted) = some d) ∧
      ∀ modules : List Module,
        Document.listOf Module.decode (.ofJson (.array (modules.map Module.encode))) =
          some modules ∧
        Document.listOf Module.decode (.ofJson (Json.array (modules.map Module.encode)).sorted) =
          some modules :=
  ⟨fun d => ⟨Definitions.reads faithful_ofJson d, Definitions.reads faithful_sorted d⟩,
    fun modules => ⟨faithful_ofJson.reads_list (Module.reads faithful_ofJson) modules,
      faithful_sorted.reads_list (Module.reads faithful_sorted) modules⟩⟩

end Workplan
