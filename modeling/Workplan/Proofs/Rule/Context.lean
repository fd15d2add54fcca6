import Workplan.Proofs.Rule.Reads
import Workplan.Rule.Context

/-!
# What projects and modules define

The context of a project defines the variables of the repository, the directory and the
environment. That of a module adds variables of modules to it, of which the project defines none:
so it extends that of the project, and both say the same of every other variable.
-/

namespace Workplan

namespace Dictionary

variable {α : Type} {d : Dictionary α} {key : String} {entries : List (String × α)}

theorem get?_insertAll_of_ne (h : ∀ entry ∈ entries, entry.1 ≠ key) :
    (d.insertAll entries).get? key = d.get? key := by
  induction entries generalizing d with
  | nil => rfl
  | cons entry rest ih =>
      obtain ⟨hne, hrest⟩ := List.forall_mem_cons.mp h
      rw [insertAll, List.foldl_cons, ← insertAll, ih hrest, get?_insert, if_neg hne.symm]

theorem get?_insertAll_congr {other : Dictionary α} (h : d.get? key = other.get? key) :
    (d.insertAll entries).get? key = (other.insertAll entries).get? key := by
  induction entries generalizing d other with
  | nil => exact h
  | cons entry rest ih =>
      rw [insertAll, insertAll, List.foldl_cons, List.foldl_cons]
      refine ih ?_
      rw [get?_insert, get?_insert, h]

theorem get?_insertAll_map (names : List String) (value : String → α) :
    (d.insertAll (names.map fun name => (name, value name))).get? key =
      if key ∈ names then some (value key) else d.get? key := by
  induction names generalizing d with
  | nil => rfl
  | cons name rest ih =>
      rw [List.map_cons, insertAll, List.foldl_cons, ← insertAll, ih, get?_insert]
      by_cases hkey : key = name
      · simp [hkey]
      · simp [hkey]

end Dictionary

namespace Rule

variable {directory : String} {env other : Dictionary String} {m : Module} {name : String}

theorem get?_projectContext :
    (projectContext directory env).get? name =
      if name = "ENV" then some (.map env)
      else if name = "PROJECT_DIR" then some (.str directory)
      else if name ∈ repositoryVariables then some (.str ((env.get? name).getD ""))
      else none := by
  have hsplit : projectContext directory env =
      ((Dictionary.empty.insertAll (repositoryVariables.map fun name =>
        (name, Value.str ((env.get? name).getD "")))).insert "PROJECT_DIR" (.str directory)).insert
          "ENV" (.map env) := by
    simp [projectContext, projectEntries, Dictionary.ofList, Dictionary.insertAll]
  rw [hsplit, Dictionary.get?_insert, Dictionary.get?_insert, Dictionary.get?_insertAll_map,
    Dictionary.get?_empty]

/-- Every variable of a project but `ENV` is settled by the entries of the environment for the
repository. -/
theorem get?_projectContext_congr (hname : name ≠ "ENV")
    (h : ∀ entry ∈ repositoryVariables, env.get? entry = other.get? entry) :
    (projectContext directory env).get? name = (projectContext directory other).get? name := by
  rw [get?_projectContext, get?_projectContext, if_neg hname, if_neg hname]
  refine ite_congr rfl (fun _ => rfl) fun _ => ite_congr rfl (fun hmem => ?_) fun _ => rfl
  rw [h name hmem]

/-- No variable of a project is one of a module. -/
theorem get?_projectContext_of_module (h : Program.isModuleVariable name = true) :
    (projectContext directory env).get? name = none := by
  have hproject : ∀ other ∈ "ENV" :: "PROJECT_DIR" :: repositoryVariables,
      Program.isModuleVariable other = false := by
    decide +kernel
  have hne : name ∉ "ENV" :: "PROJECT_DIR" :: repositoryVariables := by
    intro hname
    rw [hproject name hname] at h
    cases h
  obtain ⟨henv, hdirectory, hrepository⟩ : name ≠ "ENV" ∧ name ≠ "PROJECT_DIR" ∧
      name ∉ repositoryVariables := by
    simpa using hne
  rw [get?_projectContext, if_neg henv, if_neg hdirectory, if_neg hrepository]

theorem get?_moduleContext_congr
    (h : (projectContext directory env).get? name = (projectContext directory other).get? name) :
    (moduleContext directory env m).get? name = (moduleContext directory other m).get? name :=
  Dictionary.get?_insertAll_congr h

theorem isModuleVariable_of_mem_moduleEntries {entry : String × Value}
    (h : entry ∈ moduleEntries directory m) : Program.isModuleVariable entry.1 = true := by
  have hnames : ∀ name ∈ (moduleEntries directory m).map Prod.fst,
      Program.isModuleVariable name = true := by
    simp only [moduleEntries, List.map_cons, List.map_nil]
    decide +kernel
  exact hnames _ (List.mem_map_of_mem h)

theorem get?_moduleContext_of_project (h : Program.isModuleVariable name = false) :
    (moduleContext directory env m).get? name = (projectContext directory env).get? name := by
  refine Dictionary.get?_insertAll_of_ne fun entry hentry hname => ?_
  rw [← hname, isModuleVariable_of_mem_moduleEntries hentry] at h
  cases h

theorem moduleContext_extends :
    (moduleContext directory env m).Extends (projectContext directory env) := by
  intro name value hvalue
  cases hname : Program.isModuleVariable name with
  | false => exact (get?_moduleContext_of_project hname).trans hvalue
  | true => cases (get?_projectContext_of_module hname).symm.trans hvalue

/-- To what its project defines a module adds variables of modules only, and whatever has a value
for the project has this value for the module. -/
theorem moduleContext_conservative (directory : String) (env : Dictionary String) (m : Module) :
    (moduleContext directory env m).Extends (projectContext directory env) ∧
      (∀ name value, (moduleContext directory env m).get? name = some value →
        (projectContext directory env).get? name = some value ∨
          Program.isModuleVariable name = true) ∧
      ∀ (program : Program) (v : Value), program.run (projectContext directory env) = .ok v →
        program.run (moduleContext directory env m) = .ok v := by
  refine ⟨moduleContext_extends, ?_, ?_⟩
  · intro name value hvalue
    cases hname : Program.isModuleVariable name with
    | true => exact .inr rfl
    | false => exact .inl ((get?_moduleContext_of_project hname).symm.trans hvalue)
  · intro program v hrun
    exact Program.run_of_extends moduleContext_extends hrun

/-- An environment with an entry named like a variable of modules. The entry is seen below `ENV`
only, and the variable, which the project lacks, is not reached. -/
theorem moduleContext_conservative_clash : ∃ program,
    program? "ENV.MODULE_NAME == \"x\" || MODULE_NAME == \"x\"" = some program ∧
      program.run (projectContext "/work" (.ofList [("MODULE_NAME", "x")])) = .ok (.bool true) ∧
      program.run (moduleContext "/work" (.ofList [("MODULE_NAME", "x")])
        (.named "m1" "api" "cargo")) = .ok (.bool true) := by
  have hread : (program? "ENV.MODULE_NAME == \"x\" || MODULE_NAME == \"x\"").map (fun program =>
      program.run (projectContext "/work" (.ofList [("MODULE_NAME", "x")]))) =
        some (.ok (.bool true)) := by
    decide +kernel
  obtain ⟨program, hprogram, hproject⟩ := Option.map_eq_some_iff.mp hread
  obtain ⟨-, -, hkept⟩ := moduleContext_conservative "/work" (.ofList [("MODULE_NAME", "x")])
    (.named "m1" "api" "cargo")
  exact ⟨program, hprogram, hproject, hkept program _ hproject⟩

/-! ## Rules of projects and modules -/

variable {r : Rule}

theorem isMatch_moduleContext (h : r.isMatch (projectContext directory env) = true) :
    r.isMatch (moduleContext directory env m) = true :=
  isMatch_of_extends moduleContext_extends h

/-- What reads no variable of a module is decided for a module as for its project. -/
theorem isMatch_moduleContext_eq (h : r.usesModuleVariables = false) :
    r.isMatch (moduleContext directory env m) = r.isMatch (projectContext directory env) := by
  refine isMatch_eq_of_agree fun name hname => get?_moduleContext_of_project ?_
  rw [Bool.eq_false_iff] at h ⊢
  exact fun hmodule => h (usesModuleVariables_iff.mpr ⟨name, hname, hmodule⟩)

end Rule
end Workplan
