import Workplan.Proofs.Path.Below
import Workplan.Rule.Context

/-!
# The spelling of files

Every file of a module is brought to one spelling, which is relative and knows one kind of slash. A
file in this spelling stays as it is, and a file that is spelled below the project directory is
brought to the spelling that it has from there.
-/

namespace Workplan
namespace Rule

variable {directory file : String} {s : List Char}

/-! ## Slashes at the ends -/

theorem trimSlashes_eq (s : List Char) :
    trimSlashes s = (s.dropWhile (· == '/')).rdropWhile (· == '/') := rfl

theorem mem_of_mem_trimSlashes {c : Char} (h : c ∈ trimSlashes s) : c ∈ s := by
  rw [trimSlashes_eq] at h
  exact (List.dropWhile_sublist _).subset ((List.rdropWhile_prefix _ _).subset h)

theorem head?_dropWhile_ne (s : List Char) : (s.dropWhile (· == '/')).head? ≠ some '/' := by
  intro h
  have hfirst := List.head?_dropWhile_not (· == '/') s
  rw [h] at hfirst
  cases hfirst

theorem head?_trimSlashes (s : List Char) : (trimSlashes s).head? ≠ some '/' := by
  rw [trimSlashes_eq]
  intro h
  obtain ⟨rest, hrest⟩ := List.head?_eq_some_iff.mp h
  obtain ⟨back, hback⟩ := List.rdropWhile_prefix (· == '/') (s.dropWhile (· == '/'))
  rw [hrest] at hback
  exact head?_dropWhile_ne s (hback ▸ rfl)

theorem getLast?_trimSlashes (s : List Char) : (trimSlashes s).getLast? ≠ some '/' := by
  rw [trimSlashes_eq, List.rdropWhile, List.getLast?_reverse]
  exact head?_dropWhile_ne _

/-- What neither begins nor ends with a slash is not trimmed. -/
theorem trimSlashes_eq_self (hhead : s.head? ≠ some '/') (hlast : s.getLast? ≠ some '/') :
    trimSlashes s = s := by
  have hfront : s.dropWhile (· == '/') = s := by
    cases s with
    | nil => rfl
    | cons c s => simpa using hhead
  have hback : s.rdropWhile (· == '/') = s := by
    refine List.rdropWhile_eq_self_iff.mpr fun hne hslash => hlast ?_
    rw [List.getLast?_eq_some_getLast hne, eq_of_beq hslash]
  rw [trimSlashes_eq, hfront, hback]

/-! ## Files -/

/-- One spelling of a file: relative, and with plain slashes between its parts only. -/
structure IsPlain (file : String) : Prop where
  slashes : '\\' ∉ file.toList
  starts : file.toList.head? ≠ some '/'
  ends : file.toList.getLast? ≠ some '/'

def plain (path : String) : String :=
  String.ofList (trimSlashes (path.toList.map fun c => if c = '\\' then '/' else c))

theorem normalizeFile_eq (directory file : String) :
    normalizeFile directory file = plain ((Path.stripBase? directory file).getD file) := rfl

theorem isPlain_plain (path : String) : IsPlain (plain path) where
  slashes hmem := by
    rw [plain, String.toList_ofList] at hmem
    obtain ⟨c, -, hc⟩ := List.mem_map.mp (mem_of_mem_trimSlashes hmem)
    split at hc
    · cases hc
    · contradiction
  starts := by
    rw [plain, String.toList_ofList]
    exact head?_trimSlashes _
  ends := by
    rw [plain, String.toList_ofList]
    exact getLast?_trimSlashes _

theorem plain_of_isPlain (h : IsPlain file) : plain file = file := by
  have hmap : (file.toList.map fun c => if c = '\\' then '/' else c) = file.toList := by
    refine (List.map_congr_left fun c hc => if_neg ?_).trans (List.map_id _)
    exact fun hbackslash => h.slashes (hbackslash ▸ hc)
  rw [plain, hmap, trimSlashes_eq_self h.starts h.ends, String.ofList_toList]

theorem isPlain_normalizeFile (directory file : String) :
    IsPlain (normalizeFile directory file) :=
  isPlain_plain _

/-- No relative file lies below an absolute directory by its spelling. -/
theorem normalizeFile_of_relative (hdirectory : Path.isAbsolute directory = true)
    (hfile : Path.isAbsolute file = false) : normalizeFile directory file = plain file := by
  rw [normalizeFile_eq, Path.stripBase?_of_relative hdirectory hfile]
  rfl

theorem IsPlain.isAbsolute (h : IsPlain file) : Path.isAbsolute file = false :=
  beq_eq_false_iff_ne.mpr h.starts

theorem normalizeFile_of_isPlain (hdirectory : Path.isAbsolute directory = true)
    (h : IsPlain file) : normalizeFile directory file = file := by
  rw [normalizeFile_of_relative hdirectory h.isAbsolute, plain_of_isPlain h]

theorem normalizeFile_join {names : List (List Char)}
    (hdirectory : Path.isAbsolute directory = true) (h : ∀ name ∈ names, Path.IsName name) :
    normalizeFile directory (Path.join directory (Path.ofNames names)) =
      normalizeFile directory (Path.ofNames names) := by
  rw [normalizeFile_of_relative hdirectory (Path.isAbsolute_ofNames h), normalizeFile_eq,
    Path.stripBase?_join_ofNames hdirectory h]
  rfl

/-- Every file is brought to a plain spelling, in which it stays, and in which a file that already
has one is left. Files that are given by their names come to the same spelling from below the
directory and from the directory. -/
theorem normalizeFiles_plain (directory : String) (hdirectory : Path.isAbsolute directory = true)
    (files : List String) :
    (normalizeFiles directory files).length = files.length ∧
      (∀ file ∈ normalizeFiles directory files, IsPlain file) ∧
      ((∀ file ∈ files, IsPlain file) → normalizeFiles directory files = files) ∧
      normalizeFiles directory (normalizeFiles directory files) = normalizeFiles directory files ∧
      ∀ relative : List (List (List Char)), (∀ names ∈ relative, ∀ name ∈ names, Path.IsName name) →
        normalizeFiles directory
            (relative.map fun names => Path.join directory (Path.ofNames names)) =
          normalizeFiles directory (relative.map Path.ofNames) := by
  have hplain : ∀ file ∈ normalizeFiles directory files, IsPlain file := by
    intro file hfile
    obtain ⟨given, -, rfl⟩ := List.mem_map.mp hfile
    exact isPlain_normalizeFile directory given
  have hkept : ∀ others : List String, (∀ file ∈ others, IsPlain file) →
      normalizeFiles directory others = others := by
    intro others hothers
    refine (List.map_congr_left fun file hfile => ?_).trans (List.map_id _)
    exact normalizeFile_of_isPlain hdirectory (hothers file hfile)
  refine ⟨List.length_map _, hplain, hkept files, hkept _ hplain, ?_⟩
  intro relative hrelative
  rw [normalizeFiles, normalizeFiles, List.map_map, List.map_map]
  refine List.map_congr_left fun names hnames => ?_
  exact normalizeFile_join hdirectory (hrelative names hnames)

/-- The directory is not spelled the shortest way, and the file is found below it all the same. -/
theorem normalizeFiles_plain_respelled :
    Path.join "/work/./api//" "src/main.rs" = "/work/./api//src/main.rs" ∧
      IsPlain "src/main.rs" ∧
      normalizeFiles "/work/./api//" ["/work/./api//src/main.rs"] = ["src/main.rs"] := by
  have hjoin : Path.join "/work/./api//" "src/main.rs" = "/work/./api//src/main.rs" := by decide
  have hplain : IsPlain "src/main.rs" := ⟨by decide, by decide, by decide⟩
  have hnames : ∀ name ∈ ["src".toList, "main.rs".toList], Path.IsName name := by
    intro name hname
    rcases List.mem_pair.mp hname with rfl | rfl <;>
      exact ⟨by decide, by decide, by decide, by decide⟩
  obtain ⟨-, -, hkept, -, hbelow⟩ := normalizeFiles_plain "/work/./api//" rfl ["src/main.rs"]
  have hsame : normalizeFiles "/work/./api//" ["/work/./api//src/main.rs"] =
      normalizeFiles "/work/./api//" ["src/main.rs"] :=
    hjoin ▸ hbelow [["src".toList, "main.rs".toList]] (List.forall_mem_singleton.mpr hnames)
  exact ⟨hjoin, hplain, hsame.trans (hkept (List.forall_mem_singleton.mpr hplain))⟩

end Rule
end Workplan
