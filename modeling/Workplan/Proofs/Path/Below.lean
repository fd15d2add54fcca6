import Workplan.Path
import Mathlib.Data.List.DropRight

/-!
# Paths below a directory

The segments of a joined path are those of the directory and those of the path that is joined to
it, with at most one empty segment less. So the parts of an absolute directory lead to the joined
path again, however the directory is spelled, and what is left below it is the path that was joined.
-/

namespace Workplan
namespace Path

variable {directory path : String} {s t current : List Char} {body tail : List (List Char)}

/-! ## Segments -/

theorem splitSlash_append_slash (s t current : List Char) :
    splitSlash (s ++ '/' :: t) current = splitSlash s current ++ splitSlash t [] := by
  induction s generalizing current with
  | nil => simp [splitSlash]
  | cons c s ih =>
      by_cases hc : c = '/'
      · simp [splitSlash, hc, ih]
      · simp [splitSlash, hc, ih]

theorem splitSlash_of_not_mem (h : '/' ∉ s) (current : List Char) :
    splitSlash s current = [current.reverse ++ s] := by
  induction s generalizing current with
  | nil => simp [splitSlash]
  | cons c s ih =>
      obtain ⟨hc, hs⟩ := not_or.mp fun hmem => h (List.mem_cons.mpr hmem)
      rw [splitSlash, if_neg (Ne.symm hc), ih hs]
      simp

/-- The first segment holds what was read of it before. -/
theorem exists_splitSlash (s current : List Char) :
    ∃ more rest, splitSlash s current = (current.reverse ++ more) :: rest := by
  induction s generalizing current with
  | nil => exact ⟨[], [], by simp [splitSlash]⟩
  | cons c s ih =>
      by_cases hc : c = '/'
      · exact ⟨[], splitSlash s [], by simp [splitSlash, hc]⟩
      · obtain ⟨more, rest, h⟩ := ih (c :: current)
        exact ⟨c :: more, rest, by simp [splitSlash, hc, h]⟩

theorem segments_ne_nil (path : String) : segments path ≠ [] := by
  obtain ⟨more, rest, h⟩ := exists_splitSlash path.toList []
  rw [segments, h]
  exact List.cons_ne_nil _ _

theorem segments_append_slash (directory path : String) :
    segments (directory ++ "/" ++ path) = segments directory ++ segments path := by
  have htext : (directory ++ "/" ++ path).toList = directory.toList ++ '/' :: path.toList := by
    simp
  rw [segments, htext, splitSlash_append_slash]
  rfl

/-! ## Absolute and relative paths -/

theorem exists_segments_of_isAbsolute (h : isAbsolute path = true) :
    ∃ body, body ≠ [] ∧ segments path = [] :: body := by
  obtain ⟨s, hs⟩ : ∃ s, path.toList = '/' :: s := by
    cases hpath : path.toList with
    | nil => simp [isAbsolute, hpath] at h
    | cons c s => exact ⟨s, by simpa [isAbsolute, hpath] using h⟩
  obtain ⟨more, rest, hbody⟩ := exists_splitSlash s []
  refine ⟨splitSlash s [], ?_, ?_⟩
  · rw [hbody]
    exact List.cons_ne_nil _ _
  · rw [segments, hs, splitSlash, if_pos rfl]
    rfl

theorem splitStart_of_segments (hbody : body ≠ []) (h : segments path = [] :: body) :
    splitStart path = (some .root, body) := by
  obtain ⟨next, rest, rfl⟩ := List.exists_cons_of_ne_nil hbody
  rw [splitStart, h]

theorem parts_of_segments (hbody : body ≠ []) (h : segments path = [] :: body) :
    parts path = .root :: (body.filter (!isFiller ·)).map partOf := by
  rw [parts, splitStart_of_segments hbody h]
  rfl

theorem partOf_ne_root (segment : List Char) : partOf segment ≠ .root := by
  rw [partOf]
  split <;> exact Part.noConfusion

theorem start_ne_root (h : isAbsolute path = false) : (splitStart path).1 ≠ some .root := by
  have hsegments : ∀ next rest, segments path ≠ [] :: next :: rest := by
    intro next rest hpath
    cases hs : path.toList with
    | nil => simp [segments, hs, splitSlash] at hpath
    | cons c s =>
        have hc : c ≠ '/' := by
          rintro rfl
          simp [isAbsolute, hs] at h
        obtain ⟨more, others, hsplit⟩ := exists_splitSlash s [c]
        rw [segments, hs, splitSlash, if_neg hc, hsplit] at hpath
        simp at hpath
  rw [splitStart]
  split
  · next heq => exact absurd heq (hsegments _ _)
  · simp
  · simp

theorem root_not_mem_parts (h : isAbsolute path = false) : Part.root ∉ parts path := by
  rw [parts]
  intro hmem
  rcases List.mem_append.mp hmem with hstart | hbody
  · exact start_ne_root h (Option.mem_toList.mp hstart)
  · obtain ⟨segment, -, hroot⟩ := List.mem_map.mp hbody
    exact partOf_ne_root segment hroot

/-- An absolute directory does not lead to a relative path. -/
theorem stripBase?_of_relative (hdirectory : isAbsolute directory = true)
    (hpath : isAbsolute path = false) : stripBase? directory path = none := by
  obtain ⟨body, hbody, hsegments⟩ := exists_segments_of_isAbsolute hdirectory
  have hprefix : (parts directory).isPrefixOf (parts path) ≠ true := by
    intro h
    have hsubset := (List.isPrefixOf_iff_prefix.mp h).subset
    rw [parts_of_segments hbody hsegments] at hsubset
    exact root_not_mem_parts hpath (hsubset List.mem_cons_self)
  rw [stripBase?, if_neg hprefix]

/-! ## Joined paths -/

def counted (body : List (List Char)) : List (List Char) :=
  body.filter (!isFiller ·)

/-- Dropping all that counts in the first segments leaves at most such as do not count. -/
theorem dropWhile_dropCounted (body tail : List (List Char)) :
    (dropCounted (counted body).length (body ++ tail)).dropWhile isFiller =
      tail.dropWhile isFiller := by
  induction body with
  | nil => simp [counted, dropCounted]
  | cons segment body ih =>
      cases hfiller : isFiller segment with
      | false => simpa [counted, dropCounted, hfiller] using ih
      | true =>
          have hcounted : counted (segment :: body) = counted body := by
            simp [counted, hfiller]
          rw [hcounted, List.cons_append]
          cases hlength : (counted body).length with
          | zero =>
              rw [hlength] at ih
              simpa [dropCounted, hfiller] using ih
          | succ n =>
              rw [hlength] at ih
              simpa [dropCounted, hfiller] using ih

/-- A slash that ends the directory is the one that joins the path to it. -/
theorem exists_front (hdirectory : isAbsolute directory = true) (hpath : isAbsolute path = false) :
    ∃ front, join directory path = front ++ "/" ++ path ∧
      (directory = front ∨ directory = front ++ "/") := by
  rw [join, if_neg (ne_true_of_eq_false hpath)]
  split
  · next hnone =>
    rw [isAbsolute, List.getLast?_eq_none_iff.mp hnone] at hdirectory
    cases hdirectory
  · next hslash =>
    obtain ⟨front, hfront⟩ := List.getLast?_eq_some_iff.mp hslash
    have htext : directory = String.ofList front ++ "/" := String.toList_inj.mp (by simp [hfront])
    exact ⟨_, congrArg (· ++ path) htext, .inr htext⟩
  · exact ⟨directory, rfl, .inl rfl⟩

/-- A joined path has the segments of the directory, but perhaps an empty last one, before those of
the path. -/
theorem exists_segments_join (hdirectory : isAbsolute directory = true)
    (hpath : isAbsolute path = false) :
    ∃ body, segments (join directory path) = [] :: (body ++ segments path) ∧
      (segments directory = [] :: body ∨ segments directory = [] :: (body ++ [[]])) := by
  obtain ⟨whole, -, hwhole⟩ := exists_segments_of_isAbsolute hdirectory
  obtain ⟨front, hjoin, hfront⟩ := exists_front hdirectory hpath
  obtain ⟨first, body, hbody⟩ := List.exists_cons_of_ne_nil (segments_ne_nil front)
  have hsegments : segments directory = first :: body ∨
      segments directory = first :: (body ++ [[]]) := by
    rcases hfront with rfl | rfl
    · exact .inl hbody
    · have hlast := segments_append_slash front ""
      rw [String.append_empty, hbody] at hlast
      exact .inr hlast
  obtain rfl : first = [] := by
    rcases hsegments with heq | heq <;> exact (List.cons.inj (heq.symm.trans hwhole)).1
  refine ⟨body, ?_, hsegments⟩
  rw [hjoin, segments_append_slash, hbody]
  rfl

/-- What is left of a joined path below its directory is the path, but for what does not count at
its ends. -/
theorem stripBase?_join (hdirectory : isAbsolute directory = true)
    (hpath : isAbsolute path = false) :
    stripBase? directory (join directory path) =
      some (String.ofList (joinSlash (trimRight ((segments path).dropWhile isFiller)))) := by
  obtain ⟨body, hjoin, hfront⟩ := exists_segments_join hdirectory hpath
  have hne : body ++ segments path ≠ [] :=
    List.append_ne_nil_of_right_ne_nil _ (segments_ne_nil path)
  have hparts : parts (join directory path) =
      .root :: (counted body).map partOf ++ (counted (segments path)).map partOf := by
    rw [parts_of_segments hne hjoin]
    simp [counted]
  have hbase : parts directory = .root :: (counted body).map partOf := by
    obtain ⟨whole, hwhole, hdirectory⟩ := exists_segments_of_isAbsolute hdirectory
    rw [parts_of_segments hwhole hdirectory]
    rcases hfront with hsame | hempty
    · obtain ⟨-, rfl⟩ := List.cons.inj (hdirectory.symm.trans hsame)
      rfl
    · obtain ⟨-, rfl⟩ := List.cons.inj (hdirectory.symm.trans hempty)
      simp [counted, isFiller]
  have hprefix : (parts directory).isPrefixOf (parts (join directory path)) = true := by
    rw [hparts, hbase]
    exact List.isPrefixOf_iff_prefix.mpr (List.prefix_append _ _)
  rw [stripBase?, if_pos hprefix, splitStart_of_segments hne hjoin, hbase]
  simp [dropWhile_dropCounted]

/-! ## Paths of names -/

/-- A name of a file or directory: some text without slashes, and none of the two that lead to the
directory itself and to the one above. -/
structure IsName (name : List Char) : Prop where
  nonempty : name ≠ []
  closed : '/' ∉ name
  notHere : name ≠ ['.']
  notUp : name ≠ ['.', '.']

/-- The path of the given names, with a slash between each two. -/
def ofNames (names : List (List Char)) : String :=
  String.ofList (joinSlash names)

variable {names : List (List Char)}

theorem segments_ofNames (h : ∀ name ∈ names, IsName name) (hne : names ≠ []) :
    segments (ofNames names) = names := by
  rw [segments, ofNames, String.toList_ofList]
  induction names with
  | nil => exact absurd rfl hne
  | cons name rest ih =>
      obtain ⟨hname, hrest⟩ := List.forall_mem_cons.mp h
      cases rest with
      | nil => exact splitSlash_of_not_mem hname.closed []
      | cons next rest =>
          rw [joinSlash, splitSlash_append_slash, splitSlash_of_not_mem hname.closed,
            ih hrest (List.cons_ne_nil _ _)]
          rfl
          · simp

theorem isFiller_eq_false {name : List Char} (h : IsName name) : isFiller name = false := by
  simp [isFiller, h.nonempty, h.notHere]

theorem isAbsolute_ofNames (h : ∀ name ∈ names, IsName name) :
    isAbsolute (ofNames names) = false := by
  by_cases hne : names = []
  · rw [hne]
    rfl
  · refine Bool.eq_false_iff.mpr fun habsolute => ?_
    obtain ⟨body, -, hsegments⟩ := exists_segments_of_isAbsolute habsolute
    rw [segments_ofNames h hne] at hsegments
    exact (h [] (hsegments ▸ List.mem_cons_self)).nonempty rfl

theorem trimmed_segments_ofNames (h : ∀ name ∈ names, IsName name) :
    trimRight ((segments (ofNames names)).dropWhile isFiller) = names := by
  by_cases hne : names = []
  · rw [hne]
    rfl
  · have hall : ∀ name ∈ names, ¬ isFiller name = true := fun name hname =>
      ne_true_of_eq_false (isFiller_eq_false (h name hname))
    have hfront : names.dropWhile isFiller = names :=
      List.dropWhile_eq_self_iff.mpr fun hlength => hall _ (List.getElem_mem hlength)
    have hback : trimRight names = names :=
      List.rdropWhile_eq_self_iff.mpr fun hlast => hall _ (List.getLast_mem hlast)
    rw [segments_ofNames h hne, hfront, hback]

/-- What is joined to a directory is found again below it. -/
theorem stripBase?_join_ofNames (hdirectory : isAbsolute directory = true)
    (h : ∀ name ∈ names, IsName name) :
    stripBase? directory (join directory (ofNames names)) = some (ofNames names) := by
  rw [stripBase?_join hdirectory (isAbsolute_ofNames h), trimmed_segments_ofNames h]
  rfl

end Path
end Workplan
