import RttiProbe.Export
import RttiProbe.Proofs.Path.Components
/-!
# Where headers go

Making a name fit for a file takes out every separator, so each namespace of a class is one piece
of the path of its header, and the path is a relative one.  Dots are kept: a namespace that comes
out empty or as `.` says nothing in the path, and one that comes out as `..` leads out of the
directory that the header should have gone to.
-/

set_option autoImplicit false

namespace RttiProbe.Header

open RttiProbe.Path (Component)

/-! ## Sanitized names -/

/-- No separator is left in a sanitized name. -/
theorem slash_not_mem_sanitize (name : Text) : '/' ∉ sanitize name := by
  intro h
  obtain ⟨c, -, hc⟩ := List.mem_map.1 h
  split at hc
  · exact absurd hc (by decide)
  · rename_i hkept
    rw [hc] at hkept
    exact hkept (by decide)

theorem slash_not_mem_fileName (c : Class) : '/' ∉ fileName c := by
  unfold fileName
  rw [List.mem_append, not_or]
  exact ⟨slash_not_mem_sanitize c.name, by decide⟩

theorem fileName_ne_nil (c : Class) : fileName c ≠ [] :=
  List.append_ne_nil_of_right_ne_nil (sanitize c.name) (by decide)

theorem getLast?_fileName (c : Class) : (fileName c).getLast? = some 'h' := by
  unfold fileName
  rw [List.getLast?_append]
  rfl

/-- A file name does not end in a dot, so it is the name of an entry. -/
theorem isEntryName_fileName (c : Class) : Path.IsEntryName (fileName c) := by
  refine ⟨fileName_ne_nil c, ?_, ?_, slash_not_mem_fileName c⟩
  all_goals
    intro h
    have hlast := getLast?_fileName c
    rw [h] at hlast
    exact absurd hlast (by decide)

/-- The sanitized names that are no names of entries. -/
def unusableNames : List Text := [[], ['.'], ['.', '.']]

theorem isEntryName_sanitize_iff (name : Text) :
    Path.IsEntryName (sanitize name) ↔ sanitize name ∉ unusableNames := by
  unfold Path.IsEntryName unusableNames
  simp [slash_not_mem_sanitize]

/-! ## The path of a header -/

/-- The pieces of the path of a header: one for each namespace, and the file. -/
def pathNames (c : Class) : List Text := c.namespaces.map sanitize ++ [fileName c]

theorem path_eq_foldl (c : Class) : path c = (pathNames c).foldl Path.push ⟨[]⟩ := by
  unfold pathNames
  rw [List.foldl_append]
  rfl

theorem length_pathNames (c : Class) : (pathNames c).length = c.namespaces.length + 1 := by
  unfold pathNames
  rw [List.length_append, List.length_map, List.length_singleton]

theorem pathNames_ne_nil (c : Class) : pathNames c ≠ [] :=
  List.append_ne_nil_of_right_ne_nil _ (List.cons_ne_nil _ _)

theorem mem_pathNames {c : Class} {name : Text} :
    name ∈ pathNames c ↔ (∃ scope ∈ c.namespaces, sanitize scope = name) ∨ name = fileName c := by
  unfold pathNames
  rw [List.mem_append, List.mem_map, List.mem_singleton]

theorem slash_not_mem_pathNames (c : Class) : ∀ name ∈ pathNames c, '/' ∉ name := by
  intro name h
  rcases mem_pathNames.1 h with ⟨scope, -, rfl⟩ | rfl
  · exact slash_not_mem_sanitize scope
  · exact slash_not_mem_fileName c

/-- The path of a header is relative. -/
theorem isAbsolute_path (c : Class) : (path c).isAbsolute = false := by
  rw [path_eq_foldl]
  exact Path.isAbsolute_foldl_push rfl (slash_not_mem_pathNames c)

theorem descent_path (c : Class) :
    (path c).descent = (pathNames c).filterMap Component.ofPiece? := by
  rw [path_eq_foldl, Path.descent_foldl_push _ (slash_not_mem_pathNames c), Path.descent_nil,
    List.nil_append]

/-- Whatever the namespaces say, the file is an entry of its own. -/
theorem descent_path_ne_nil (c : Class) : (path c).descent ≠ [] := by
  have hfile : Component.entry (fileName c) ∈ (path c).descent := by
    rw [descent_path]
    exact List.mem_filterMap.2
      ⟨fileName c, mem_pathNames.2 (.inr rfl), (isEntryName_fileName c).ofPiece?_eq⟩
  exact List.ne_nil_of_mem hfile

/-- The path goes up exactly for the namespaces that come out as `..`. -/
theorem up_mem_descent_path_iff (c : Class) :
    Component.up ∈ (path c).descent ↔ ∃ scope ∈ c.namespaces, sanitize scope = ['.', '.'] := by
  rw [descent_path, List.mem_filterMap]
  constructor
  · rintro ⟨name, hname, hup⟩
    have hdots : name = ['.', '.'] := Path.ofPiece?_eq_up_iff.1 hup
    rcases mem_pathNames.1 hname with ⟨scope, hscope, rfl⟩ | rfl
    · exact ⟨scope, hscope, hdots⟩
    · exact absurd hdots (isEntryName_fileName c).2.2.1
  · rintro ⟨scope, hscope, hdots⟩
    exact ⟨sanitize scope, mem_pathNames.2 (.inl ⟨scope, hscope, rfl⟩),
      Path.ofPiece?_eq_up_iff.2 hdots⟩

/-- The path has an entry for each namespace and one for the file exactly if every namespace comes
out as the name of an entry. -/
theorem hasEntries_path_iff (c : Class) :
    (path c).HasEntries (c.namespaces.length + 1)
      ↔ ∀ scope ∈ c.namespaces, sanitize scope ∉ unusableNames := by
  rw [path_eq_foldl, ← length_pathNames,
    Path.hasEntries_foldl_push_iff (pathNames_ne_nil c) (slash_not_mem_pathNames c)]
  constructor
  · intro h scope hscope
    exact (isEntryName_sanitize_iff scope).1
      (h _ (mem_pathNames.2 (.inl ⟨scope, hscope, rfl⟩)))
  · intro h name hname
    rcases mem_pathNames.1 hname with ⟨scope, hscope, rfl⟩ | rfl
    · exact (isEntryName_sanitize_iff scope).2 (h scope hscope)
    · exact isEntryName_fileName c

/-- A header goes below the directory of the export exactly if no namespace of its class comes out
as `..`. -/
theorem leadsBelow_destination_iff (root : Path) (c : Class) :
    root.LeadsBelow (Export.destination root c)
      ↔ ∀ scope ∈ c.namespaces, sanitize scope ≠ ['.', '.'] := by
  unfold Export.destination
  rw [Path.leadsBelow_join_iff root (isAbsolute_path c) (descent_path_ne_nil c),
    up_mem_descent_path_iff]
  simp only [not_exists, not_and, ne_eq]

/-! ## The headers of an export -/

/-- Each header of a plan goes where the header of its class goes. -/
theorem path_eq_of_mem_itemsAfter {root : Path} {seen : List (List Component)}
    {classes : List Class} {item : Export.Item}
    (h : item ∈ Export.itemsAfter root seen classes) :
    item.path = Export.destination root item.subject ∧ item.subject ∈ classes := by
  induction classes generalizing seen with
  | nil => exact absurd h List.not_mem_nil
  | cons c rest ih =>
      unfold Export.itemsAfter at h
      dsimp only at h
      split at h
      · obtain ⟨hpath, hmem⟩ := ih h
        exact ⟨hpath, List.mem_cons_of_mem c hmem⟩
      · rcases List.mem_cons.1 h with rfl | htail
        · exact ⟨rfl, List.mem_cons_self⟩
        · obtain ⟨hpath, hmem⟩ := ih htail
          exact ⟨hpath, List.mem_cons_of_mem c hmem⟩

/-- Where headers go, for every class.  The path of a header is always relative.  It has an entry
for each namespace and one for the file exactly if no namespace comes out empty, as `.` or as `..`;
and a header of an export goes below its directory exactly if no namespace of the class that it
declares comes out as `..`. -/
theorem path_confined_iff (c : Class) (root : Path) (withBases : Bool) :
    (path c).isAbsolute = false
      ∧ ((path c).HasEntries (c.namespaces.length + 1)
          ↔ ∀ scope ∈ c.namespaces, sanitize scope ∉ unusableNames)
      ∧ ∀ item ∈ Export.plan c root withBases,
          root.LeadsBelow item.path
            ↔ ∀ scope ∈ item.subject.namespaces, sanitize scope ≠ ['.', '.'] := by
  refine ⟨isAbsolute_path c, hasEntries_path_iff c, ?_⟩
  intro item hitem
  rw [(path_eq_of_mem_itemsAfter hitem).1]
  exact leadsBelow_destination_iff root item.subject

/-- A class in a namespace `..`. -/
def escapingClass : Class := ⟨"Widget".toList, ["..".toList], [], [], none, false⟩

/-- The header of a class in a namespace `..` has no directory of its own and leaves that of the
export. -/
theorem path_not_confined :
    ¬ (path escapingClass).HasEntries 2
      ∧ ∃ item ∈ Export.plan escapingClass ⟨"out".toList⟩ false,
          ¬ (⟨"out".toList⟩ : Path).LeadsBelow item.path := by
  have hscope : "..".toList ∈ escapingClass.namespaces := List.mem_cons_self
  constructor
  · intro h
    exact (hasEntries_path_iff escapingClass).1 h _ hscope (by decide)
  · refine ⟨_, List.mem_cons_self, ?_⟩
    intro h
    exact (leadsBelow_destination_iff _ escapingClass).1 h _ hscope (by decide)

end RttiProbe.Header
