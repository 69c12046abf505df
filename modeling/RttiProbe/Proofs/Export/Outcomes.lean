import RttiProbe.Proofs.Export.Inclusion
import RttiProbe.Proofs.Export.Files
/-!
# Outcomes of exports

What a file tree is like after a successful export.  The files written are told by the classes
alone: one for each path, in pre-order, with the header of the first class that has the path.  There
is nothing else to an export: the directories above these files are there, and everything else is as
it was.
-/

set_option autoImplicit false

namespace RttiProbe.Export

open FileTree (SameBut)

/-- What a successful export to a file tree has come to. -/
structure Completed (c : Class) (root : Path) (withBases overwrite : Bool) (written : List Path)
    (t u : FileTree) : Prop where
  /-- the paths written are those of the classes in pre-order, without repetitions -/
  listed : written = ((selection c withBases).map (destination root)).eraseDupsBy samePath
  /-- no two of them are the same -/
  distinct : (written.map Path.components).Nodup
  /-- the file at each of them holds the header of the first class with that path, and nothing
  else -/
  stored : ∀ path ∈ written, ∃ x,
    (selection c withBases).find? (goesTo root path.components) = some x
      ∧ u.load path = .ok (Text.Utf8.encode (Header.render x))
  /-- every other file is as it was -/
  files : ∀ place, place ∉ written.map t.placeOf → ∀ contents,
    u.node? place = some (.file contents) ↔ t.node? place = some (.file contents)
  /-- so is everything that none of the paths leads through -/
  elsewhere : SameBut (written.flatMap t.route) t u
  /-- no directory is taken away -/
  directories : ∀ place, t.node? place = some .directory → u.node? place = some .directory
  /-- what has come besides the files are the directories above them -/
  added : ∀ place, place ∉ written.map t.placeOf → t.node? place = none → u.node? place ≠ none →
    u.node? place = some .directory ∧ ∃ path ∈ written, place ∈ t.approach path
  /-- a tree in which everything is in a directory is one still -/
  rooted : t.IsRooted → u.IsRooted
  /-- what may not replace anything has not done so -/
  absent : overwrite = false → ∀ path ∈ written, t.find? path = none

variable {c : Class} {root : Path} {withBases overwrite : Bool} {t u : FileTree}

/-- What has come to a tree besides the headers of items are directories above them. -/
theorem WritesAll.added {items : List Item} (h : WritesAll FileTree.disk overwrite items t u)
    {place : Place} (hplace : place ∉ places t items) (habsent : t.node? place = none)
    (hnode : u.node? place ≠ none) :
    u.node? place = some .directory ∧ ∃ item ∈ items, place ∈ t.approach item.path := by
  constructor
  · cases hpresent : u.node? place with
    | none => exact absurd hpresent hnode
    | some node =>
        cases node with
        | directory => rfl
        | file contents =>
            rw [h.storedAll.extends_places.files place hplace contents, habsent] at hpresent
            cases hpresent
  · by_contra hnowhere
    refine hnode ((h.sameBut.elsewhere place fun hroutes => ?_).trans habsent)
    obtain ⟨item, hitem, hroute⟩ := List.mem_flatMap.1 hroutes
    rw [FileTree.route_eq, List.mem_append, List.mem_singleton] at hroute
    rcases hroute with happroach | rfl
    · exact hnowhere ⟨item, hitem, happroach⟩
    · exact hplace (List.mem_map_of_mem hitem)

/-- A successful export of classes with plain paths has written their headers and nothing else. -/
theorem completed_of_run_eq_ok (c : Class) (root : Path) (withBases overwrite : Bool)
    (t u : FileTree) (messages : List Message) (written : List Path)
    (hplain : ∀ x ∈ selection c withBases, (Header.path x).IsPlain)
    (h : run FileTree.disk c root withBases overwrite t = ((messages, .ok written), u)) :
    Completed c root withBases overwrite written t u := by
  obtain ⟨-, rfl⟩ := writes_of_run_eq_ok h
  have hwritten := writesAll_of_run_eq_ok h
  have hstored := hwritten.storedAll
  have hplaces : ((plan c root withBases).map Item.path).map t.placeOf
      = places t (plan c root withBases) := List.map_map
  refine
    { listed := ?_, distinct := ?_, stored := ?_, files := ?_, elsewhere := ?_, added := ?_, absent := ?_
      directories := hstored.extends_places.directories, rooted := hwritten.isRooted }
  · unfold plan
    rw [map_path_itemsAfter]
    exact congrArg (List.eraseDupsBy samePath) (List.filter_eq_self.2 fun _ _ => rfl)
  · rw [List.map_map]
    exact nodup_components_itemsAfter root [] (selection c withBases)
  · intro path hpath
    obtain ⟨item, hitem, rfl⟩ := List.mem_map.1 hpath
    exact ⟨item.subject, (subject_of_mem_plan hitem).2.2, hstored.load_eq hplain hitem⟩
  · rw [hplaces]
    exact hstored.extends_places.files
  · rw [List.flatMap_map]
    exact hwritten.sameBut
  · intro place hplace habsent hnode
    rw [hplaces] at hplace
    obtain ⟨hdirectory, item, hitem, happroach⟩ := hwritten.added hplace habsent hnode
    exact ⟨hdirectory, item.path, List.mem_map_of_mem hitem, happroach⟩
  · intro hoverwrite path hpath
    obtain ⟨item, hitem, rfl⟩ := List.mem_map.1 hpath
    have hnone := List.find?_eq_none.1 (absent_of_run_eq_ok h hoverwrite) item hitem
    simpa [Item.isPresent] using hnone

/-- A tree with an older header and a file of another kind. -/
def sampleShelf : FileTree :=
  ((FileTree.ofCurrent "home".toList |>.put ["home".toList, "out".toList] .directory).put
    ["home".toList, "out".toList, "Widget.h".toList] (.file [0x21])).put
    ["home".toList, "out".toList, "notes".toList] (.file [0x3F])

/-- A class `ui::Panel` that derives from a class `Widget` twice. -/
def samplePanel : Class :=
  { Class.ofName "Panel".toList with
    namespaces := ["ui".toList]
    bases := [.ofName "Widget".toList, .ofName "Widget".toList] }

def samplePanelRun : (List Message × Except Error (List Path)) × FileTree :=
  run FileTree.disk samplePanel ⟨"out".toList⟩ true true sampleShelf

theorem completed_of_run_eq_ok_sample :
    (∀ x ∈ selection samplePanel true, (Header.path x).IsPlain)
      ∧ samplePanelRun = ((samplePanelRun.1.1,
          .ok [⟨"out/ui/Panel.h".toList⟩, ⟨"out/Widget.h".toList⟩]), samplePanelRun.2)
      ∧ Completed samplePanel ⟨"out".toList⟩ true true
          [⟨"out/ui/Panel.h".toList⟩, ⟨"out/Widget.h".toList⟩] sampleShelf samplePanelRun.2 := by
  have hplain : ∀ x ∈ selection samplePanel true, (Header.path x).IsPlain := by decide +kernel
  have hrun : samplePanelRun = ((samplePanelRun.1.1,
      .ok [⟨"out/ui/Panel.h".toList⟩, ⟨"out/Widget.h".toList⟩]), samplePanelRun.2) :=
    eq_of_toOption_eq_some (by decide +kernel)
  exact ⟨hplain, hrun, completed_of_run_eq_ok samplePanel _ true true _ _ _ _ hplain hrun⟩

end RttiProbe.Export
