import RttiProbe.Proofs.Export.Files
import RttiProbe.Proofs.Export.Inclusion
/-!
# Classes with one file

Different classes may belong at the same place of a file tree: their names may come out alike when
they are made fit for a path, and the arguments of a template are not part of it.  An export then
keeps the header of one of them.  No header is lost exactly if classes that belong at one place
have the same header, which is so for classes that are declared alike.
-/

set_option autoImplicit false

namespace RttiProbe

theorem Text.Utf8.encode_injective {s t : Text} (h : encode s = encode t) : s = t := by
  have hbytes : s.utf8Encode = t.utf8Encode := congrArg List.toByteArray h
  exact String.ofList_injective (String.toByteArray_inj.1 hbytes)

/-! ## Headers that are alike -/

namespace Header

/-- The path of a class ends in its file. -/
theorem getLast?_components_path (c : Class) :
    (path c).components.getLast? = some (.entry (fileName c)) := by
  rw [Path.components_eq, List.getLast?_append, descent_path]
  unfold pathNames
  rw [List.filterMap_append, List.getLast?_append, List.filterMap_cons,
    (isEntryName_fileName c).ofPiece?_eq]
  rfl

/-- Classes with one path come out as one identifier. -/
theorem identifier_eq_of_components_eq {x y : Class}
    (h : (path x).components = (path y).components) : identifier x.name = identifier y.name := by
  have hfile : some (Path.Component.entry (fileName x)) = some (.entry (fileName y)) := by
    rw [← getLast?_components_path, ← getLast?_components_path, h]
  have hname : sanitize x.name = sanitize y.name :=
    List.append_cancel_right (Path.Component.entry.inj (Option.some.inj hfile))
  unfold identifier
  rw [hname]

/-- Two classes are declared in the same scopes, with equally many parameters, and name the same
headers and the same bases. -/
structure DeclaredAlike (x y : Class) : Prop where
  scopes : scopes x.namespaces = scopes y.namespaces
  parameters : x.arguments.length = y.arguments.length
  includes : x.bases.map path = y.bases.map path
  bases : x.bases.map (baseName x) = y.bases.map (baseName y)

/-- Classes that are declared alike have one header if they have one path. -/
theorem DeclaredAlike.render_eq {x y : Class} (h : DeclaredAlike x y)
    (hpath : (path x).components = (path y).components) : render x = render y := by
  have hinclude (c : Class) : includeLines c
      = if (c.bases.map path).isEmpty then [] else (c.bases.map path).map includeLine ++ [[]] := by
    unfold includeLines includeLine
    rw [List.isEmpty_map, List.map_map]
    rfl
  have hclass (tab : Text) (c : Class) : classLine tab c
      = tab ++ "class ".toList ++ identifier c.name
        ++ (if ((c.bases.map (baseName c)).map ("public ".toList ++ ·)).isEmpty then []
          else " : ".toList
            ++ [',', ' '].intercalate ((c.bases.map (baseName c)).map ("public ".toList ++ ·))) := by
    unfold classLine
    rw [List.map_map]
    rfl
  have htemplate (tab : Text) : templateLines tab x = templateLines tab y := by
    have hempty : x.arguments.isEmpty = y.arguments.isEmpty := by
      rw [Bool.eq_iff_iff, List.isEmpty_iff_length_eq_zero, List.isEmpty_iff_length_eq_zero,
        h.parameters]
    unfold templateLines
    rw [hempty, h.parameters]
  unfold render lines
  simp only [h.scopes, htemplate, hinclude, hclass, h.includes, h.bases,
    identifier_eq_of_components_eq hpath]

end Header

/-! ## Headers that are kept -/

namespace Export

/-- The place that the header of a class belongs at. -/
def landing (t : FileTree) (root : Path) (x : Class) : Place := t.placeOf (destination root x)

/-- The file with the path of a class has been written, and holds a text. -/
def HasHeader (t : FileTree) (root : Path) (written : List Path) (x : Class) (text : Text) : Prop :=
  ∃ path ∈ written, path.components = (destination root x).components
    ∧ t.load path = .ok (Text.Utf8.encode text)

/-- What an export of a tree of classes to a file tree has come to for each of the classes. -/
structure Accounted (c : Class) (root : Path) (written : List Path) (t u : FileTree) : Prop where
  /-- the file of a class holds the header of a class that belongs at the same place -/
  found : ∀ x ∈ c.preorder, ∃ y ∈ c.preorder,
    landing t root y = landing t root x ∧ HasHeader u root written x (Header.render y)
  /-- the file of each class holds its own header exactly if classes that belong at one place have
  one header -/
  kept_iff : (∀ x ∈ c.preorder, HasHeader u root written x (Header.render x)) ↔
    ∀ x ∈ c.preorder, ∀ y ∈ c.preorder,
      landing t root x = landing t root y → Header.render x = Header.render y
  /-- if all paths are plain, the file of a class holds the header of the first class with its
  path -/
  first : (∀ x ∈ c.preorder, (Header.path x).IsPlain) → ∀ x ∈ c.preorder, ∃ y,
    c.preorder.find? (goesTo root (destination root x).components) = some y
      ∧ HasHeader u root written x (Header.render y)
  /-- the place is told by the path then -/
  landing_eq_iff : (∀ x ∈ c.preorder, (Header.path x).IsPlain) →
    ∀ x ∈ c.preorder, ∀ y ∈ c.preorder, landing t root x = landing t root y
      ↔ (Header.path x).components = (Header.path y).components
  /-- and no header is lost if classes with one path are declared alike -/
  kept : (∀ x ∈ c.preorder, (Header.path x).IsPlain) →
    (∀ x ∈ c.preorder, ∀ y ∈ c.preorder,
      (Header.path x).components = (Header.path y).components → Header.DeclaredAlike x y) →
    ∀ x ∈ c.preorder, HasHeader u root written x (Header.render x)

variable {c : Class} {root : Path} {t u : FileTree}

theorem landing_eq_iff_of_isPlain {x y : Class} (hx : (Header.path x).IsPlain)
    (hy : (Header.path y).IsPlain) : landing t root x = landing t root y
      ↔ (Header.path x).components = (Header.path y).components :=
  FileTree.placeOf_join_eq_iff t root hx hy (Header.isAbsolute_path x) (Header.isAbsolute_path y)

theorem landing_subject {item : Item} (h : item ∈ plan c root true) (t : FileTree) :
    t.placeOf item.path = landing t root item.subject := by
  rw [(subject_of_mem_plan h).1]
  rfl

/-- The file of a class holds the header of an item that goes to its place. -/
theorem StoredAll.exists_hasHeader (h : StoredAll (plan c root true) t u) {x : Class}
    (hx : x ∈ c.preorder) : ∃ last ∈ plan c root true,
      landing t root last.subject = landing t root x
        ∧ HasHeader u root ((plan c root true).map Item.path) x (Header.render last.subject) := by
  obtain ⟨item, hitem, hcomponents⟩ := exists_item_of_mem_preorder root hx
  obtain ⟨last, hlast, hplace, hload⟩ := h.exists_load_eq hitem
  refine ⟨last, hlast, ?_, item.path, List.mem_map_of_mem hitem, hcomponents, hload⟩
  rw [← landing_subject hlast, hplace]
  exact FileTree.placeOf_eq_of_components_eq hcomponents t

/-- Classes that belong at one place have one file. -/
theorem StoredAll.text_eq (h : StoredAll (plan c root true) t u) {x y : Class} {text text' : Text}
    (hx : HasHeader u root ((plan c root true).map Item.path) x text)
    (hy : HasHeader u root ((plan c root true).map Item.path) y text')
    (hplace : landing t root x = landing t root y) : text = text' := by
  have hnode {z : Class} {s : Text}
      (hz : HasHeader u root ((plan c root true).map Item.path) z s) :
      u.node? (landing t root z) = some (.file (Text.Utf8.encode s)) := by
    obtain ⟨path, hpath, hcomponents, hload⟩ := hz
    obtain ⟨item, hitem, rfl⟩ := List.mem_map.1 hpath
    have hresolve := h.resolve_eq item hitem
    rw [FileTree.placeOf_eq_of_components_eq hcomponents] at hresolve
    exact (FileTree.load_eq_ok_iff hresolve).1 hload
  have heq := hnode hx
  rw [hplace, hnode hy, Option.some.injEq, FileNode.file.injEq] at heq
  exact (Text.Utf8.encode_injective heq).symm

/-- No header is lost exactly if classes that belong at one place have one header. -/
theorem StoredAll.kept_iff (h : StoredAll (plan c root true) t u) :
    (∀ x ∈ c.preorder,
        HasHeader u root ((plan c root true).map Item.path) x (Header.render x)) ↔
      ∀ x ∈ c.preorder, ∀ y ∈ c.preorder,
        landing t root x = landing t root y → Header.render x = Header.render y := by
  constructor
  · intro hall x hx y hy hplace
    exact h.text_eq (hall x hx) (hall y hy) hplace
  · intro halike x hx
    obtain ⟨last, hlast, hplace, hheader⟩ := h.exists_hasHeader hx
    rw [halike x hx last.subject (subject_of_mem_plan hlast).2.1 hplace.symm]
    exact hheader

/-- If all paths are plain, the file of a class holds the header of the first class with its
path. -/
theorem StoredAll.exists_first (h : StoredAll (plan c root true) t u)
    (hplain : ∀ x ∈ c.preorder, (Header.path x).IsPlain) {x : Class} (hx : x ∈ c.preorder) :
    ∃ y, c.preorder.find? (goesTo root (destination root x).components) = some y
      ∧ HasHeader u root ((plan c root true).map Item.path) x (Header.render y) := by
  obtain ⟨item, hitem, hcomponents⟩ := exists_item_of_mem_preorder root hx
  refine ⟨item.subject, ?_, item.path, List.mem_map_of_mem hitem, hcomponents,
    h.load_eq hplain hitem⟩
  rw [← hcomponents]
  exact (subject_of_mem_plan hitem).2.2

/-- Whatever the classes, each of them is accounted for after a successful export. -/
theorem accounted_of_run_eq_ok (c : Class) (root : Path) (overwrite : Bool) (t u : FileTree)
    (messages : List Message) (written : List Path)
    (h : run FileTree.disk c root true overwrite t = ((messages, .ok written), u)) :
    Accounted c root written t u := by
  obtain ⟨-, rfl⟩ := writes_of_run_eq_ok h
  have hstored := storedAll_of_run_eq_ok h
  refine ⟨?_, hstored.kept_iff, fun hplain x => hstored.exists_first hplain, ?_, ?_⟩
  · intro x hx
    obtain ⟨last, hlast, hplace, hheader⟩ := hstored.exists_hasHeader hx
    exact ⟨last.subject, (subject_of_mem_plan hlast).2.1, hplace, hheader⟩
  · intro hplain x hx y hy
    exact landing_eq_iff_of_isPlain (hplain x hx) (hplain y hy)
  · intro hplain halike
    refine hstored.kept_iff.2 fun x hx y hy hplace => ?_
    have hpath := (landing_eq_iff_of_isPlain (hplain x hx) (hplain y hy)).1 hplace
    exact (halike x hx y hy hpath).render_eq hpath

/-- A class `Policy` within a template of which an argument is given, deriving from a class. -/
def samplePolicy (argument base : String) : Class :=
  { Class.ofName "Policy".toList with
    namespaces := [("Traits<int " ++ argument ++ ">").toList],
    bases := [.ofName base.toList] }

/-- A class that derives from two classes `Policy`, each with a base of its own. -/
def sampleWidget : Class :=
  { Class.ofName "Widget".toList with bases := [samplePolicy "*" "Fast", samplePolicy "&" "Slow"] }

def samplePaths : List Path :=
  [⟨"out/Widget.h".toList⟩, ⟨"out/Traits_int__/Policy.h".toList⟩, ⟨"out/Fast.h".toList⟩,
    ⟨"out/Slow.h".toList⟩]

def samplePolicyRun : (List Message × Except Error (List Path)) × FileTree :=
  run FileTree.disk sampleWidget ⟨"out".toList⟩ true false (.ofCurrent "home".toList)

theorem accounted_of_run_eq_ok_sample :
    samplePolicyRun = ((samplePolicyRun.1.1, .ok samplePaths), samplePolicyRun.2)
      ∧ Accounted sampleWidget ⟨"out".toList⟩ samplePaths (.ofCurrent "home".toList)
        samplePolicyRun.2 := by
  have hrun : samplePolicyRun = ((samplePolicyRun.1.1, .ok samplePaths), samplePolicyRun.2) :=
    eq_of_toOption_eq_some (by decide +kernel)
  exact ⟨hrun, accounted_of_run_eq_ok sampleWidget _ false _ _ _ _ hrun⟩

/-- The two classes `Policy` come out with one path.  Their headers differ, and only that of the
first is written. -/
theorem header_lost :
    samplePolicy "*" "Fast" ∈ sampleWidget.preorder
      ∧ samplePolicy "&" "Slow" ∈ sampleWidget.preorder
      ∧ Header.path (samplePolicy "*" "Fast") = Header.path (samplePolicy "&" "Slow")
      ∧ Header.render (samplePolicy "*" "Fast") ≠ Header.render (samplePolicy "&" "Slow")
      ∧ samplePolicyRun.1.2.toOption = some samplePaths
      ∧ (samplePolicyRun.2.load ⟨"out/Traits_int__/Policy.h".toList⟩).toOption
        = some (Text.Utf8.encode (Header.render (samplePolicy "*" "Fast"))) := by
  have hself := Class.self_mem_preorder sampleWidget
  refine ⟨Class.base_mem_preorder sampleWidget hself List.mem_cons_self,
    Class.base_mem_preorder sampleWidget hself (List.mem_cons_of_mem _ List.mem_cons_self), ?_⟩
  decide +kernel

end Export

end RttiProbe
