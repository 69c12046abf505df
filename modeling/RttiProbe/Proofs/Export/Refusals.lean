import RttiProbe.Proofs.Export.Files
import RttiProbe.Proofs.FileTree.Rooted
/-!
# Refused exports

An export that may not replace anything is refused for a file in its way.  It looks for one before
it changes anything, and it looks again at each file that it creates.  The second look finds more
than the first if the headers are in each other's way: the place of one may be that of an earlier
one, or that of a directory which leads to it.  These are the only cases, so the export of headers
that keep out of each other's way is refused exactly for a file that was there before, and then it
has changed nothing.
-/

set_option autoImplicit false

namespace RttiProbe.Export

open RttiProbe.Path (Component)
open FileTree (Extends KeepsFiles SameBut)

/-! ## The first failure -/

theorem writeItems_cons_eq_error_iff {σ : Type} {disk : Disk (StateM σ)} {overwrite : Bool}
    {item : Item} {rest : List Item} {state : σ} {e : Error} :
    (writeItems disk overwrite (item :: rest) state).1.2 = .error e ↔
      (writeItem disk overwrite item state).1 = .error e
        ∨ ∃ middle, writeItem disk overwrite item state = (.ok (), middle)
          ∧ (writeItems disk overwrite rest middle).1.2 = .error e := by
  have hmap (result : Except Error (List Path)) :
      result.map (item.path :: ·) = .error e ↔ result = .error e := by
    cases result with
    | error e' => exact .rfl
    | ok paths => exact ⟨nofun, nofun⟩
  rw [writeItems_cons]
  cases writeItem disk overwrite item state with
  | mk result middle =>
      cases result with
      | error e' =>
          dsimp only
          constructor
          · exact fun h => .inl (congrArg Except.error (Except.error.inj h))
          · rintro (h | ⟨_, hmiddle, -⟩)
            · exact congrArg Except.error (Except.error.inj h)
            · cases hmiddle
      | ok _ =>
          refine (hmap _).trans ?_
          constructor
          · exact fun h => .inr ⟨middle, rfl, h⟩
          · rintro (h | ⟨_, hmiddle, h⟩)
            · cases h
            · obtain rfl := (Prod.mk.inj hmiddle).2
              exact h

/-- Headers are written up to the first that cannot be. -/
theorem writeItems_eq_error_iff {σ : Type} {disk : Disk (StateM σ)} {overwrite : Bool}
    {items : List Item} {state : σ} {e : Error} :
    (writeItems disk overwrite items state).1.2 = .error e ↔
      ∃ before item after, items = before ++ item :: after ∧ ∃ reached,
        WritesAll disk overwrite before state reached
          ∧ (writeItem disk overwrite item reached).1 = .error e := by
  induction items generalizing state with
  | nil =>
      constructor
      · exact nofun
      · rintro ⟨before, item, after, hitems, -⟩
        cases before <;> cases hitems
  | cons first rest ih =>
      rw [writeItems_cons_eq_error_iff]
      constructor
      · rintro (hfirst | ⟨middle, hfirst, hlater⟩)
        · exact ⟨[], first, rest, rfl, state, writesAll_nil_iff.2 rfl, hfirst⟩
        · obtain ⟨before, item, after, rfl, reached, hbefore, hitem⟩ := ih.1 hlater
          exact ⟨first :: before, item, after, rfl, reached,
            writesAll_cons_iff.2 ⟨middle, hfirst, hbefore⟩, hitem⟩
      · rintro ⟨before, item, after, hitems, reached, hbefore, hitem⟩
        cases before with
        | nil =>
            cases hitems
            obtain rfl := writesAll_nil_iff.1 hbefore
            exact .inl hitem
        | cons other others =>
            cases hitems
            obtain ⟨middle, hfirst, hothers⟩ := writesAll_cons_iff.1 hbefore
            exact .inr ⟨middle, hfirst,
              ih.2 ⟨others, item, after, rfl, reached, hothers, hitem⟩⟩

/-! ## Headers in the way -/

variable {t u : FileTree} {before : List Item} {item : Item}

/-- A header is refused if its directories are there and its path leads to something. -/
theorem writeItem_refused_iff {p : Path} :
    (writeItem FileTree.disk false item t).1 = .error (.alreadyExists p) ↔
      item.path = p ∧ ∃ u,
        FileTree.disk.makeDirectories item.path.steps.dropLast.reverse t = (.ok (), u)
          ∧ u.resolve item.path = .ok (u.placeOf item.path)
          ∧ u.node? (u.placeOf item.path) ≠ none := by
  unfold writeItem
  rw [bind_apply]
  cases FileTree.disk.makeDirectories item.path.steps.dropLast.reverse t with
  | mk made after =>
      cases made with
      | error e =>
          constructor
          · exact nofun
          · rintro ⟨-, u, hu, -⟩
            cases hu
      | ok _ =>
          have hrefused : (FileTree.disk.create item.path item.write.contents after).1
                = .error .alreadyPresent ↔ after.resolve item.path = .ok (after.placeOf item.path)
              ∧ after.node? (after.placeOf item.path) ≠ none :=
            FileTree.change_eq_error_iff.trans FileTree.putNew_eq_alreadyPresent_iff
          have hreport : ((FileTree.disk.create item.path item.write.contents after).1.mapError
                fun e => if e = .alreadyPresent then Error.alreadyExists item.path else .system e)
                = .error (.alreadyExists p) ↔ item.path = p
              ∧ (FileTree.disk.create item.path item.write.contents after).1
                = .error .alreadyPresent := by
            cases (FileTree.disk.create item.path item.write.contents after).1 with
            | ok _ => exact ⟨nofun, nofun⟩
            | error e => by_cases he : e = .alreadyPresent <;> simp [Except.mapError, he]
          refine hreport.trans (and_congr_right fun _ => hrefused.trans ?_)
          constructor
          · exact fun h => ⟨after, rfl, h⟩
          · rintro ⟨u, hu, h⟩
            obtain rfl := (Prod.mk.inj hu).2
            exact h

/-- An export that may not replace anything has come to the header of an item: those before it are
written, the directories of its path are there, and its path leads to its place. -/
structure Reached (t : FileTree) (before : List Item) (item : Item) (u : FileTree) : Prop where
  made : ∃ s, WritesAll FileTree.disk false before t s
    ∧ FileTree.disk.makeDirectories item.path.steps.dropLast.reverse s = (.ok (), u)
  resolved : u.resolve item.path = .ok (t.placeOf item.path)

/-- The place of an item is not free when its turn comes: there was something before, or an earlier
item goes there or passes through, or its own path does. -/
def Taken (t : FileTree) (before : List Item) (item : Item) : Prop :=
  t.node? (t.placeOf item.path) ≠ none ∨ t.placeOf item.path ∈ routes t before
    ∨ t.placeOf item.path ∈ t.approach item.path

namespace Reached

/-- Once the headers before it are written, only directories on the way to an item are made. -/
theorem exists_middle (h : Reached t before item u) : ∃ s,
    WritesAll FileTree.disk false before t s ∧ Extends [] s u
      ∧ SameBut (t.approach item.path) s u := by
  obtain ⟨⟨s, hwritten, hmade⟩, -⟩ := h
  have hextends := KeepsFiles.makeDirectories item.path.steps.dropLast.reverse s
  have hsame := SameBut.makeDirectories s item.path
  rw [hmade] at hextends hsame
  rw [FileTree.approach_eq_of_current_eq hwritten.sameBut.current] at hsame
  exact ⟨s, hwritten, hextends, hsame⟩

theorem extends_places (h : Reached t before item u) : Extends (places t before) t u := by
  obtain ⟨s, hwritten, hextends, -⟩ := h.exists_middle
  simpa using hwritten.storedAll.extends_places.trans hextends

/-- The headers before it are there. -/
theorem exists_contents (h : Reached t before item u) :
    ∀ place ∈ places t before, ∃ contents, u.node? place = some (.file contents) := by
  obtain ⟨s, hwritten, hextends, -⟩ := h.exists_middle
  intro place hplace
  obtain ⟨last, -, -, hnode⟩ := hwritten.storedAll.exists_node?_eq place hplace
  exact ⟨_, (hextends.files place List.not_mem_nil _).2 hnode⟩

/-- The paths of the headers before it lead through directories. -/
theorem isDirectory_of_mem_approach (h : Reached t before item u) {earlier : Item}
    (hearlier : earlier ∈ before) :
    ∀ place ∈ t.approach earlier.path, u.node? place = some .directory := by
  obtain ⟨s, hwritten, hextends, -⟩ := h.exists_middle
  intro place hplace
  rw [← FileTree.approach_eq_of_current_eq hwritten.sameBut.current] at hplace
  exact hextends.directories place (FileTree.isDirectory_of_mem_approach
    (hwritten.storedAll.resolve_eq earlier hearlier) place hplace)

/-- Nothing has changed away from the paths so far. -/
theorem node?_eq (h : Reached t before item u) {place : Place} (hroutes : place ∉ routes t before)
    (happroach : place ∉ t.approach item.path) : u.node? place = t.node? place := by
  obtain ⟨s, hwritten, -, hsame⟩ := h.exists_middle
  exact (hsame.elsewhere place happroach).trans (hwritten.sameBut.elsewhere place hroutes)

/-- A file is still one when the turn of an item comes. -/
theorem exists_contents_of_file (h : Reached t before item u) {place : Place} {contents : Bytes}
    (hfile : t.node? place = some (.file contents)) :
    ∃ contents, u.node? place = some (.file contents) := by
  by_cases hwritten : place ∈ places t before
  · exact h.exists_contents place hwritten
  · exact ⟨contents, (h.extends_places.files place hwritten contents).2 hfile⟩

/-- Nothing is taken away before the turn of an item comes. -/
theorem node?_ne_none (h : Reached t before item u) {place : Place}
    (hpresent : t.node? place ≠ none) : u.node? place ≠ none := by
  cases hnode : t.node? place with
  | none => exact absurd hnode hpresent
  | some node =>
      cases node with
      | directory =>
          rw [h.extends_places.directories place hnode]
          exact nofun
      | file contents =>
          obtain ⟨contents, hfile⟩ := h.exists_contents_of_file hnode
          rw [hfile]
          exact nofun

/-- When its turn comes, there is something at the place of an item exactly if the place is
taken. -/
theorem taken_iff (h : Reached t before item u) :
    u.node? (t.placeOf item.path) ≠ none ↔ Taken t before item := by
  constructor
  · -- what is there now was there before, or has come with a header or with a directory
    intro hnode
    by_contra hfree
    obtain ⟨habsent, hfree⟩ := not_or.1 hfree
    obtain ⟨hroutes, happroach⟩ := not_or.1 hfree
    rw [h.node?_eq hroutes happroach] at hnode
    exact habsent hnode
  · rintro (hpresent | hroutes | happroach)
    · exact h.node?_ne_none hpresent
    · obtain ⟨earlier, hearlier, hroute⟩ := List.mem_flatMap.1 hroutes
      rw [FileTree.route_eq, List.mem_append, List.mem_singleton] at hroute
      rcases hroute with happroach | hplace
      · rw [h.isDirectory_of_mem_approach hearlier _ happroach]
        exact nofun
      · obtain ⟨contents, hnode⟩ := h.exists_contents _ (List.mem_map_of_mem hearlier)
        rw [hplace, hnode]
        exact nofun
    · rw [← FileTree.approach_eq_of_current_eq h.extends_places.current] at happroach
      rw [FileTree.isDirectory_of_mem_approach h.resolved _ happroach]
      exact nofun

/-- In a tree of directories, what there is where a straight path leads to is at the path
already. -/
theorem isPresent (h : Reached t before item u) (hrooted : t.IsRooted)
    (hsettles : t.Settles item.path) (hnode : t.node? (t.placeOf item.path) ≠ none) :
    item.isPresent t = true := by
  have hkept : ∀ place contents, t.node? place = some (.file contents) →
      u.node? place ≠ some .directory := by
    intro place contents hfile
    obtain ⟨contents, hnode⟩ := h.exists_contents_of_file hfile
    rw [hnode]
    exact nofun
  have hresolve := FileTree.resolve_eq_ok_of_settles hrooted hsettles h.extends_places.current
    hkept hnode h.resolved
  unfold Item.isPresent FileTree.find?
  rw [hresolve]
  exact Option.isSome_iff_ne_none.2 hnode

end Reached

/-! ## Refusals -/

variable {c : Class} {root : Path} {withBases : Bool}

/-- An export with nothing in its way is refused exactly when it comes to a header whose place is
taken by then. -/
theorem refused_of_absent_iff {p : Path}
    (h : (plan c root withBases).find? (Item.isPresent t) = none) :
    (run FileTree.disk c root withBases false t).1.2 = .error (.alreadyExists p) ↔
      ∃ before item after, plan c root withBases = before ++ item :: after ∧ item.path = p
        ∧ (∃ u, Reached t before item u) ∧ Taken t before item := by
  rw [run_of_absent fun _ => h]
  refine writeItems_eq_error_iff.trans ?_
  constructor
  · rintro ⟨before, item, after, hplan, s, hwritten, hrefused⟩
    obtain ⟨hpath, u, hmade, hresolved, hnode⟩ := writeItem_refused_iff.1 hrefused
    have hplace : u.placeOf item.path = t.placeOf item.path := by
      have hdirectories := KeepsFiles.makeDirectories item.path.steps.dropLast.reverse s
      rw [hmade] at hdirectories
      rw [hdirectories.placeOf_eq, hwritten.storedAll.extends_places.placeOf_eq]
    rw [hplace] at hresolved hnode
    have hreached : Reached t before item u := ⟨⟨s, hwritten, hmade⟩, hresolved⟩
    exact ⟨before, item, after, hplan, hpath, ⟨u, hreached⟩, hreached.taken_iff.1 hnode⟩
  · rintro ⟨before, item, after, hplan, hpath, ⟨u, hreached⟩, htaken⟩
    obtain ⟨⟨s, hwritten, hmade⟩, hresolved⟩ := id hreached
    have hplace := FileTree.eq_placeOf_of_resolve_eq_ok hresolved
    have hnode := hreached.taken_iff.2 htaken
    rw [hplace] at hresolved hnode
    exact ⟨before, item, after, hplan, s, hwritten,
      writeItem_refused_iff.2 ⟨hpath, u, hmade, hresolved, hnode⟩⟩

/-- The file of one class belongs where the header of another has its file or one of the
directories above it. -/
def Obstructs (later earlier : Class) : Prop :=
  (Header.path later).descent <+: (Header.path earlier).descent

/-- No header of a selection has a path that goes up. -/
def NeverUp (classes : List Class) : Prop :=
  ∀ x ∈ classes, Component.up ∉ (Header.path x).descent

/-- Below a directory that is there, the place of a header is on the way to another exactly if the
path of the one starts that of the other. -/
theorem placeOf_mem_route_iff {x y : Class} (hx : Component.up ∉ (Header.path x).descent)
    (hy : Component.up ∉ (Header.path y).descent)
    (habsent : t.placeOf (destination root x) ∉ t.approach root) :
    t.placeOf (destination root x) ∈ t.route (destination root y) ↔ Obstructs x y := by
  obtain ⟨names, hnames⟩ := Path.exists_map_entry_eq_descent hx
  obtain ⟨others, hothers⟩ := Path.exists_map_entry_eq_descent hy
  unfold destination at habsent ⊢
  rw [FileTree.route_join (Header.isAbsolute_path y) hothers, List.mem_append,
    or_iff_right habsent, FileTree.placeOf_join_eq_append (Header.isAbsolute_path x) hnames]
  unfold Obstructs
  rw [← hnames, ← hothers, List.mem_map]
  constructor
  · rintro ⟨down, hdown, heq⟩
    obtain rfl := List.append_cancel_left heq
    exact ((List.mem_inits _ _).1 hdown).map Component.entry
  · intro hleads
    have hinj : Function.Injective Component.entry := fun _ _ => Component.entry.inj
    exact ⟨names, (List.mem_inits _ _).2 ((List.prefix_map_iff_of_injective hinj).1 hleads), rfl⟩

/-- A straight path that leads to nothing yet does not end on the way to the directory it is taken
from. -/
theorem placeOf_not_mem_approach {x : Class} (hsettles : t.Settles root)
    (hx : Component.up ∉ (Header.path x).descent)
    (habsent : t.node? (t.placeOf (destination root x)) = none) :
    t.placeOf (destination root x) ∉ t.approach root := by
  obtain ⟨names, hnames⟩ := Path.exists_map_entry_eq_descent hx
  intro hmem
  rcases hsettles _ hmem with hdirectory | hleads
  · rw [habsent] at hdirectory
    cases hdirectory
  · unfold destination at hleads
    rw [FileTree.placeOf_join_eq_append (Header.isAbsolute_path x) hnames] at hleads
    have hlength := hleads.length_le
    rw [List.length_append] at hlength
    obtain rfl : names = [] := List.length_eq_zero_iff.1 (by omega)
    exact Header.descent_path_ne_nil x hnames.symm

/-- In a tree of directories, what is in the way of a header that was not there before is the header
of another class. -/
theorem Reached.taken_iff_obstructs (h : Reached t before item u) (hrooted : t.IsRooted)
    (hsettles : t.Settles root) (hpaths : ∀ other ∈ item :: before,
      other.path = destination root other.subject)
    (hup : ∀ other ∈ item :: before, Component.up ∉ (Header.path other.subject).descent)
    (habsent : item.isPresent t = false) :
    Taken t before item ↔ ∃ earlier ∈ before, Obstructs item.subject earlier.subject := by
  have hitem := hup item List.mem_cons_self
  have hpath := hpaths item List.mem_cons_self
  obtain ⟨names, hnames⟩ := Path.exists_map_entry_eq_descent hitem
  have hstraight : t.Settles item.path :=
    hpath ▸ hsettles.join (Header.isAbsolute_path item.subject) hnames
  have hnode : t.node? (t.placeOf item.path) = none := by
    by_contra hpresent
    rw [h.isPresent hrooted hstraight hpresent] at habsent
    cases habsent
  have hroot : t.placeOf item.path ∉ t.approach root := by
    rw [hpath] at hnode ⊢
    exact placeOf_not_mem_approach hsettles hitem hnode
  have hown : t.placeOf item.path ∉ t.approach item.path := by
    rw [hpath] at hroot ⊢
    exact fun hmem => hroot ((FileTree.placeOf_mem_approach_join_iff
      (Header.isAbsolute_path item.subject) hnames).1 hmem)
  unfold Taken routes
  rw [or_iff_right (not_not.2 hnode), or_iff_left hown, List.mem_flatMap]
  refine exists_congr fun earlier => and_congr_right fun hearlier => ?_
  have hearlier := List.mem_cons_of_mem item hearlier
  rw [hpath] at hroot ⊢
  rw [hpaths earlier hearlier]
  exact placeOf_mem_route_iff hitem (hup earlier hearlier) hroot

/-- When an export that may not replace anything is refused for a file in its way. -/
structure Refusals (c : Class) (root : Path) (withBases : Bool) (t : FileTree) : Prop where
  /-- the first header of the plan that is there already ends the export, and nothing changes -/
  of_present : ∀ item, (plan c root withBases).find? (Item.isPresent t) = some item →
    run FileTree.disk c root withBases false t
      = ((planMessages c root withBases, .error (.alreadyExists item.path)), t)
  /-- otherwise it is refused exactly if it comes to a header whose place is taken by then -/
  of_absent : (plan c root withBases).find? (Item.isPresent t) = none → ∀ p,
    (run FileTree.disk c root withBases false t).1.2 = .error (.alreadyExists p) ↔
      ∃ before item after, plan c root withBases = before ++ item :: after ∧ item.path = p
        ∧ (∃ u, Reached t before item u) ∧ Taken t before item
  /-- in a tree of directories, and if no path goes up, that is a header in the way of one before
  it -/
  of_rooted : t.IsRooted → t.Settles root → NeverUp (selection c withBases) →
    (plan c root withBases).find? (Item.isPresent t) = none → ∀ p,
      (run FileTree.disk c root withBases false t).1.2 = .error (.alreadyExists p) ↔
        ∃ before item after, plan c root withBases = before ++ item :: after ∧ item.path = p
          ∧ (∃ u, Reached t before item u)
          ∧ ∃ earlier ∈ before, Obstructs item.subject earlier.subject
  /-- if no header is in the way of one before it, the export is refused exactly for the first
  header that was there before, and nothing changes -/
  of_apart : t.IsRooted → t.Settles root → NeverUp (selection c withBases) →
    (plan c root withBases).Pairwise (fun earlier later =>
      ¬ Obstructs later.subject earlier.subject) → ∀ p,
      (run FileTree.disk c root withBases false t).1.2 = .error (.alreadyExists p) ↔
        ((plan c root withBases).find? (Item.isPresent t)).map Item.path = some p
          ∧ run FileTree.disk c root withBases false t
            = ((planMessages c root withBases, .error (.alreadyExists p)), t)

theorem refused_of_rooted_iff (hrooted : t.IsRooted) (hsettles : t.Settles root)
    (hup : NeverUp (selection c withBases))
    (h : (plan c root withBases).find? (Item.isPresent t) = none) {p : Path} :
    (run FileTree.disk c root withBases false t).1.2 = .error (.alreadyExists p) ↔
      ∃ before item after, plan c root withBases = before ++ item :: after ∧ item.path = p
        ∧ (∃ u, Reached t before item u)
        ∧ ∃ earlier ∈ before, Obstructs item.subject earlier.subject := by
  rw [refused_of_absent_iff h]
  refine exists_congr fun before => exists_congr fun item => exists_congr fun after =>
    and_congr_right fun hplan => and_congr_right fun _ => and_congr_right fun ⟨u, hreached⟩ => ?_
  have hmem : ∀ other ∈ item :: before, other ∈ plan c root withBases := by
    rw [hplan]
    simp +contextual
  have hsubject (other : Item) (hother : other ∈ item :: before) :=
    Header.path_eq_of_mem_itemsAfter (hmem other hother)
  refine hreached.taken_iff_obstructs hrooted hsettles
    (fun other hother => (hsubject other hother).1)
    (fun other hother => hup _ (hsubject other hother).2) ?_
  simpa using List.find?_eq_none.1 h item (hmem item List.mem_cons_self)

/-- Whatever the classes and the file tree, an export that may not replace anything is refused as
told. -/
theorem refusals (c : Class) (root : Path) (withBases : Bool) (t : FileTree) :
    Refusals c root withBases t where
  of_present _ := run_of_present
  of_absent h _ := refused_of_absent_iff h
  of_rooted hrooted hsettles hup h _ := refused_of_rooted_iff hrooted hsettles hup h
  of_apart hrooted hsettles hup hapart p := by
    cases hfind : (plan c root withBases).find? (Item.isPresent t) with
    | some item =>
        rw [run_of_present hfind, Option.map_some]
        constructor
        · intro hrefused
          obtain rfl := Error.alreadyExists.inj (Except.error.inj hrefused)
          exact ⟨rfl, rfl⟩
        · rintro ⟨hpath, -⟩
          rw [Option.some.inj hpath]
    | none =>
        refine iff_of_false ?_ (by simp)
        rw [refused_of_rooted_iff hrooted hsettles hup hfind]
        rintro ⟨before, item, after, hplan, -, -, earlier, hearlier, hobstructs⟩
        rw [hplan, List.pairwise_append] at hapart
        exact hapart.2.2 earlier hearlier item List.mem_cons_self hobstructs

/-- A class whose file belongs where the directory of the class that derives from it does. -/
def sampleNested : Class :=
  { Class.ofName "Y".toList with
    namespaces := ["X.h".toList]
    bases := [.ofName "X".toList] }

def sampleNestedRun : (List Message × Except Error (List Path)) × FileTree :=
  run FileTree.disk sampleNested ⟨"out".toList⟩ true false (.ofCurrent "home".toList)

/-- Neither header is there before, and both paths go straight down in a tree of directories, but
the export is refused for the second one after it has written the first. -/
theorem refused_after_writing :
    (FileTree.ofCurrent "home".toList).IsRooted
      ∧ (FileTree.ofCurrent "home".toList).Settles ⟨"out".toList⟩
      ∧ NeverUp (selection sampleNested true)
      ∧ (plan sampleNested ⟨"out".toList⟩ true).find?
          (Item.isPresent (.ofCurrent "home".toList)) = none
      ∧ sampleNestedRun.1.2 = .error (.alreadyExists ⟨"out/X.h".toList⟩)
      ∧ sampleNestedRun.2.find? ⟨"out/X.h/Y.h".toList⟩
        = some (.file (Text.Utf8.encode (Header.render sampleNested))) := by
  refine ⟨FileTree.isRooted_ofCurrent _, FileTree.settles_of_up_not_mem (by decide +kernel), ?_⟩
  unfold NeverUp
  decide +kernel

end RttiProbe.Export
