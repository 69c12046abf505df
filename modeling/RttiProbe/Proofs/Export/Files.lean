import RttiProbe.Proofs.Export.Plan
import RttiProbe.Proofs.Export.Writes
import RttiProbe.Proofs.FileTree.Rooted
/-!
# The files of an export

An export to a file tree stores one header after another, so what it leaves at a place is the last
header that was stored there, and everything that was there before is still there, but for files
that a header has replaced.
-/

set_option autoImplicit false

namespace RttiProbe.Export

open FileTree (Extends Stored Moves KeepsFiles SameBut placeOf_mem_route)

/-- The headers of items have been stored one after another. -/
inductive StoredAll : List Item → FileTree → FileTree → Prop
  | nil (t : FileTree) : StoredAll [] t t
  | cons {item : Item} {rest : List Item} {t u v : FileTree}
      (first : Stored item.path item.write.contents t u) (later : StoredAll rest u v) :
      StoredAll (item :: rest) t v

/-- The places that items go to. -/
def places (t : FileTree) (items : List Item) : List Place :=
  items.map fun item => t.placeOf item.path

theorem places_eq {written : List Place} {t u : FileTree} (h : Extends written t u)
    (items : List Item) : places u items = places t items :=
  List.map_congr_left fun item _ => h.placeOf_eq item.path

namespace StoredAll

variable {items : List Item} {t u : FileTree}

theorem extends_places (h : StoredAll items t u) : Extends (places t items) t u := by
  induction h with
  | nil t => exact .refl t
  | @cons item rest t u v first _ ih =>
      rw [places_eq first.extended] at ih
      exact first.extended.trans ih

/-- The path of each item leads to its place. -/
theorem resolve_eq (h : StoredAll items t u) :
    ∀ item ∈ items, u.resolve item.path = .ok (t.placeOf item.path) := by
  induction h with
  | nil t => exact nofun
  | @cons item rest t u v first later ih =>
      intro other hother
      rcases List.mem_cons.1 hother with rfl | hrest
      · exact later.extends_places.resolve_eq_ok first.resolved
      · rw [← first.extended.placeOf_eq]
        exact ih other hrest

/-- Wherever a header has been stored, the last one that was is found. -/
theorem exists_node?_eq (h : StoredAll items t u) :
    ∀ place ∈ places t items, ∃ item ∈ items,
      t.placeOf item.path = place ∧ u.node? place = some (.file item.write.contents) := by
  induction h with
  | nil t => exact nofun
  | @cons item rest t u v first later ih =>
      intro place hplace
      rw [places_eq first.extended] at ih
      by_cases hover : place ∈ places t rest
      · obtain ⟨last, hlast, heq, hnode⟩ := ih place hover
        rw [first.extended.placeOf_eq] at heq
        exact ⟨last, List.mem_cons_of_mem _ hlast, heq, hnode⟩
      · obtain rfl : place = t.placeOf item.path :=
          (List.mem_cons.1 hplace).resolve_right hover
        rw [← places_eq first.extended] at hover
        exact ⟨item, List.mem_cons_self, rfl,
          (later.extends_places.files _ hover item.write.contents).2 first.node⟩

/-- The file at the path of an item holds the header of an item that goes to the same place. -/
theorem exists_load_eq (h : StoredAll items t u) {item : Item} (hitem : item ∈ items) :
    ∃ last ∈ items, t.placeOf last.path = t.placeOf item.path
      ∧ u.load item.path = .ok last.write.contents := by
  obtain ⟨last, hlast, heq, hnode⟩ :=
    h.exists_node?_eq (t.placeOf item.path) (List.mem_map_of_mem hitem)
  exact ⟨last, hlast, heq, (FileTree.load_eq_ok_iff (h.resolve_eq item hitem)).2 hnode⟩

end StoredAll

theorem components_destination {root : Path} {x : Class} (hx : (Header.path x).IsPlain) :
    (destination root x).components = root.components ++ (Header.path x).components :=
  hx.components_join (Header.isAbsolute_path x) root

/-- Plain paths lead to one place only if they are the same, so the file at the path of an item of
a plan holds the item's own header. -/
theorem StoredAll.load_eq {c : Class} {root : Path} {withBases : Bool} {t u : FileTree}
    (h : StoredAll (plan c root withBases) t u)
    (hplain : ∀ x ∈ selection c withBases, (Header.path x).IsPlain) {item : Item}
    (hitem : item ∈ plan c root withBases) :
    u.load item.path = .ok (Text.Utf8.encode (Header.render item.subject)) := by
  obtain ⟨last, hlast, hplace, hload⟩ := h.exists_load_eq hitem
  obtain ⟨hpath, hsubject, hfirst⟩ := subject_of_mem_plan hitem
  obtain ⟨hpath', hsubject', hfirst'⟩ := subject_of_mem_plan hlast
  have hcomponents : (Header.path last.subject).components
      = (Header.path item.subject).components := by
    rw [hpath, hpath'] at hplace
    exact (FileTree.placeOf_join_eq_iff t root (hplain _ hsubject') (hplain _ hsubject)
      (Header.isAbsolute_path _) (Header.isAbsolute_path _)).1 hplace
  have hsame : last.path.components = item.path.components := by
    rw [hpath, hpath', components_destination (hplain _ hsubject),
      components_destination (hplain _ hsubject'), hcomponents]
  rw [hsame, hfirst] at hfirst'
  rw [Option.some.inj hfirst']
  exact hload

/-! ## Runs -/

section Runs

variable {overwrite : Bool} {t u : FileTree} {messages : List Message} {written : List Path}

theorem bind_apply {σ α β : Type} (x : StateM σ α) (f : α → StateM σ β) (state : σ) :
    (x >>= f) state = f (x state).1 (x state).2 := rfl

theorem eq_ok_of_mapError {toError : SystemError → Error}
    {x : StateM FileTree (Except SystemError Unit)}
    (h : (x >>= fun answer => pure (answer.mapError toError)) t = (.ok (), u)) :
    x t = (.ok (), u) := by
  rw [bind_apply] at h
  cases hx : x t with
  | mk answer after =>
      rw [hx] at h
      cases answer with
      | error e => cases h
      | ok _ =>
          cases h
          rfl

/-- The export of one header stores it, and makes directories at most otherwise. -/
theorem stored_of_writeItem_eq_ok {item : Item}
    (h : writeItem FileTree.disk overwrite item t = (.ok (), u)) :
    Stored item.path item.write.contents t u := by
  have hdirectories := KeepsFiles.makeDirectories item.path.steps.dropLast.reverse t
  unfold writeItem at h
  rw [bind_apply] at h
  cases hmade : FileTree.disk.makeDirectories item.path.steps.dropLast.reverse t with
  | mk made after =>
      rw [hmade] at h hdirectories
      cases made with
      | error e => cases h
      | ok _ =>
          refine Stored.of_extends hdirectories ?_
          dsimp only at h
          split at h
          · exact FileTree.stored_of_replace_eq_ok (FileTree.eq_ok_of_change (eq_ok_of_mapError h))
          · exact FileTree.stored_of_create_eq_ok (FileTree.eq_ok_of_change (eq_ok_of_mapError h))

theorem writeItems_cons {σ : Type} (disk : Disk (StateM σ)) (overwrite : Bool) (item : Item)
    (rest : List Item) (state : σ) :
    writeItems disk overwrite (item :: rest) state =
      match writeItem disk overwrite item state with
      | (.error e, after) => (([], .error e), after)
      | (.ok _, after) =>
        let out := writeItems disk overwrite rest after
        ((item.message :: out.1.1, out.1.2.map (item.path :: ·)), out.2) := by
  rw [writeItems, bind_apply]
  cases writeItem disk overwrite item state with
  | mk result after => cases result <;> rfl

/-- The headers of all items get written, which takes a disk from one state to another. -/
def WritesAll {σ : Type} (disk : Disk (StateM σ)) (overwrite : Bool) (items : List Item)
    (state final : σ) : Prop :=
  ∃ messages written, writeItems disk overwrite items state = ((messages, .ok written), final)

theorem writesAll_nil_iff {σ : Type} {disk : Disk (StateM σ)} {state final : σ} :
    WritesAll disk overwrite [] state final ↔ final = state := by
  constructor
  · rintro ⟨_, _, h⟩
    cases h
    rfl
  · rintro rfl
    exact ⟨[], [], rfl⟩

/-- All headers get written if the first does, and then the others. -/
theorem writesAll_cons_iff {σ : Type} {disk : Disk (StateM σ)} {item : Item} {rest : List Item}
    {state final : σ} :
    WritesAll disk overwrite (item :: rest) state final ↔
      ∃ middle, writeItem disk overwrite item state = (.ok (), middle)
        ∧ WritesAll disk overwrite rest middle final := by
  unfold WritesAll
  rw [writeItems_cons]
  cases writeItem disk overwrite item state with
  | mk result middle =>
      cases result with
      | error e => exact ⟨nofun, nofun⟩
      | ok _ =>
          dsimp only
          constructor
          · rintro ⟨messages, written, h⟩
            refine ⟨middle, rfl, ?_⟩
            cases hlater : writeItems disk overwrite rest middle with
            | mk out last =>
                obtain ⟨others, result⟩ := out
                rw [hlater] at h
                cases result with
                | error e => cases h
                | ok paths =>
                    cases h
                    exact ⟨others, paths, rfl⟩
          · rintro ⟨_, hmiddle, others, paths, hlater⟩
            obtain rfl := (Prod.mk.inj hmiddle).2
            rw [hlater]
            exact ⟨_, _, rfl⟩

theorem WritesAll.storedAll {items : List Item} (h : WritesAll FileTree.disk overwrite items t u) :
    StoredAll items t u := by
  induction items generalizing t with
  | nil =>
      obtain rfl := writesAll_nil_iff.1 h
      exact .nil _
  | cons item rest ih =>
      obtain ⟨middle, hfirst, hlater⟩ := writesAll_cons_iff.1 h
      exact .cons (stored_of_writeItem_eq_ok hfirst) (ih hlater)

/-- An export of headers moves a tree as far as making the directories of their paths and writing
their files does, whether it succeeds or not. -/
theorem moves_writeItems {R : FileTree → FileTree → Prop} (hrefl : ∀ t, R t t)
    (htrans : ∀ t u v, R t u → R u v → R t v) {items : List Item}
    (hmake : ∀ item ∈ items, ∀ step ∈ item.path.steps.dropLast, ∀ t u,
      t.makeDirectory step = .ok u → R t u)
    (hwrite : ∀ item ∈ items, ∀ contents t u, t.replace item.path contents = .ok u → R t u)
    (overwrite : Bool) : Moves R (writeItems FileTree.disk overwrite items) := by
  have hpure {α : Type} (a : α) : Moves R (Pure.pure a) := hrefl
  have hitem : ∀ item ∈ items, Moves R (writeItem FileTree.disk overwrite item) := by
    intro item hitem
    refine Moves.bind htrans (Moves.makeDirectories hrefl htrans fun step hstep =>
      hmake item hitem step (List.mem_reverse.1 hstep)) fun made => ?_
    cases made with
    | error e => exact hpure _
    | ok _ =>
        dsimp only
        split
        · exact Moves.bind htrans (Moves.change hrefl (hwrite item hitem _)) fun _ => hpure _
        · exact Moves.bind htrans (Moves.change hrefl fun t u hu =>
            hwrite item hitem _ t u (FileTree.replace_eq_ok_of_create_eq_ok hu)) fun _ => hpure _
  clear hmake hwrite
  induction items with
  | nil => exact hpure _
  | cons item rest ih =>
      obtain ⟨hfirst, hrest⟩ := List.forall_mem_cons.1 hitem
      refine Moves.bind htrans hfirst fun result => ?_
      cases result with
      | error e => exact hpure _
      | ok _ => exact Moves.bind htrans (ih hrest) fun _ => hpure _

/-- The places that the paths of items lead through. -/
def routes (t : FileTree) (items : List Item) : List Place :=
  items.flatMap fun item => t.route item.path

/-- An export changes a tree only along the paths of its plan, whatever it comes to. -/
theorem sameBut_writeItems (overwrite : Bool) (items : List Item) (t : FileTree) :
    SameBut (routes t items) t (writeItems FileTree.disk overwrite items t).2 := by
  -- the paths lead to the same places as long as the current directory is the same
  have hmoves : Moves (fun a b => a.current = t.current → SameBut (routes t items) a b)
      (writeItems FileTree.disk overwrite items) := by
    refine moves_writeItems (fun a _ => .refl a) ?_ ?_ ?_ overwrite
    · exact fun _ _ _ => .trans_of_current
    · intro item hitem step hstep a b hmade ha
      exact (SameBut.makeDirectory ha hstep hmade).mono fun place hplace =>
        List.mem_flatMap.2 ⟨item, hitem, List.mem_of_mem_dropLast hplace⟩
    · intro item hitem contents a b hwritten ha
      refine (SameBut.replace ha hwritten).mono fun place hplace => ?_
      obtain rfl := List.mem_singleton.1 hplace
      exact List.mem_flatMap.2 ⟨item, hitem, placeOf_mem_route t item.path⟩
  exact hmoves t rfl

theorem WritesAll.sameBut {items : List Item}
    (h : WritesAll FileTree.disk overwrite items t u) : SameBut (routes t items) t u := by
  obtain ⟨_, _, hwrites⟩ := h
  have hsame := sameBut_writeItems overwrite items t
  rw [hwrites] at hsame
  exact hsame

/-- An export leaves a tree of directories, whatever it comes to. -/
theorem isRooted_writeItems {t : FileTree} (h : t.IsRooted) (overwrite : Bool)
    (items : List Item) : (writeItems FileTree.disk overwrite items t).2.IsRooted := by
  have hmoves : Moves (fun a b => a.IsRooted → b.IsRooted)
      (writeItems FileTree.disk overwrite items) :=
    moves_writeItems (fun _ ha => ha) (fun _ _ _ hab hbc ha => hbc (hab ha))
      (fun _ _ _ _ _ _ hmade ha => ha.putNew hmade)
      (fun _ _ _ _ _ hwritten ha => ha.replace hwritten) overwrite
  exact hmoves t h

theorem WritesAll.isRooted {items : List Item}
    (h : WritesAll FileTree.disk overwrite items t u) (hrooted : t.IsRooted) : u.IsRooted := by
  obtain ⟨_, _, hwrites⟩ := h
  have hafter := isRooted_writeItems hrooted overwrite items
  rw [hwrites] at hafter
  exact hafter

/-- Whether there is something at the path of an item. -/
def Item.isPresent (t : FileTree) (item : Item) : Bool := (t.find? item.path).isSome

/-- Looking for files changes nothing. -/
theorem firstPresent?_eq (items : List Item) (t : FileTree) :
    firstPresent? FileTree.disk items t
      = ((items.find? (Item.isPresent t)).map Item.path, t) := by
  induction items with
  | nil => rfl
  | cons item rest ih =>
      unfold firstPresent?
      rw [bind_apply, List.find?_cons]
      show (if item.isPresent t then pure (some item.path)
        else firstPresent? FileTree.disk rest : StateM FileTree (Option Path)) t = _
      cases item.isPresent t with
      | true => rfl
      | false => exact ih

variable {c : Class} {root : Path} {withBases : Bool}

/-- An export that may not replace anything ends at the first header that is there already. -/
theorem run_of_present {item : Item}
    (h : (plan c root withBases).find? (Item.isPresent t) = some item) :
    run FileTree.disk c root withBases false t
      = ((planMessages c root withBases, .error (.alreadyExists item.path)), t) := by
  rw [run_eq, bind_apply, if_neg Bool.false_ne_true, firstPresent?_eq, h]
  rfl

/-- An export with nothing in its way writes its plan. -/
theorem run_of_absent
    (h : overwrite = false → (plan c root withBases).find? (Item.isPresent t) = none) :
    run FileTree.disk c root withBases overwrite t =
      let out := writeItems FileTree.disk overwrite (plan c root withBases) t
      ((planMessages c root withBases ++ out.1.1, out.1.2), out.2) := by
  have hlook : (if overwrite then pure none
      else firstPresent? FileTree.disk (plan c root withBases) :
        StateM FileTree (Option Path)) t = (none, t) := by
    cases overwrite with
    | true => rfl
    | false => rw [if_neg Bool.false_ne_true, firstPresent?_eq, h rfl, Option.map_none]
  rw [run_eq, bind_apply, hlook]
  rfl

/-- Nothing was in the way of a successful export. -/
theorem absent_of_run_eq_ok
    (h : run FileTree.disk c root withBases overwrite t = ((messages, .ok written), u)) :
    overwrite = false → (plan c root withBases).find? (Item.isPresent t) = none := by
  rintro rfl
  cases hfind : (plan c root withBases).find? (Item.isPresent t) with
  | none => rfl
  | some item =>
      rw [run_of_present hfind] at h
      cases h

/-- A successful export has written its plan. -/
theorem writesAll_of_run_eq_ok
    (h : run FileTree.disk c root withBases overwrite t = ((messages, .ok written), u)) :
    WritesAll FileTree.disk overwrite (plan c root withBases) t u := by
  rw [run_of_absent (absent_of_run_eq_ok h)] at h
  cases hwrites : writeItems FileTree.disk overwrite (plan c root withBases) t with
  | mk out after =>
      obtain ⟨others, result⟩ := out
      rw [hwrites] at h
      cases h
      exact ⟨_, _, hwrites⟩

theorem storedAll_of_run_eq_ok
    (h : run FileTree.disk c root withBases overwrite t = ((messages, .ok written), u)) :
    StoredAll (plan c root withBases) t u := (writesAll_of_run_eq_ok h).storedAll

end Runs

end RttiProbe.Export
