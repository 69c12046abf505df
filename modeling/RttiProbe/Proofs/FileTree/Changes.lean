import RttiProbe.Proofs.FileTree.Places
/-!
# Changes of file trees

Nothing that a disk does takes a directory away, so a path that leads somewhere goes on leading
there, and a file keeps its content until another is written at its place.
-/

set_option autoImplicit false

namespace RttiProbe.FileTree

variable {t u v : FileTree} {path : Path} {place : Place} {contents : Bytes}

/-! ## What stays as it is -/

/-- A tree has all directories of another, and the same files but for those at the places
`written`. -/
structure Extends (written : List Place) (t u : FileTree) : Prop where
  current : u.current = t.current
  directories : ∀ place, t.node? place = some .directory → u.node? place = some .directory
  files : ∀ place, place ∉ written → ∀ contents,
    u.node? place = some (.file contents) ↔ t.node? place = some (.file contents)

namespace Extends

variable {written others : List Place}

theorem refl (t : FileTree) : Extends [] t t := ⟨rfl, fun _ h => h, fun _ _ _ => .rfl⟩

theorem trans (h : Extends written t u) (h' : Extends others u v) :
    Extends (written ++ others) t v where
  current := h'.current.trans h.current
  directories place hplace := h'.directories place (h.directories place hplace)
  files place hplace contents := by
    rw [List.mem_append, not_or] at hplace
    exact (h'.files place hplace.2 contents).trans (h.files place hplace.1 contents)

theorem placeOf_eq (h : Extends written t u) (path : Path) : u.placeOf path = t.placeOf path :=
  placeOf_eq_of_current_eq h.current path

/-- A walk that ends somewhere ends there as long as no directory is taken away. -/
theorem walk_eq_ok (h : Extends written t u) {found : Place} {pieces : List Text}
    (hwalk : t.walk place pieces = .ok found) : u.walk place pieces = .ok found := by
  rw [walk_eq_ok_iff] at hwalk ⊢
  exact ⟨fun waypoint hmem => h.directories waypoint (hwalk.1 waypoint hmem), hwalk.2⟩

/-- What a path leads to it goes on leading to. -/
theorem resolve_eq_ok (h : Extends written t u) {found : Place}
    (hresolve : t.resolve path = .ok found) : u.resolve path = .ok found := by
  rw [resolve_eq_ok_iff] at hresolve ⊢
  rw [h.current]
  exact ⟨hresolve.1, h.walk_eq_ok hresolve.2⟩

end Extends

/-! ## Operations -/

theorem extends_put_directory (h : t.node? place = none) :
    Extends [] t (t.put place .directory) where
  current := rfl
  directories other hother := by
    by_cases heq : other = place
    · rw [heq, h] at hother
      cases hother
    · rw [node?_put_of_ne heq]
      exact hother
  files other _ contents := by
    by_cases heq : other = place
    · have hne : place ≠ [] := fun hnil => by rw [hnil] at h; cases h
      rw [heq, node?_put_self hne, h]
      exact ⟨nofun, nofun⟩
    · rw [node?_put_of_ne heq]

theorem extends_put_file (h : t.node? place ≠ some .directory) :
    Extends [place] t (t.put place (.file contents)) where
  current := rfl
  directories other hother := by
    have heq : other ≠ place := fun heq => h (heq ▸ hother)
    rw [node?_put_of_ne heq]
    exact hother
  files other hother _ := by
    have heq : other ≠ place := fun heq => hother (List.mem_singleton.2 heq)
    rw [node?_put_of_ne heq]

/-- Puts something where a path leads to nothing so far. -/
def putNew (t : FileTree) (path : Path) (node : FileNode) : Except SystemError FileTree := do
  let place ← t.resolve path
  match t.node? place with
  | some _ => throw .alreadyPresent
  | none => return t.put place node

theorem makeDirectory_eq : t.makeDirectory path = t.putNew path .directory := rfl

theorem create_eq : t.create path contents = t.putNew path (.file contents) := rfl

theorem putNew_eq_ok_iff {node : FileNode} : t.putNew path node = .ok u ↔
    t.resolve path = .ok (t.placeOf path) ∧ t.node? (t.placeOf path) = none
      ∧ u = t.put (t.placeOf path) node := by
  unfold putNew
  cases hresolve : t.resolve path with
  | error e => exact ⟨nofun, nofun⟩
  | ok place =>
      obtain rfl := eq_placeOf_of_resolve_eq_ok hresolve
      simp only [bind, Except.bind]
      cases t.node? (t.placeOf path) with
      | none => simp [pure, Except.pure, eq_comm]
      | some node => exact ⟨nofun, nofun⟩

/-- A path that leads nowhere is not said to lead to something. -/
theorem walk_ne_alreadyPresent (pieces : List Text) :
    t.walk place pieces ≠ .error .alreadyPresent := by
  induction pieces generalizing place with
  | nil => exact nofun
  | cons piece rest ih =>
      rw [walk]
      split
      · simp [SystemError.notFound, SystemError.alreadyPresent]
      · simp [SystemError.notDirectory, SystemError.alreadyPresent]
      · split
        · exact ih
        · split
          · exact ih
          · split
            · simp [SystemError.nameTooLong, SystemError.alreadyPresent]
            · exact ih

theorem resolve_ne_alreadyPresent : t.resolve path ≠ .error .alreadyPresent := by
  unfold resolve
  split
  · simp [SystemError.nullInPath, SystemError.alreadyPresent]
  · split
    · simp [SystemError.notFound, SystemError.alreadyPresent]
    · split
      · simp [SystemError.nameTooLong, SystemError.alreadyPresent]
      · exact walk_ne_alreadyPresent _

/-- Nothing new is put where a path leads to something. -/
theorem putNew_eq_alreadyPresent_iff {node : FileNode} :
    t.putNew path node = .error .alreadyPresent ↔
      t.resolve path = .ok (t.placeOf path) ∧ t.node? (t.placeOf path) ≠ none := by
  unfold putNew
  cases hresolve : t.resolve path with
  | error e =>
      constructor
      · intro h
        obtain rfl : e = .alreadyPresent := Except.error.inj h
        exact absurd hresolve resolve_ne_alreadyPresent
      · exact nofun
  | ok place =>
      obtain rfl := eq_placeOf_of_resolve_eq_ok hresolve
      simp only [bind, Except.bind]
      cases t.node? (t.placeOf path) with
      | none => simp [pure, Except.pure]
      | some node => simp [throw, throwThe, MonadExceptOf.throw]

/-- A file is replaced unless its path leads to a directory. -/
theorem replace_eq_ok_iff : t.replace path contents = .ok u ↔
    t.resolve path = .ok (t.placeOf path) ∧ t.node? (t.placeOf path) ≠ some .directory
      ∧ u = t.put (t.placeOf path) (.file contents) := by
  unfold replace
  cases hresolve : t.resolve path with
  | error e => exact ⟨nofun, nofun⟩
  | ok place =>
      obtain rfl := eq_placeOf_of_resolve_eq_ok hresolve
      simp only [bind, Except.bind]
      cases t.node? (t.placeOf path) with
      | none => simp [pure, Except.pure, eq_comm]
      | some node => cases node <;> simp [pure, Except.pure, throw, throwThe, MonadExceptOf.throw,
          eq_comm]

/-- What a new file comes to, a replaced one would have come to. -/
theorem replace_eq_ok_of_create_eq_ok (h : t.create path contents = .ok u) :
    t.replace path contents = .ok u := by
  obtain ⟨hresolve, hnode, hu⟩ := putNew_eq_ok_iff.1 (create_eq ▸ h)
  exact replace_eq_ok_iff.2 ⟨hresolve, by rw [hnode]; exact nofun, hu⟩

theorem load_eq_ok_iff (h : t.resolve path = .ok place) :
    t.load path = .ok contents ↔ t.node? place = some (.file contents) := by
  unfold load
  rw [h]
  simp only [bind, Except.bind]
  cases t.node? place with
  | none => exact ⟨nofun, nofun⟩
  | some node =>
      cases node with
      | directory => exact ⟨nofun, nofun⟩
      | file bytes =>
          constructor
          · intro hload
            cases hload
            rfl
          · intro hnode
            cases hnode
            rfl

theorem extends_of_makeDirectory_eq_ok (h : t.makeDirectory path = .ok u) : Extends [] t u := by
  obtain ⟨-, hnode, rfl⟩ := putNew_eq_ok_iff.1 h
  exact extends_put_directory hnode

/-- A file has been written at the place that a path leads to, and nothing else has changed. -/
structure Stored (path : Path) (contents : Bytes) (t u : FileTree) : Prop where
  extended : Extends [t.placeOf path] t u
  resolved : u.resolve path = .ok (t.placeOf path)
  node : u.node? (t.placeOf path) = some (.file contents)

theorem Stored.of_extends (h : Extends [] t u) (hstored : Stored path contents u v) :
    Stored path contents t v := by
  obtain ⟨hextended, hresolved, hnode⟩ := hstored
  rw [h.placeOf_eq] at hextended hresolved hnode
  exact ⟨h.trans hextended, hresolved, hnode⟩

theorem stored_of_replace_eq_ok (h : t.replace path contents = .ok u) :
    Stored path contents t u := by
  obtain ⟨hresolve, hnode, rfl⟩ := replace_eq_ok_iff.1 h
  have hextends : Extends [t.placeOf path] t (t.put (t.placeOf path) (.file contents)) :=
    extends_put_file hnode
  refine ⟨hextends, hextends.resolve_eq_ok hresolve, node?_put_self ?_⟩
  intro hnil
  rw [hnil] at hnode
  exact hnode rfl

theorem stored_of_create_eq_ok (h : t.create path contents = .ok u) :
    Stored path contents t u := stored_of_replace_eq_ok (replace_eq_ok_of_create_eq_ok h)

theorem eq_ok_of_change {f : FileTree → Except SystemError FileTree}
    (h : change f t = (.ok (), u)) : f t = .ok u := by
  unfold change at h
  split at h
  · cases h
    assumption
  · cases h

/-- A change leaves a tree as it was or does what it is meant to do. -/
theorem of_change {P : FileTree → Prop} {f : FileTree → Except SystemError FileTree} (ht : P t)
    (h : ∀ u, f t = .ok u → P u) : P (change f t).2 := by
  unfold change
  split
  · rename_i u hu
    exact h u hu
  · exact ht

theorem change_eq_error_iff {f : FileTree → Except SystemError FileTree} {e : SystemError} :
    (change f t).1 = .error e ↔ f t = .error e := by
  unfold change
  split
  · rename_i u hu
    rw [hu]
    exact ⟨nofun, nofun⟩
  · rename_i e' he
    rw [he]
    simp

/-! ## Directories -/

/-- From whatever tree an operation of the disk starts, it ends in a related one. -/
def Moves {α : Type} (R : FileTree → FileTree → Prop) (x : StateM FileTree α) : Prop :=
  ∀ t, R t (x t).2

namespace Moves

variable {α β : Type} {R : FileTree → FileTree → Prop}

theorem bind (htrans : ∀ t u v, R t u → R u v → R t v) {x : StateM FileTree α}
    {f : α → StateM FileTree β} (hx : Moves R x) (hf : ∀ a, Moves R (f a)) : Moves R (x >>= f) :=
  fun t => htrans _ _ _ (hx t) (hf (x t).1 (x t).2)

theorem change (hrefl : ∀ t, R t t) {f : FileTree → Except SystemError FileTree}
    (h : ∀ t u, f t = .ok u → R t u) : Moves R (FileTree.change f) :=
  fun t => of_change (hrefl t) (h t)

/-- Making directories moves a tree as far as making single ones does. -/
theorem makeDirectories (hrefl : ∀ t, R t t) (htrans : ∀ t u v, R t u → R u v → R t v)
    {paths : List Path} (h : ∀ path ∈ paths, ∀ t u, t.makeDirectory path = .ok u → R t u) :
    Moves R (disk.makeDirectories paths) := by
  have hpure {α : Type} (a : α) : Moves R (Pure.pure a) := hrefl
  have hlook (path : Path) : Moves R (disk.isDirectory path) := hrefl
  induction paths with
  | nil => exact hpure _
  | cons inner outer ih =>
      have hinner : Moves R (disk.makeDirectory inner) :=
        change hrefl (h inner List.mem_cons_self)
      have houter := ih fun path hpath => h path (List.mem_cons_of_mem inner hpath)
      have hsettle : Moves R (disk.settle inner) := by
        refine bind htrans hinner fun made => ?_
        cases made with
        | ok _ => exact hpure _
        | error e => exact bind htrans (hlook inner) fun _ => hpure _
      refine bind htrans hinner fun made => ?_
      cases made with
      | ok _ => exact hpure _
      | error e =>
          dsimp only
          split
          · refine bind htrans houter fun settled => ?_
            cases settled with
            | error e => exact hpure _
            | ok _ => exact hsettle
          · exact bind htrans (hlook inner) fun _ => hpure _

end Moves

/-- What an operation of the disk does to the files of the tree: nothing. -/
def KeepsFiles {α : Type} (x : StateM FileTree α) : Prop := ∀ t, Extends [] t (x t).2

/-- Making directories leaves all files alone. -/
theorem KeepsFiles.makeDirectories (paths : List Path) :
    KeepsFiles (disk.makeDirectories paths) :=
  Moves.makeDirectories .refl (fun _ _ _ => .trans) fun _ _ _ _ => extends_of_makeDirectory_eq_ok

end RttiProbe.FileTree
