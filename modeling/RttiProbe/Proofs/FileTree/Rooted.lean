import RttiProbe.Proofs.FileTree.Routes
/-!
# Trees of directories

A file tree as a file system has it keeps whatever is at a place in a directory.  In such a tree a
path that goes straight to its place leads there as soon as there is anything at the place, so that
the only difference between a place and a path to it is what the path goes through on its way.
-/

set_option autoImplicit false

namespace RttiProbe.FileTree

open RttiProbe.Path (Component)

variable {t u : FileTree} {path root : Path} {place : Place}

/-- Whatever is at a place is in a directory. -/
def IsRooted (t : FileTree) : Prop :=
  ∀ place name, t.node? (place ++ [name]) ≠ none → t.node? place = some .directory

/-- There is something at every place that leads to one where there is something. -/
theorem IsRooted.node?_ne_none (h : t.IsRooted) {other : Place} (hleads : place <+: other)
    (hother : t.node? other ≠ none) : t.node? place ≠ none := by
  obtain ⟨names, rfl⟩ := hleads
  induction names using List.reverseRecOn with
  | nil => rwa [List.append_nil] at hother
  | append_singleton names name ih =>
      rw [← List.append_assoc] at hother
      refine ih ?_
      rw [h _ _ hother]
      exact Option.some_ne_none _

theorem IsRooted.isDirectory_dropLast (h : t.IsRooted) (hplace : t.node? place ≠ none) :
    t.node? place.dropLast = some .directory := by
  induction place using List.reverseRecOn with
  | nil => exact t.node?_nil
  | append_singleton parent name _ =>
      rw [List.dropLast_concat]
      exact h parent name hplace

/-! ## Changes -/

/-- Something put in a directory, where there is none, leaves everything else where it is. -/
theorem IsRooted.put (h : t.IsRooted) {node : FileNode} (hnode : t.node? place ≠ some .directory)
    (hparent : t.node? place.dropLast = some .directory) : (t.put place node).IsRooted := by
  intro parent name hchild
  by_cases heq : parent ++ [name] = place
  · obtain rfl := heq
    rw [List.dropLast_concat] at hparent
    rw [node?_put_of_ne (by simp), hparent]
  · rw [node?_put_of_ne heq] at hchild
    have hdirectory := h parent name hchild
    have hother : parent ≠ place := fun hplace => hnode (hplace ▸ hdirectory)
    rw [node?_put_of_ne hother, hdirectory]

theorem isRooted_ofCurrent (name : Text) : (ofCurrent name).IsRooted := by
  have hnone {place : Place} (hplace : place ≠ []) :
      (⟨.empty, [name]⟩ : FileTree).node? place = none := by
    unfold node?
    rw [if_neg hplace, Trie.get?_empty]
  have hempty : (⟨.empty, [name]⟩ : FileTree).IsRooted := fun parent child hchild =>
    absurd (hnone (List.append_ne_nil_of_right_ne_nil parent (List.cons_ne_nil child []))) hchild
  refine hempty.put ?_ (node?_nil _)
  rw [hnone (List.cons_ne_nil name [])]
  exact nofun

/-- A path that leads somewhere starts from a directory. -/
theorem isDirectory_origin {found : Place} (h : t.resolve path = .ok found) :
    t.node? (t.origin path) = some .directory := by
  have hwaypoints := (walk_eq_ok_iff.1 (resolve_eq_ok_iff.1 h).2).1
  cases hpieces : path.pieces with
  | nil => exact absurd hpieces (Path.pieces_ne_nil path)
  | cons piece rest =>
      refine hwaypoints _ ?_
      rw [hpieces, waypoints]
      exact List.mem_cons_self

/-- The steps before the last one lead to a place on the way. -/
theorem foldl_follow_mem_approach {way : List Component} {component : Component}
    (h : path.descent = way ++ [component]) :
    way.foldl follow (t.origin path) ∈ t.approach path := by
  unfold approach route
  rw [h, List.inits_append, List.map_append, List.dropLast_append_of_ne_nil (by simp)]
  exact List.mem_append_left _ (List.mem_map_of_mem ((List.mem_inits _ _).2 List.prefix_rfl))

/-- A path that leads somewhere leads into a directory. -/
theorem IsRooted.isDirectory_placeOf_dropLast (h : t.IsRooted) {found : Place}
    (hresolve : t.resolve path = .ok found) :
    t.node? (t.placeOf path).dropLast = some .directory := by
  have hparent {place : Place} (hplace : t.node? place = some .directory) :
      t.node? place.dropLast = some .directory :=
    h.isDirectory_dropLast (by rw [hplace]; exact Option.some_ne_none _)
  unfold placeOf
  cases hdescent : path.descent using List.reverseRecOn with
  | nil => exact hparent (isDirectory_origin hresolve)
  | append_singleton way component _ =>
      have hway : t.node? (way.foldl follow (t.origin path)) = some .directory :=
        isDirectory_of_mem_approach hresolve _ (foldl_follow_mem_approach hdescent)
      rw [List.foldl_append]
      cases component with
      | root => exact hparent hway
      | here => exact hparent hway
      | up => exact hparent (hparent hway)
      | entry name =>
          show t.node? (List.dropLast (_ ++ [name])) = _
          rw [List.dropLast_concat]
          exact hway

/-- What a disk does to a tree of directories leaves one. -/
theorem IsRooted.putNew (h : t.IsRooted) {node : FileNode} (hput : t.putNew path node = .ok u) :
    u.IsRooted := by
  obtain ⟨hresolve, hnode, rfl⟩ := putNew_eq_ok_iff.1 hput
  exact h.put (by rw [hnode]; exact nofun) (h.isDirectory_placeOf_dropLast hresolve)

theorem IsRooted.replace (h : t.IsRooted) {contents : Bytes}
    (hreplace : t.replace path contents = .ok u) : u.IsRooted := by
  obtain ⟨hresolve, hnode, rfl⟩ := replace_eq_ok_iff.1 hreplace
  exact h.put hnode (h.isDirectory_placeOf_dropLast hresolve)

/-! ## Straight ways -/

/-- All places that a path leads through are directories, or on the straight way to where it
leads. -/
def Settles (t : FileTree) (path : Path) : Prop :=
  ∀ place ∈ t.approach path, t.node? place = some .directory ∨ place <+: t.placeOf path

/-- A walk takes no piece from anywhere but a place that the pieces before it lead to. -/
theorem exists_prefix_of_mem_waypoints {pieces : List Text} {waypoint : Place}
    (h : waypoint ∈ waypoints place pieces) :
    ∃ way, way <+: pieces.filterMap Component.ofPiece? ∧ way.foldl follow place = waypoint := by
  induction pieces generalizing place with
  | nil => exact absurd h List.not_mem_nil
  | cons piece rest ih =>
      rw [waypoints] at h
      rcases List.mem_cons.1 h with rfl | h
      · exact ⟨[], List.nil_prefix, rfl⟩
      · obtain ⟨way, hway, rfl⟩ := ih h
        unfold next
        cases hcomponent : Component.ofPiece? piece with
        | none =>
            rw [List.filterMap_cons_none hcomponent]
            exact ⟨way, hway, rfl⟩
        | some component =>
            rw [List.filterMap_cons_some hcomponent]
            exact ⟨component :: way, List.cons_prefix_cons.2 ⟨rfl, hway⟩, rfl⟩

theorem mem_route_of_mem_waypoints {waypoint : Place}
    (h : waypoint ∈ waypoints (t.origin path) path.pieces) : waypoint ∈ t.route path := by
  obtain ⟨way, hway, rfl⟩ := exists_prefix_of_mem_waypoints h
  exact List.mem_map_of_mem ((List.mem_inits _ _).2 hway)

/-- A path to a place where there is something leads there in a tree of directories, if it does so
in a tree that has come from it. -/
theorem resolve_eq_ok_of_settles (hrooted : t.IsRooted) (hsettles : t.Settles path)
    (hcurrent : u.current = t.current)
    (hkept : ∀ place contents, t.node? place = some (.file contents) →
      u.node? place ≠ some .directory)
    (hnode : t.node? (t.placeOf path) ≠ none) (h : u.resolve path = .ok (t.placeOf path)) :
    t.resolve path = .ok (t.placeOf path) := by
  rw [resolve_eq_ok_iff, hcurrent, walk_eq_ok_iff] at h
  rw [resolve_eq_ok_iff, walk_eq_ok_iff]
  obtain ⟨husable, hwaypoints, hpieces⟩ := h
  refine ⟨husable, fun waypoint hwaypoint => ?_, hpieces⟩
  -- a waypoint is a directory later on, so it is enough that there is something already
  have hdirectory (hpresent : t.node? waypoint ≠ none) : t.node? waypoint = some .directory := by
    cases htnode : t.node? waypoint with
    | none => exact absurd htnode hpresent
    | some node =>
        cases node with
        | directory => rfl
        | file contents => exact absurd (hwaypoints waypoint hwaypoint) (hkept _ _ htnode)
  have hroute := mem_route_of_mem_waypoints hwaypoint
  rw [route_eq, List.mem_append, List.mem_singleton] at hroute
  rcases hroute with happroach | rfl
  · rcases hsettles waypoint happroach with hwaypoint | hleads
    · exact hwaypoint
    · exact hdirectory (hrooted.node?_ne_none hleads hnode)
  · exact hdirectory hnode

/-- A path that exists as a directory leads there through directories. -/
theorem settles_of_isDirectory (h : t.isDirectory path = true) : t.Settles path := by
  have hfind : t.find? path = some .directory := eq_of_beq h
  unfold find? at hfind
  cases hresolve : t.resolve path with
  | error e =>
      rw [hresolve] at hfind
      cases hfind
  | ok place => exact fun place hplace => .inl (isDirectory_of_mem_approach hresolve place hplace)

/-- Names lead straight down from any place. -/
theorem map_foldl_follow_inits (place : Place) (names : List Text) :
    (names.map Component.entry).inits.map (·.foldl follow place)
      = names.inits.map (place ++ ·) := by
  rw [List.map_inits, List.map_map]
  exact List.map_congr_left fun down _ => foldl_follow_map_entry place down

/-- A path that never goes up leads straight to its place. -/
theorem settles_of_up_not_mem (h : Component.up ∉ path.descent) : t.Settles path := by
  obtain ⟨names, hnames⟩ := Path.exists_map_entry_eq_descent h
  intro place hplace
  have hroute : place ∈ t.route path := List.mem_of_mem_dropLast hplace
  unfold route at hroute
  rw [← hnames, map_foldl_follow_inits] at hroute
  obtain ⟨down, hdown, rfl⟩ := List.mem_map.1 hroute
  have hend : t.placeOf path = t.origin path ++ names := by
    unfold placeOf
    rw [← hnames, foldl_follow_map_entry]
    rfl
  rw [hend]
  exact .inr (List.prefix_append_right_inj _ |>.2 ((List.mem_inits _ _).1 hdown))

/-! ## Ways below a directory -/

section Below

variable {names : List Text} (hrelative : path.isAbsolute = false)
  (hnames : names.map Component.entry = path.descent)

include hrelative hnames

theorem placeOf_join_eq_append : t.placeOf (root.join path) = t.placeOf root ++ names := by
  rw [placeOf_join t root hrelative, ← hnames, foldl_follow_map_entry]

/-- A relative path that never goes up leads straight down from the directory it is taken from. -/
theorem route_join :
    t.route (root.join path) = t.approach root ++ names.inits.map (t.placeOf root ++ ·) := by
  have horigin : t.origin (root.join path) = t.origin root := by
    unfold origin
    rw [Path.isAbsolute_join root hrelative]
  have hbelow : ((names.map Component.entry).inits.tail.map (root.descent ++ ·)).map
      (·.foldl follow (t.origin root)) = (names.inits.map (t.placeOf root ++ ·)).tail := by
    rw [← map_foldl_follow_inits, List.map_map, ← List.map_tail]
    exact List.map_congr_left fun down _ => List.foldl_append
  have hroot : t.route root = t.approach root ++ [t.placeOf root] := route_eq t root
  unfold route at hroot ⊢
  rw [horigin, Path.descent_join root hrelative, ← hnames, List.inits_append, List.map_append,
    hroot, hbelow, List.append_assoc, Path.inits_eq_cons names]
  simp

theorem approach_join :
    t.approach (root.join path)
      = t.approach root ++ names.inits.dropLast.map (t.placeOf root ++ ·) := by
  have hne : names.inits.map (t.placeOf root ++ ·) ≠ [] := by
    rw [Path.inits_eq_cons]
    exact List.cons_ne_nil _ _
  rw [approach, route_join hrelative hnames, List.dropLast_append_of_ne_nil hne, List.map_dropLast]

/-- The way down is not at its end before it has come there. -/
theorem placeOf_mem_approach_join_iff :
    t.placeOf (root.join path) ∈ t.approach (root.join path)
      ↔ t.placeOf (root.join path) ∈ t.approach root := by
  rw [approach_join hrelative hnames, List.mem_append, or_iff_left_iff_imp,
    placeOf_join_eq_append hrelative hnames]
  intro hmem
  obtain ⟨down, hdown, heq⟩ := List.mem_map.1 hmem
  obtain rfl := List.append_cancel_left heq
  obtain ⟨count, hcount, htake⟩ := List.mem_iff_getElem.1 hdown
  rw [List.getElem_dropLast, List.getElem_inits] at htake
  have hlength := congrArg List.length htake
  simp only [List.length_dropLast, List.length_inits, List.length_take] at hcount hlength
  omega

/-- Where a directory settles, paths from it that never go up do. -/
theorem Settles.join (h : t.Settles root) : t.Settles (root.join path) := by
  intro place hplace
  rw [placeOf_join_eq_append hrelative hnames]
  rw [approach_join hrelative hnames, List.mem_append] at hplace
  rcases hplace with hroot | hbelow
  · exact (h place hroot).imp_right fun hleads => hleads.trans (List.prefix_append _ _)
  · obtain ⟨down, hdown, rfl⟩ := List.mem_map.1 hbelow
    exact .inr ((List.prefix_append_right_inj _).2
      ((List.mem_inits _ _).1 (List.mem_of_mem_dropLast hdown)))

end Below

end RttiProbe.FileTree
