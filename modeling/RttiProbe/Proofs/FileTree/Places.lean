import RttiProbe.FileTree
import RttiProbe.Proofs.Path.Components
/-!
# Places of paths

Where a path leads in a file tree is told by its components alone; the tree only decides whether it
leads there.  Below one directory, paths with neither `.` nor `..` lead to one place only if they
have the same components.
-/

set_option autoImplicit false

namespace RttiProbe

open RttiProbe.Path (Component)

/-! ## Components that are steps -/

namespace Path

/-- Whether a component leads from one place to another. -/
def Component.isStep : Component → Bool
  | .up => true
  | .entry _ => true
  | _ => false

theorem isStep_of_mem_descent {p : Path} {component : Component} (h : component ∈ p.descent) :
    component.isStep = true := by
  obtain ⟨piece, -, hpiece⟩ := List.mem_filterMap.1 h
  unfold Component.ofPiece? at hpiece
  split at hpiece
  · cases hpiece
  · split at hpiece <;> cases hpiece <;> rfl

theorem descent_eq_filter (p : Path) : p.descent = p.components.filter Component.isStep := by
  have hlead : p.lead.filter Component.isStep = [] := by
    unfold lead
    split
    · rfl
    · split <;> rfl
  rw [components_eq, List.filter_append, hlead, List.nil_append,
    List.filter_eq_self.2 fun _ => isStep_of_mem_descent]

theorem isAbsolute_eq (p : Path) : p.isAbsolute = p.components.contains .root := by
  have hdescent : p.descent.contains .root = false := by
    simpa using root_not_mem_descent p
  rw [components_eq, List.contains_append, hdescent, Bool.or_false]
  unfold lead
  split
  · assumption
  · split <;> simp_all

/-- A path has neither `.` nor `..` among its components. -/
def IsPlain (p : Path) : Prop := Component.here ∉ p.components ∧ Component.up ∉ p.components

instance (p : Path) : Decidable p.IsPlain := inferInstanceAs (Decidable (_ ∧ _))

theorem exists_map_entry_eq {components : List Component}
    (h : ∀ component ∈ components, ∃ name, Component.entry name = component) :
    ∃ names : List Text, names.map Component.entry = components := by
  induction components with
  | nil => exact ⟨[], rfl⟩
  | cons component rest ih =>
      obtain ⟨⟨name, rfl⟩, hrest⟩ := List.forall_mem_cons.1 h
      obtain ⟨names, rfl⟩ := ih hrest
      exact ⟨name :: names, rfl⟩

theorem IsPlain.lead_eq {p : Path} (h : p.IsPlain) (hrelative : p.isAbsolute = false) :
    p.lead = [] := by
  refine (lead_of_not_isAbsolute hrelative).resolve_right fun hlead => h.1 ?_
  rw [components_eq, hlead]
  exact List.mem_cons_self

theorem IsPlain.descent_eq {p : Path} (h : p.IsPlain) (hrelative : p.isAbsolute = false) :
    p.descent = p.components := by
  rw [components_eq, h.lead_eq hrelative, List.nil_append]

/-- A path that never goes up descends by names. -/
theorem exists_map_entry_eq_descent {p : Path} (h : Component.up ∉ p.descent) :
    ∃ names : List Text, names.map Component.entry = p.descent := by
  refine Path.exists_map_entry_eq fun component hcomponent => ?_
  have hstep := isStep_of_mem_descent hcomponent
  cases component with
  | root => cases hstep
  | here => cases hstep
  | up => exact absurd hcomponent h
  | entry name => exact ⟨name, rfl⟩

/-- The components of a plain path that is relative are names. -/
theorem IsPlain.exists_map_entry_eq {p : Path} (h : p.IsPlain) (hrelative : p.isAbsolute = false) :
    ∃ names : List Text, names.map Component.entry = p.components := by
  rw [← h.descent_eq hrelative]
  refine exists_map_entry_eq_descent fun hup => h.2 ?_
  rw [← h.descent_eq hrelative]
  exact hup

theorem IsPlain.components_join {p : Path} (h : p.IsPlain) (hrelative : p.isAbsolute = false)
    (root : Path) : (root.join p).components = root.components ++ p.components := by
  rw [Path.components_join root hrelative, h.lead_eq hrelative, h.descent_eq hrelative, ite_self,
    List.nil_append]

/-- A relative path taken from a directory descends on from there. -/
theorem descent_join (root : Path) {p : Path} (h : p.isAbsolute = false) :
    (root.join p).descent = root.descent ++ p.descent := by
  have hlead : p.lead.filter Component.isStep = [] := by
    rcases lead_of_not_isAbsolute h with hlead | hlead <;> rw [hlead] <;> decide
  rw [descent_eq_filter, Path.components_join root h, List.filter_append, List.filter_append,
    ← descent_eq_filter, List.filter_eq_self.2 fun _ => isStep_of_mem_descent]
  split
  · rw [hlead, List.nil_append]
  · rfl

theorem isAbsolute_join (root : Path) {p : Path} (h : p.isAbsolute = false) :
    (root.join p).isAbsolute = root.isAbsolute := by
  have hdescent : p.descent.contains .root = false := by
    simpa using root_not_mem_descent p
  have hlead : Component.root ∉ p.lead := by
    rcases lead_of_not_isAbsolute h with hlead | hlead <;> rw [hlead] <;> decide
  rw [isAbsolute_eq, Path.components_join root h, List.contains_append, List.contains_append,
    hdescent, ← isAbsolute_eq, Bool.or_false]
  split
  · simp [hlead]
  · simp

end Path

namespace FileTree

/-! ## Where paths lead -/

/-- The place that a component leads to from a place. -/
def follow (place : Place) : Component → Place
  | .up => place.dropLast
  | .entry name => place ++ [name]
  | _ => place

/-- The place that a path leads to if it leads anywhere. -/
def placeOf (t : FileTree) (path : Path) : Place :=
  path.descent.foldl follow (if path.isAbsolute then [] else t.current)

variable {t u : FileTree} {path : Path} {place : Place}

/-- The place that a piece of a path leads to from a place. -/
def next (place : Place) (piece : Text) : Place :=
  (Component.ofPiece? piece).elim place (follow place)

/-- A walk takes a piece from a directory only, and only if it is short enough for a name. -/
theorem walk_cons_eq_ok_iff {found : Place} {piece : Text} {rest : List Text} :
    t.walk place (piece :: rest) = .ok found ↔ t.node? place = some .directory
      ∧ (Text.Utf8.encode piece).length ≤ maxNameBytes
      ∧ t.walk (next place piece) rest = .ok found := by
  have hshort : (Text.Utf8.encode []).length ≤ maxNameBytes
      ∧ (Text.Utf8.encode ['.']).length ≤ maxNameBytes
      ∧ (Text.Utf8.encode ['.', '.']).length ≤ maxNameBytes := by decide
  rw [walk]
  unfold next Component.ofPiece?
  cases t.node? place with
  | none => simp
  | some node =>
      cases node with
      | file contents => simp
      | directory =>
          dsimp only
          by_cases hblank : piece = [] ∨ piece = ['.']
          · rw [if_pos hblank, if_pos hblank]
            rcases hblank with rfl | rfl <;> simp [hshort]
          · rw [if_neg hblank, if_neg hblank]
            by_cases hup : piece = ['.', '.']
            · rw [if_pos hup, if_pos hup, hup]
              simp [hshort, follow]
            · rw [if_neg hup, if_neg hup]
              by_cases hlong : maxNameBytes < (Text.Utf8.encode piece).length
              · simp [hlong, Nat.not_le_of_lt hlong]
              · simp [hlong, Nat.le_of_not_lt hlong, follow]

/-- The places that pieces are taken from, one after another. -/
def waypoints (place : Place) : List Text → List Place
  | [] => []
  | piece :: rest => place :: waypoints (next place piece) rest

theorem foldl_follow_cons (place : Place) (piece : Text) (rest : List Text) :
    ((piece :: rest).filterMap Component.ofPiece?).foldl follow place
      = (rest.filterMap Component.ofPiece?).foldl follow (next place piece) := by
  rw [List.filterMap_cons]
  unfold next
  cases Component.ofPiece? piece <;> rfl

/-- A walk goes through directories, by pieces that are short enough for names, and ends where the
pieces lead to. -/
theorem walk_eq_ok_iff {found : Place} {pieces : List Text} :
    t.walk place pieces = .ok found ↔
      (∀ waypoint ∈ waypoints place pieces, t.node? waypoint = some .directory)
        ∧ (∀ piece ∈ pieces, (Text.Utf8.encode piece).length ≤ maxNameBytes)
        ∧ (pieces.filterMap Component.ofPiece?).foldl follow place = found := by
  induction pieces generalizing place with
  | nil => simp [walk, waypoints]
  | cons piece rest ih =>
      rw [walk_cons_eq_ok_iff, ih, foldl_follow_cons]
      simp only [waypoints, List.forall_mem_cons]
      constructor
      · rintro ⟨hplace, hshort, hwaypoints, hrest, hfound⟩
        exact ⟨⟨hplace, hwaypoints⟩, ⟨hshort, hrest⟩, hfound⟩
      · rintro ⟨⟨hplace, hwaypoints⟩, ⟨hshort, hrest⟩, hfound⟩
        exact ⟨hplace, hshort, hwaypoints, hrest, hfound⟩

/-- A text that can be a path at all, whatever the tree. -/
def IsUsable (path : Path) : Prop :=
  '\x00' ∉ path.text ∧ path.text ≠ [] ∧ (Text.Utf8.encode path.text).length ≤ maxPathBytes

theorem resolve_eq_ok_iff {found : Place} :
    t.resolve path = .ok found ↔ IsUsable path
      ∧ t.walk (if path.isAbsolute then [] else t.current) path.pieces = .ok found := by
  unfold resolve IsUsable
  simp only [List.contains_iff_mem]
  by_cases hnull : '\x00' ∈ path.text
  · simp [hnull]
  · by_cases hempty : path.text = []
    · simp [hempty]
    · by_cases hlong : maxPathBytes < (Text.Utf8.encode path.text).length
      · simp [hnull, hempty, hlong, Nat.not_le_of_lt hlong]
      · simp [hnull, hempty, hlong, Nat.le_of_not_lt hlong]

theorem eq_placeOf_of_resolve_eq_ok {found : Place} (h : t.resolve path = .ok found) :
    found = t.placeOf path := (walk_eq_ok_iff.1 (resolve_eq_ok_iff.1 h).2).2.2.symm

theorem placeOf_eq_of_current_eq (h : u.current = t.current) (path : Path) :
    u.placeOf path = t.placeOf path := by
  unfold placeOf
  rw [h]

theorem placeOf_eq_of_components_eq {other : Path} (h : path.components = other.components)
    (t : FileTree) : t.placeOf path = t.placeOf other := by
  unfold placeOf
  rw [Path.descent_eq_filter, Path.descent_eq_filter, Path.isAbsolute_eq, Path.isAbsolute_eq, h]

/-- A relative path taken from a directory leads on from the place of the directory. -/
theorem placeOf_join (t : FileTree) (root : Path) (h : path.isAbsolute = false) :
    t.placeOf (root.join path) = path.descent.foldl follow (t.placeOf root) := by
  unfold placeOf
  rw [Path.descent_join root h, Path.isAbsolute_join root h, List.foldl_append]

theorem foldl_follow_map_entry (place : Place) (names : List Text) :
    (names.map Component.entry).foldl follow place = place ++ names := by
  induction names generalizing place with
  | nil => exact (List.append_nil place).symm
  | cons name rest ih =>
      rw [List.map_cons, List.foldl_cons, ih]
      exact List.append_assoc place [name] rest

/-- Plain paths lead from one directory to one place exactly if they are the same. -/
theorem placeOf_join_eq_iff (t : FileTree) (root : Path) {p q : Path} (hp : p.IsPlain)
    (hq : q.IsPlain) (hp' : p.isAbsolute = false) (hq' : q.isAbsolute = false) :
    t.placeOf (root.join p) = t.placeOf (root.join q) ↔ p.components = q.components := by
  obtain ⟨names, hnames⟩ := hp.exists_map_entry_eq hp'
  obtain ⟨others, hothers⟩ := hq.exists_map_entry_eq hq'
  rw [placeOf_join t root hp', placeOf_join t root hq', hp.descent_eq hp', hq.descent_eq hq']
  constructor
  · intro h
    rw [← hnames, ← hothers, foldl_follow_map_entry, foldl_follow_map_entry] at h
    rw [← hnames, ← hothers, List.append_cancel_left h]
  · intro h
    rw [h]

end FileTree

end RttiProbe
