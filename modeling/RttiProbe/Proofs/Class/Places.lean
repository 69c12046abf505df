import Mathlib.Data.List.Nodup
import RttiProbe.Class.Basic
/-!
# Places in a tree of classes

The place of a class in a tree tells which base to go to at each level from the root on, so its
length is the level of the class.  `Class.visits` lists the classes of a tree in the order in which
they are completed: each class after all of its bases.  Every class of the tree is in the list, and
each at a place of its own.

A tree that is still under construction is given by its `spine`: the classes that are not completed
yet, from the root on, each with the bases that it already has, and each the next base of the one
before it.
-/

set_option autoImplicit false

namespace RttiProbe.Class

/-- A class, and the place in a tree where it stands. -/
@[ext]
structure Visit where
  place : List Nat
  found : Class

/-- The class at a place of a tree. -/
def at? (c : Class) : (place : List Nat) → Option Class
  | [] => some c
  | index :: rest =>
    match c.bases[index]? with
    | none => none
    | some b => b.at? rest

mutual

/-- The classes of the tree of a class at a place, each after its bases. -/
def visits (place : List Nat) : Class → List Visit
  | ⟨name, namespaces, arguments, bases, descriptor, isArgument⟩ =>
    visitsFrom place 0 bases
      ++ [⟨place, ⟨name, namespaces, arguments, bases, descriptor, isArgument⟩⟩]

/-- The classes of the trees of some bases, the first of which is base `index` of the class at a
place. -/
def visitsFrom (place : List Nat) (index : Nat) : List Class → List Visit
  | [] => []
  | c :: rest => visits (place ++ [index]) c ++ visitsFrom place (index + 1) rest

end

/-- The classes of a tree under construction, the first class of whose spine is at a place. -/
def spineVisits (place : List Nat) : (spine : List Class) → List Visit
  | [] => []
  | c :: rest =>
    visitsFrom place 0 c.bases ++ spineVisits (place ++ [c.bases.length]) rest ++ [⟨place, c⟩]

variable {place : List Nat} {index : Nat} {c : Class} {cs spine : List Class} {v : Visit}

theorem visits_eq (place : List Nat) (c : Class) :
    c.visits place = visitsFrom place 0 c.bases ++ [⟨place, c⟩] := by
  cases c; rw [visits]

/-- A tree whose root is completed has a spine of one class. -/
theorem spineVisits_singleton (place : List Nat) (c : Class) :
    spineVisits place [c] = c.visits place := by
  rw [spineVisits, spineVisits, List.append_nil, visits_eq]

/-! ## The classes of a tree -/

mutual

theorem mem_visits (place : List Nat) (v : Visit) : ∀ c : Class,
    v ∈ c.visits place ↔ ∃ rest, v.place = place ++ rest ∧ c.at? rest = some v.found
  | ⟨name, namespaces, arguments, bases, descriptor, isArgument⟩ => by
    rw [visits, List.mem_append, mem_visitsFrom place v bases 0, List.mem_singleton]
    constructor
    · rintro (⟨i, b, rest, hplace, hb, hfound⟩ | rfl)
      · refine ⟨i :: rest, by rw [hplace, Nat.zero_add], ?_⟩
        rw [at?, hb]
        exact hfound
      · exact ⟨[], (List.append_nil place).symm, rfl⟩
    · rintro ⟨rest, hplace, hfound⟩
      cases rest with
      | nil =>
          rw [List.append_nil] at hplace
          exact .inr (Visit.ext hplace (Option.some.inj hfound).symm)
      | cons i rest =>
          rw [at?] at hfound
          split at hfound
          · cases hfound
          · rename_i b hb
            exact .inl ⟨i, b, rest, by rw [hplace, Nat.zero_add], hb, hfound⟩

theorem mem_visitsFrom (place : List Nat) (v : Visit) : ∀ (cs : List Class) (index : Nat),
    v ∈ visitsFrom place index cs ↔
      ∃ i b rest, v.place = place ++ (index + i) :: rest ∧ cs[i]? = some b
        ∧ b.at? rest = some v.found
  | [], index => by simp [visitsFrom]
  | c :: others, index => by
    rw [visitsFrom, List.mem_append, mem_visits (place ++ [index]) v c,
      mem_visitsFrom place v others (index + 1)]
    constructor
    · rintro (⟨rest, hplace, hfound⟩ | ⟨i, b, rest, hplace, hb, hfound⟩)
      · exact ⟨0, c, rest, by rw [hplace, List.append_assoc]; rfl, rfl, hfound⟩
      · refine ⟨i + 1, b, rest, ?_, hb, hfound⟩
        rw [hplace, Nat.add_assoc, Nat.add_comm 1 i]
    · rintro ⟨i, b, rest, hplace, hb, hfound⟩
      cases i with
      | zero =>
          obtain rfl := Option.some.inj hb
          exact .inl ⟨rest, by rw [hplace, List.append_assoc]; rfl, hfound⟩
      | succ i =>
          refine .inr ⟨i, b, rest, ?_, hb, hfound⟩
          rw [hplace, Nat.add_assoc, Nat.add_comm 1 i]

end

/-- The visits of a tree are its classes, each at its place. -/
theorem mem_visits_root : v ∈ c.visits [] ↔ c.at? v.place = some v.found := by
  rw [mem_visits]
  simp

/-- What is visited below a place has a place below it. -/
theorem exists_place_of_mem_visits (h : v ∈ c.visits place) : ∃ rest, v.place = place ++ rest := by
  obtain ⟨rest, hplace, -⟩ := (mem_visits place v c).1 h
  exact ⟨rest, hplace⟩

theorem exists_place_of_mem_visitsFrom (h : v ∈ visitsFrom place index cs) :
    ∃ i rest, i < cs.length ∧ v.place = place ++ (index + i) :: rest := by
  obtain ⟨i, b, rest, hplace, hb, -⟩ := (mem_visitsFrom place v cs index).1 h
  exact ⟨i, rest, (List.getElem?_eq_some_iff.1 hb).1, hplace⟩

theorem exists_place_of_mem_spineVisits (h : v ∈ spineVisits place spine) :
    ∃ rest, v.place = place ++ rest := by
  induction spine generalizing place with
  | nil => cases h
  | cons c others ih =>
      rw [spineVisits, List.mem_append, List.mem_append, List.mem_singleton] at h
      rcases h with (h | h) | rfl
      · obtain ⟨i, rest, -, hplace⟩ := exists_place_of_mem_visitsFrom h
        exact ⟨_, hplace⟩
      · obtain ⟨rest, hplace⟩ := ih h
        exact ⟨c.bases.length :: rest, by rw [hplace, List.append_assoc]; rfl⟩
      · exact ⟨[], (List.append_nil place).symm⟩

/-! ## No place is visited twice -/

/-- No two visits are at the same place. -/
def AtDistinctPlaces (vs : List Visit) : Prop := (vs.map Visit.place).Nodup

theorem AtDistinctPlaces.append {vs ws : List Visit} (hvs : AtDistinctPlaces vs)
    (hws : AtDistinctPlaces ws) (h : ∀ v ∈ vs, ∀ w ∈ ws, v.place ≠ w.place) :
    AtDistinctPlaces (vs ++ ws) := by
  unfold AtDistinctPlaces at hvs hws ⊢
  rw [List.map_append]
  refine List.nodup_append.2 ⟨hvs, hws, ?_⟩
  intro p hp q hq
  obtain ⟨v, hv, rfl⟩ := List.mem_map.1 hp
  obtain ⟨w, hw, rfl⟩ := List.mem_map.1 hq
  exact h v hv w hw

/-- A class that stands above all others comes at a place of its own. -/
theorem AtDistinctPlaces.concat {vs : List Visit} (hvs : AtDistinctPlaces vs)
    (h : ∀ v ∈ vs, ∃ i rest, v.place = place ++ i :: rest) :
    AtDistinctPlaces (vs ++ [⟨place, c⟩]) := by
  refine hvs.append (List.nodup_singleton place) ?_
  intro v hv w hw heq
  obtain ⟨i, rest, hplace⟩ := h v hv
  obtain rfl := List.mem_singleton.1 hw
  have hlength := congrArg List.length (hplace.symm.trans heq)
  rw [List.length_append, List.length_cons] at hlength
  dsimp only at hlength
  omega

mutual

theorem atDistinctPlaces_visits (place : List Nat) : ∀ c : Class,
    AtDistinctPlaces (c.visits place)
  | ⟨name, namespaces, arguments, bases, descriptor, isArgument⟩ => by
    rw [visits]
    refine (atDistinctPlaces_visitsFrom place bases 0).concat fun v hv => ?_
    obtain ⟨i, rest, -, hplace⟩ := exists_place_of_mem_visitsFrom hv
    exact ⟨_, _, hplace⟩

theorem atDistinctPlaces_visitsFrom (place : List Nat) : ∀ (cs : List Class) (index : Nat),
    AtDistinctPlaces (visitsFrom place index cs)
  | [], _ => List.nodup_nil
  | c :: others, index => by
    rw [visitsFrom]
    refine (atDistinctPlaces_visits (place ++ [index]) c).append
      (atDistinctPlaces_visitsFrom place others (index + 1)) ?_
    intro v hv w hw heq
    obtain ⟨rest, hplace⟩ := exists_place_of_mem_visits hv
    obtain ⟨i, rest', -, hplace'⟩ := exists_place_of_mem_visitsFrom hw
    rw [hplace, hplace', List.append_assoc, List.singleton_append] at heq
    have hindex := (List.cons.inj (List.append_cancel_left heq)).1
    omega

end

theorem atDistinctPlaces_spineVisits (place : List Nat) (spine : List Class) :
    AtDistinctPlaces (spineVisits place spine) := by
  induction spine generalizing place with
  | nil => exact List.nodup_nil
  | cons c others ih =>
      rw [spineVisits]
      have hbelow (w : Visit) (hw : w ∈ spineVisits (place ++ [c.bases.length]) others) :
          ∃ rest, w.place = place ++ c.bases.length :: rest := by
        obtain ⟨rest, hplace⟩ := exists_place_of_mem_spineVisits hw
        exact ⟨rest, by rw [hplace, List.append_assoc]; rfl⟩
      refine AtDistinctPlaces.concat ((atDistinctPlaces_visitsFrom place c.bases 0).append
        (ih (place ++ [c.bases.length])) ?_) ?_
      · intro v hv w hw heq
        obtain ⟨i, rest, hlt, hplace⟩ := exists_place_of_mem_visitsFrom hv
        obtain ⟨rest', hplace'⟩ := hbelow w hw
        rw [hplace, hplace'] at heq
        have hindex := (List.cons.inj (List.append_cancel_left heq)).1
        omega
      · intro v hv
        rcases List.mem_append.1 hv with hv | hv
        · obtain ⟨i, rest, -, hplace⟩ := exists_place_of_mem_visitsFrom hv
          exact ⟨_, _, hplace⟩
        · obtain ⟨rest, hplace⟩ := hbelow v hv
          exact ⟨_, _, hplace⟩

end RttiProbe.Class
