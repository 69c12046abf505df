import RttiProbe.Proofs.Hierarchy.Walk
/-!
# Interrupted rebuilds

How far a rebuild has come when a read fails and ends it.  The classes that are not completed then
form a line from the root down, each the next base of the one before it, and each holds the bases
that were completed before.  `Interrupted` has one rule for each read that can fail; the line it
tells is the only one (`Interrupted.unique`).
-/

set_option autoImplicit false

namespace RttiProbe.Hierarchy

open Record Decode RttiProbe.Class

variable {memory : Memory} {demangler : Demangler}

/-! ## Unfinished walks -/

section Walks

/-- Bases that a walk finds from slot `cursor` on, whatever it does after them. -/
inductive Found (memory : Memory) (Rebuilds : BaseDescriptor → Class → Prop)
    (h : HierarchyDescriptor) (last : Nat) : (cursor : Nat) → List Class → Prop
  | nil {cursor : Nat} : Found memory Rebuilds h last cursor []
  | cons {cursor : Nat} {d : BaseDescriptor} {c : Class} {rest : List Class}
      (hlast : cursor ≤ last) (hslot : Gives memory (h.base memory.frame cursor) (some d))
      (hbase : Rebuilds d c)
      (hrest : Found memory Rebuilds h last (cursor + 1 + c.baseCount) rest) :
      Found memory Rebuilds h last cursor (c :: rest)

variable {Rebuilds : BaseDescriptor → Class → Prop} {h : HierarchyDescriptor} {last cursor : Nat}
  {found : List Class}

theorem add_totalCount_cons (cursor : Nat) (c : Class) (rest : List Class) :
    cursor + totalCount (c :: rest) = cursor + 1 + c.baseCount + totalCount rest := by
  rw [totalCount]
  omega

/-- A walk fails with the slot after the bases it found, or with the base in that slot. -/
theorem Found.fails_walk {rebuild : BaseDescriptor → Decode Class} {name : Text} {e : Error}
    (hfound : Found memory (fun d c => Gives memory (rebuild d) c) h last cursor found)
    (hlast : cursor + totalCount found ≤ last)
    (hnext : Fails memory (h.base memory.frame (cursor + totalCount found)) e
      ∨ ∃ d, Gives memory (h.base memory.frame (cursor + totalCount found)) (some d)
        ∧ Fails memory (rebuild d) e) (before : List Class) :
    Fails memory (walk memory.frame rebuild h name last cursor before) e := by
  induction hfound generalizing before with
  | nil =>
      rw [totalCount, Nat.add_zero] at hlast hnext
      rw [walk, dif_pos hlast]
      rcases hnext with hslot | ⟨d, hslot, hbase⟩
      · exact fails_bind.2 (.inl hslot)
      · exact fails_bind.2 (.inr ⟨some d, hslot, fails_bind.2 (.inl hbase)⟩)
  | @cons cursor d c rest hle hslot hbase _ ih =>
      rw [add_totalCount_cons] at hlast hnext
      rw [walk, dif_pos hle]
      exact fails_bind.2 (.inr ⟨some d, hslot,
        fails_bind.2 (.inr ⟨c, hbase, ih hlast hnext (c :: before)⟩)⟩)

/-- A walk that cannot complete the base in the next slot has found no other bases. -/
theorem Found.unique (hfound : Found memory Rebuilds h last cursor found)
    (hrebuilds : ∀ d c c', Rebuilds d c → Rebuilds d c' → c = c')
    (hstuck : ∀ d c, Gives memory (h.base memory.frame (cursor + totalCount found)) (some d) →
      ¬ Rebuilds d c) {found' : List Class} (hfound' : Found memory Rebuilds h last cursor found')
    (hstuck' : ∀ d c, Gives memory (h.base memory.frame (cursor + totalCount found')) (some d) →
      ¬ Rebuilds d c) : found = found' := by
  induction hfound generalizing found' with
  | nil =>
      cases hfound' with
      | nil => rfl
      | cons _ hslot hbase => exact absurd hbase (hstuck _ _ hslot)
  | cons _ hslot hbase _ ih =>
      cases hfound' with
      | nil => exact absurd hbase (hstuck' _ _ hslot)
      | cons _ hslot' hbase' hrest' =>
          obtain rfl := Option.some.inj (hslot.unique hslot')
          obtain rfl := hrebuilds _ _ _ hbase hbase'
          rw [add_totalCount_cons] at hstuck hstuck'
          rw [ih hstuck hrest' hstuck']

end Walks

/-! ## Unfinished classes -/

theorem IsNamed.unique {d : BaseDescriptor} {name name' : Text}
    (h : IsNamed memory demangler d name) (h' : IsNamed memory demangler d name') :
    name = name' := by
  obtain ⟨type, htype, hname⟩ := h
  obtain ⟨type', htype', hname'⟩ := h'
  obtain rfl := htype.unique htype'
  exact hname.unique hname'

/-- A type that cannot be read has no name. -/
theorem IsNamed.not_fails {d : BaseDescriptor} {name : Text} (h : IsNamed memory demangler d name)
    (e : Error) : ¬ Fails memory (d.type memory.frame) e := by
  obtain ⟨type, htype, -⟩ := h
  exact htype.not_fails e

/-- The class of `d` has the bases of `u` so far, and the walk along the array of `h` goes on with
the slot after them.  Its bases are followed through `depth` levels. -/
inductive Walking (memory : Memory) (demangler : Demangler) (depth : Nat) (d : BaseDescriptor)
    (h : HierarchyDescriptor) : (u : Class) → Prop
  | mk {name : Text} {found : List Class} (hname : IsNamed memory demangler d name)
      (hsub : d.subElementCount ≠ 0)
      (hhierarchy : Gives memory (d.hierarchy memory.frame) (some h))
      (hfound : Found memory (fun b c => Gives memory (build memory.frame demangler depth b) c)
        h (lastSlot d h) 1 found)
      (hlast : 1 + totalCount found ≤ lastSlot d h) :
      Walking memory demangler depth d h (classOf name d found)

theorem baseCount_classOf (name : Text) (d : BaseDescriptor) (bases : List Class) :
    (classOf name d bases).baseCount = totalCount bases := baseCount_eq _

section Walking

variable {depth : Nat} {d : BaseDescriptor} {h h' : HierarchyDescriptor} {u u' : Class}

theorem Walking.isNamed (hwalking : Walking memory demangler depth d h u) :
    ∃ name, IsNamed memory demangler d name := by
  obtain ⟨hname, -, -, -, -⟩ := hwalking
  exact ⟨_, hname⟩

theorem Walking.gives_hierarchy (hwalking : Walking memory demangler depth d h u) :
    Gives memory (d.hierarchy memory.frame) (some h) := by
  obtain ⟨-, -, hhierarchy, -, -⟩ := hwalking
  exact hhierarchy

/-- The base in the next slot cannot be completed. -/
def Stuck (memory : Memory) (demangler : Demangler) (depth : Nat) (h : HierarchyDescriptor)
    (u : Class) : Prop :=
  ∀ b c, Gives memory (h.base memory.frame (1 + u.baseCount)) (some b) →
    ¬ Gives memory (build memory.frame demangler depth b) c

/-- There is one place at most where the walk of a class can be stuck. -/
theorem Walking.unique (hwalking : Walking memory demangler depth d h u)
    (hstuck : Stuck memory demangler depth h u)
    (hwalking' : Walking memory demangler depth d h' u')
    (hstuck' : Stuck memory demangler depth h' u') : h = h' ∧ u = u' := by
  obtain rfl := Option.some.inj (hwalking.gives_hierarchy.unique hwalking'.gives_hierarchy)
  obtain ⟨hname, -, -, hfound, -⟩ := hwalking
  obtain ⟨hname', -, -, hfound', -⟩ := hwalking'
  unfold Stuck at hstuck hstuck'
  rw [baseCount_classOf] at hstuck hstuck'
  have hbases := hfound.unique (fun _ _ _ hc hc' => hc.unique hc') hstuck hfound' hstuck'
  rw [hname.unique hname', hbases]
  exact ⟨rfl, rfl⟩

/-- After the name of a class is known, its rebuild fails with its hierarchy descriptor or with the
walk along its array. -/
theorem fails_build_of_isNamed {name : Text} {e : Error} (hname : IsNamed memory demangler d name)
    (hsub : d.subElementCount ≠ 0)
    (h : Fails memory (d.hierarchy memory.frame) e
      ∨ ∃ h, Gives memory (d.hierarchy memory.frame) (some h)
        ∧ Fails memory (walk memory.frame (build memory.frame demangler depth) h name
          (lastSlot d h) 1 []) e) :
    Fails memory (build memory.frame demangler (depth + 1) d) e := by
  obtain ⟨type, htype, hname⟩ := hname
  rw [build.eq_def]
  refine fails_bind.2 (.inr ⟨type, htype, fails_bind.2 (.inr ⟨name, hname, ?_⟩)⟩)
  dsimp only
  rw [if_neg hsub]
  rcases h with hhierarchy | ⟨a, hhierarchy, hwalk⟩
  · exact fails_bind.2 (.inl hhierarchy)
  · exact fails_bind.2 (.inr ⟨some a, hhierarchy, fails_bind.2 (.inl hwalk)⟩)

theorem Walking.fails_build {e : Error} (hwalking : Walking memory demangler depth d h u)
    (hnext : Fails memory (h.base memory.frame (1 + u.baseCount)) e
      ∨ ∃ b, Gives memory (h.base memory.frame (1 + u.baseCount)) (some b)
        ∧ Fails memory (build memory.frame demangler depth b) e) :
    Fails memory (build memory.frame demangler (depth + 1) d) e := by
  obtain ⟨hname, hsub, hhierarchy, hfound, hlast⟩ := hwalking
  rw [baseCount_classOf] at hnext
  exact fails_build_of_isNamed hname hsub (.inr ⟨h, hhierarchy, hfound.fails_walk hlast hnext []⟩)

end Walking

/-! ## Unfinished rebuilds -/

/-- The classes that are not completed when the rebuild of a class is ended by the failure `e`, from
the class itself down, each with the bases it already has.  A class exists as soon as its name is
known, so there is none where its type cannot be read. -/
inductive Interrupted (memory : Memory) (demangler : Demangler) (e : Error) :
    (depth : Nat) → BaseDescriptor → (spine : List Class) → Prop
  /-- the type of the class cannot be read -/
  | type {depth : Nat} {d : BaseDescriptor} (htype : Fails memory (d.type memory.frame) e) :
      Interrupted memory demangler e depth d []
  /-- its hierarchy descriptor cannot be read -/
  | hierarchy {depth : Nat} {d : BaseDescriptor} {name : Text}
      (hname : IsNamed memory demangler d name) (hsub : d.subElementCount ≠ 0)
      (hhierarchy : Fails memory (d.hierarchy memory.frame) e) :
      Interrupted memory demangler e (depth + 1) d [classOf name d []]
  /-- the next slot of its array cannot be read -/
  | slot {depth : Nat} {d : BaseDescriptor} {h : HierarchyDescriptor} {u : Class}
      (hwalking : Walking memory demangler depth d h u)
      (hslot : Fails memory (h.base memory.frame (1 + u.baseCount)) e) :
      Interrupted memory demangler e (depth + 1) d [u]
  /-- the rebuild of the base in that slot is ended -/
  | base {depth : Nat} {d b : BaseDescriptor} {h : HierarchyDescriptor} {u : Class}
      {spine : List Class} (hwalking : Walking memory demangler depth d h u)
      (hslot : Gives memory (h.base memory.frame (1 + u.baseCount)) (some b))
      (hbase : Interrupted memory demangler e depth b spine) :
      Interrupted memory demangler e (depth + 1) d (u :: spine)

namespace Interrupted

variable {e e' : Error} {depth : Nat} {d : BaseDescriptor} {spine spine' : List Class}

/-- A rebuild that is interrupted fails. -/
theorem fails (h : Interrupted memory demangler e depth d spine) :
    Fails memory (build memory.frame demangler depth d) e := by
  induction h with
  | type htype =>
      rw [build.eq_def]
      exact fails_bind.2 (.inl htype)
  | hierarchy hname hsub hhierarchy => exact fails_build_of_isNamed hname hsub (.inl hhierarchy)
  | slot hwalking hslot => exact hwalking.fails_build (.inl hslot)
  | base hwalking hslot _ ih => exact hwalking.fails_build (.inr ⟨_, hslot, ih⟩)

theorem stuck_of_fails {h : HierarchyDescriptor} {u : Class}
    (hslot : Fails memory (h.base memory.frame (1 + u.baseCount)) e) :
    Stuck memory demangler depth h u :=
  fun _ _ hb _ => hb.not_fails e hslot

theorem stuck_of_base {h : HierarchyDescriptor} {u : Class} {b : BaseDescriptor}
    (hslot : Gives memory (h.base memory.frame (1 + u.baseCount)) (some b))
    (hbase : Interrupted memory demangler e depth b spine) : Stuck memory demangler depth h u := by
  intro b' c hb hc
  obtain rfl := Option.some.inj (hslot.unique hb)
  exact hc.not_fails e hbase.fails

/-- There is one way at most in which a rebuild is interrupted. -/
theorem unique (h : Interrupted memory demangler e depth d spine)
    (h' : Interrupted memory demangler e' depth d spine') : spine = spine' := by
  induction h generalizing spine' with
  | type htype =>
      cases h' with
      | type => rfl
      | hierarchy hname => exact absurd htype (hname.not_fails _)
      | slot hwalking =>
          obtain ⟨name, hname⟩ := hwalking.isNamed
          exact absurd htype (hname.not_fails _)
      | base hwalking =>
          obtain ⟨name, hname⟩ := hwalking.isNamed
          exact absurd htype (hname.not_fails _)
  | hierarchy hname _ hhierarchy =>
      cases h' with
      | type htype => exact absurd htype (hname.not_fails _)
      | hierarchy hname' => rw [hname.unique hname']
      | slot hwalking => exact absurd hhierarchy (hwalking.gives_hierarchy.not_fails _)
      | base hwalking => exact absurd hhierarchy (hwalking.gives_hierarchy.not_fails _)
  | slot hwalking hslot =>
      cases h' with
      | type htype =>
          obtain ⟨name, hname⟩ := hwalking.isNamed
          exact absurd htype (hname.not_fails _)
      | hierarchy _ _ hhierarchy =>
          exact absurd hhierarchy (hwalking.gives_hierarchy.not_fails _)
      | slot hwalking' hslot' =>
          rw [(hwalking.unique (stuck_of_fails hslot) hwalking' (stuck_of_fails hslot')).2]
      | base hwalking' hslot' hbase' =>
          obtain ⟨rfl, rfl⟩ :=
            hwalking.unique (stuck_of_fails hslot) hwalking' (stuck_of_base hslot' hbase')
          exact absurd hslot (hslot'.not_fails _)
  | base hwalking hslot hbase ih =>
      cases h' with
      | type htype =>
          obtain ⟨name, hname⟩ := hwalking.isNamed
          exact absurd htype (hname.not_fails _)
      | hierarchy _ _ hhierarchy =>
          exact absurd hhierarchy (hwalking.gives_hierarchy.not_fails _)
      | slot hwalking' hslot' =>
          obtain ⟨rfl, rfl⟩ :=
            hwalking.unique (stuck_of_base hslot hbase) hwalking' (stuck_of_fails hslot')
          exact absurd hslot' (hslot.not_fails _)
      | base hwalking' hslot' hbase' =>
          obtain ⟨rfl, rfl⟩ :=
            hwalking.unique (stuck_of_base hslot hbase) hwalking' (stuck_of_base hslot' hbase')
          obtain rfl := Option.some.inj (hslot.unique hslot')
          rw [ih hbase']

end Interrupted

end RttiProbe.Hierarchy
