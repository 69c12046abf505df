import RttiProbe.Hierarchy
import RttiProbe.Proofs.Decode.Results
/-!
# What a rebuild does

The rebuild of a hierarchy seen as relations: `Walks` for the walk along one array, with one rule
for each way in which it goes on or ends, and `Follows` for the bases of one class, with one rule
for each way in which they are found or given up.  `gives_walk_iff` and `gives_build_iff` say that
these rules are all that a rebuild does, so facts about rebuilt classes are proved by induction on
the rules and on the depth, and never by unfolding the decoder.
-/

set_option autoImplicit false

namespace RttiProbe

/-! ## Records -/

namespace Record

open Decode

variable {memory : Memory}

theorem gives_readFields_some {α : Type} {a : Memory.Address} {fields : Nat} {build : Bytes → α}
    {x : α} :
    Gives memory (readFields a fields build) (some x) ↔
      ∃ bs, memory.Answers a (4 * fields) (some bs) ∧ x = build bs := by
  rw [readFields, gives_read]
  simp only [gives_done]
  constructor
  · rintro ⟨answer, hanswer, hx⟩
    cases answer with
    | none => cases hx
    | some bs => exact ⟨bs, hanswer, Option.some.inj hx⟩
  · rintro ⟨bs, hbs, rfl⟩
    exact ⟨some bs, hbs, rfl⟩

theorem gives_follow_some {α : Type} {frame : Frame} {offset : Memory.Offset}
    {read : Memory.Address → Decode (Option α)} {x : α} :
    Gives memory (follow frame offset read) (some x) ↔
      ∃ a, frame.resolve offset = some a ∧ Gives memory (read a) (some x) := by
  rw [follow]
  cases frame.resolve offset with
  | none => simp [gives_done]
  | some a => simp

end Record

namespace Hierarchy

open Record Decode

/-! ## Names -/

/-- The type descriptor of a record is read and has this name. -/
def HasTypeName (memory : Memory) (demangler : Demangler) (d : BaseDescriptor) (name : Text) :
    Prop :=
  ∃ type, Gives memory (d.type memory.frame) (some type)
    ∧ Gives memory (type.name demangler false true .standard) name

/-- The name under which the class of a record is rebuilt: that of its type, if there is one. -/
def IsNamed (memory : Memory) (demangler : Demangler) (d : BaseDescriptor) (name : Text) : Prop :=
  ∃ type, Gives memory (d.type memory.frame) type ∧ Gives memory (nameOf demangler type) name

theorem HasTypeName.isNamed {memory : Memory} {demangler : Demangler} {d : BaseDescriptor}
    {name : Text} (h : HasTypeName memory demangler d name) : IsNamed memory demangler d name := by
  obtain ⟨type, htype, hname⟩ := h
  exact ⟨some type, htype, hname⟩

theorem parse_bases (s : Text) : (Class.parse s).bases = [] := by
  rw [Class.parse.eq_def]
  split
  · rfl
  · split <;> rfl

/-- The class of a record, with the given bases. -/
def classOf (name : Text) (d : BaseDescriptor) (bases : List Class) : Class :=
  { Class.parse name with descriptor := some d, bases }

theorem classOf_nil (name : Text) (d : BaseDescriptor) :
    { Class.parse name with descriptor := some d } = classOf name d [] := by
  rw [classOf, ← parse_bases name]

/-! ## Walks -/

variable {memory : Memory}

/-- What a walk along an array finds from a slot on, when `Rebuilds` tells how the class of a record
is rebuilt. -/
inductive Walks (memory : Memory) (Rebuilds : BaseDescriptor → Class → Prop)
    (h : HierarchyDescriptor) (last : Nat) : (cursor : Nat) → List Class → Prop
  /-- the walk is past the last slot -/
  | ended {cursor : Nat} (hlast : last < cursor) : Walks memory Rebuilds h last cursor []
  /-- the slot cannot be read -/
  | missing {cursor : Nat} (hlast : cursor ≤ last)
      (hslot : Gives memory (h.base memory.frame cursor) none) :
      Walks memory Rebuilds h last cursor []
  /-- the class in the slot is rebuilt, and as many slots are passed over as it has bases -/
  | base {cursor : Nat} {d : BaseDescriptor} {c : Class} {rest : List Class}
      (hlast : cursor ≤ last) (hslot : Gives memory (h.base memory.frame cursor) (some d))
      (hbase : Rebuilds d c)
      (hrest : Walks memory Rebuilds h last (cursor + 1 + c.baseCount) rest) :
      Walks memory Rebuilds h last cursor (c :: rest)

/-- A walk gives the bases it had before, and after them those that the rules find. -/
theorem gives_walk_iff {rebuild : BaseDescriptor → Decode Class} {h : HierarchyDescriptor}
    {name : Text} {last cursor : Nat} {before bases : List Class} :
    Gives memory (walk memory.frame rebuild h name last cursor before) bases ↔
      ∃ rest, bases = before.reverse ++ rest
        ∧ Walks memory (fun d c => Gives memory (rebuild d) c) h last cursor rest := by
  induction cursor, before using walk.induct last generalizing bases with
  | case1 cursor before hlast ih =>
      rw [walk, dif_pos hlast]
      simp only [bind_eq, gives_bind]
      constructor
      · rintro ⟨slot, hslot, hbases⟩
        cases slot with
        | none =>
            obtain rfl := gives_done.1 (gives_note.1 hbases)
            exact ⟨[], (List.append_nil _).symm, .missing hlast hslot⟩
        | some d =>
            obtain ⟨c, hc, hbases⟩ := gives_bind.1 hbases
            obtain ⟨rest, rfl, hrest⟩ := (ih c).1 hbases
            exact ⟨c :: rest, by simp, .base hlast hslot hc hrest⟩
      · rintro ⟨rest, rfl, hwalk⟩
        cases hwalk with
        | ended hpast => omega
        | missing _ hslot =>
            refine ⟨none, hslot, ?_⟩
            rw [List.append_nil]
            exact gives_note.2 (gives_done.2 rfl)
        | @base _ d c rest _ hslot hc hrest =>
            refine ⟨some d, hslot, gives_bind.2 ⟨c, hc, (ih c).2 ⟨rest, by simp, hrest⟩⟩⟩
  | case2 cursor before hlast =>
      rw [walk, dif_neg hlast]
      constructor
      · intro hbases
        obtain rfl := gives_done.1 hbases
        exact ⟨[], (List.append_nil _).symm, .ended (by omega)⟩
      · rintro ⟨rest, rfl, hwalk⟩
        cases hwalk with
        | ended => exact gives_done.2 (List.append_nil _)
        | missing hle => exact absurd hle hlast
        | base hle => exact absurd hle hlast

/-! ## Bases -/

/-- What the bases of the class of a record are, when bases are followed through at most `depth`
levels. -/
inductive Follows (memory : Memory) (demangler : Demangler) :
    (depth : Nat) → BaseDescriptor → List Class → Prop
  /-- the record announces none -/
  | unannounced {depth : Nat} {d : BaseDescriptor} (hsub : d.subElementCount = 0) :
      Follows memory demangler depth d []
  /-- the class lies too deep -/
  | tooDeep {d : BaseDescriptor} (hsub : d.subElementCount ≠ 0) : Follows memory demangler 0 d []
  /-- the hierarchy descriptor of the class cannot be read -/
  | noHierarchy {depth : Nat} {d : BaseDescriptor} (hsub : d.subElementCount ≠ 0)
      (hhierarchy : Gives memory (d.hierarchy memory.frame) none) :
      Follows memory demangler (depth + 1) d []
  /-- the array of the class is walked along -/
  | walked {depth : Nat} {d : BaseDescriptor} {h : HierarchyDescriptor} {bases : List Class}
      (hsub : d.subElementCount ≠ 0)
      (hhierarchy : Gives memory (d.hierarchy memory.frame) (some h))
      (hwalk : Walks memory (fun e c => Gives memory (build memory.frame demangler depth e) c)
        h (lastSlot d h) 1 bases) :
      Follows memory demangler (depth + 1) d bases

/-- A rebuild gives the class of a record with the bases that the rules find. -/
theorem gives_build_iff {demangler : Demangler} {depth : Nat} {d : BaseDescriptor} {c : Class} :
    Gives memory (build memory.frame demangler depth d) c ↔
      ∃ name bases, IsNamed memory demangler d name ∧ Follows memory demangler depth d bases
        ∧ c = classOf name d bases := by
  rw [build.eq_def]
  simp only [bind_eq, pure_eq, gives_bind]
  constructor
  · rintro ⟨type, htype, name, hname, hc⟩
    have hleaf := classOf_nil name d
    refine ⟨name, ?_⟩
    split at hc
    · rename_i hsub
      exact ⟨[], ⟨type, htype, hname⟩, .unannounced hsub, (gives_done.1 hc).trans hleaf⟩
    · rename_i hsub
      cases depth with
      | zero =>
          exact ⟨[], ⟨type, htype, hname⟩, .tooDeep hsub,
            (gives_done.1 (gives_note.1 hc)).trans hleaf⟩
      | succ depth =>
          obtain ⟨hierarchy, hhierarchy, hc⟩ := gives_bind.1 hc
          cases hierarchy with
          | none =>
              exact ⟨[], ⟨type, htype, hname⟩, .noHierarchy hsub hhierarchy,
                (gives_done.1 (gives_note.1 hc)).trans hleaf⟩
          | some h =>
              obtain ⟨bases, hbases, hc⟩ := gives_bind.1 hc
              obtain ⟨_, rfl, hwalk⟩ := gives_walk_iff.1 hbases
              exact ⟨_, ⟨type, htype, hname⟩, .walked hsub hhierarchy hwalk, gives_done.1 hc⟩
  · rintro ⟨name, bases, ⟨type, htype, hname⟩, hbases, rfl⟩
    have hleaf := classOf_nil name d
    refine ⟨type, htype, name, hname, ?_⟩
    cases hbases with
    | unannounced hsub =>
        rw [if_pos hsub]
        exact gives_done.2 hleaf.symm
    | tooDeep hsub =>
        rw [if_neg hsub]
        exact gives_note.2 (gives_done.2 hleaf.symm)
    | noHierarchy hsub hhierarchy =>
        rw [if_neg hsub]
        exact gives_bind.2 ⟨none, hhierarchy, gives_note.2 (gives_done.2 hleaf.symm)⟩
    | walked hsub hhierarchy hwalk =>
        rw [if_neg hsub]
        exact gives_bind.2 ⟨_, hhierarchy,
          gives_bind.2 ⟨bases, gives_walk_iff.2 ⟨bases, rfl, hwalk⟩, gives_done.2 rfl⟩⟩

/-- The whole rebuild follows bases through `maxDepth` levels. -/
theorem gives_ofBase_iff {demangler : Demangler} {d : BaseDescriptor} {c : Class} :
    Gives memory (ofBase memory.frame demangler d) c ↔
      Gives memory (build memory.frame demangler maxDepth d) c := by
  rw [ofBase, bind_eq, gives_bind]
  simp only [gives_note, gives_done, exists_eq_right']

end Hierarchy

end RttiProbe
