import RttiProbe.Image.Section
import RttiProbe.Proofs.Hierarchy.TypeTree
import RttiProbe.Proofs.Hierarchy.Walk
/-!
# Trees in memory

How a memory holds a tree of type names.  A descriptor encodes a tree if its type has the name at
the root, if it announces all other classes of the tree, and if the array of its hierarchy lists the
tree in pre-order, each slot holding a descriptor that encodes the tree in it.  That descriptor has
an array of its own, whose slots may hold other records than those of the enclosing array.
-/

set_option autoImplicit false

namespace RttiProbe.Hierarchy

open Record Decode

/-- The descriptor `d` encodes the tree `t` in a memory. -/
def Encodes (memory : Memory) (demangler : Demangler) (d : BaseDescriptor) (t : TypeTree) : Prop :=
  HasTypeName memory demangler d t.name ∧ d.subElementCount.toNat = t.size - 1
    ∧ (1 < t.size → ∃ h, Gives memory (d.hierarchy memory.frame) (some h)
      ∧ h.baseCount.toNat = t.size
      ∧ ∀ i u, 1 ≤ i → t.subtrees[i]? = some u →
        ∃ e, Gives memory (h.base memory.frame i) (some e) ∧ Encodes memory demangler e u)
termination_by t.size
decreasing_by
  have := TypeTree.add_size_le ‹t.subtrees[i]? = some u›
  omega

variable {memory : Memory} {demangler : Demangler}

/-- The array of `h` lists the tree `t`: it has one slot for each class of the tree, and from the
second slot on each holds a descriptor that encodes the tree in it. -/
def ListsTree (memory : Memory) (demangler : Demangler) (h : HierarchyDescriptor) (t : TypeTree) :
    Prop :=
  h.baseCount.toNat = t.size ∧ ∀ i u, 1 ≤ i → t.subtrees[i]? = some u →
    ∃ e, Gives memory (h.base memory.frame i) (some e) ∧ Encodes memory demangler e u

theorem encodes_iff {d : BaseDescriptor} {t : TypeTree} :
    Encodes memory demangler d t ↔
      HasTypeName memory demangler d t.name ∧ d.subElementCount.toNat = t.size - 1
        ∧ (1 < t.size → ∃ h, Gives memory (d.hierarchy memory.frame) (some h)
          ∧ ListsTree memory demangler h t) := by
  rw [Encodes]
  rfl

/-- A descriptor that announces no bases encodes a single class. -/
theorem encodes_single {d : BaseDescriptor} {name : Text}
    (hname : HasTypeName memory demangler d name) (hsub : d.subElementCount = 0) :
    Encodes memory demangler d ⟨name, []⟩ := by
  have hsize : TypeTree.size ⟨name, []⟩ = 1 := by
    rw [TypeTree.size, TypeTree.totalSize]
  refine encodes_iff.2 ⟨hname, ?_, fun h => ?_⟩
  · rw [hsub, hsize]
    rfl
  · omega

namespace Encodes

variable {d : BaseDescriptor} {t : TypeTree}

theorem hasTypeName (h : Encodes memory demangler d t) : HasTypeName memory demangler d t.name := by
  exact (encodes_iff.1 h).1

theorem subElementCount_eq (h : Encodes memory demangler d t) :
    d.subElementCount.toNat = t.size - 1 := by
  exact (encodes_iff.1 h).2.1

/-- A tree of one class announces no bases. -/
theorem subElementCount_eq_zero_iff (h : Encodes memory demangler d t) :
    d.subElementCount = 0 ↔ t.bases = [] := by
  have hcount := h.subElementCount_eq
  have hsize := t.size_eq
  rw [← UInt32.toNat_inj, hcount, UInt32.toNat_zero]
  cases hbases : t.bases with
  | nil => simp [hsize, hbases, TypeTree.totalSize]
  | cons u rest =>
      have := u.size_pos
      rw [hbases, TypeTree.totalSize] at hsize
      simp only [reduceCtorEq, iff_false]
      omega

/-- A class with bases has an array that lists its tree. -/
theorem listsTree (h : Encodes memory demangler d t) (hbases : t.bases ≠ []) :
    ∃ a, Gives memory (d.hierarchy memory.frame) (some a) ∧ ListsTree memory demangler a t := by
  have hsub := mt h.subElementCount_eq_zero_iff.1 hbases
  have hcount := h.subElementCount_eq
  rw [← UInt32.toNat_inj, UInt32.toNat_zero] at hsub
  exact (encodes_iff.1 h).2.2 (by omega)

/-- The walk along the array of an encoding ends with the last slot of the array. -/
theorem lastSlot_eq (h : Encodes memory demangler d t) {a : HierarchyDescriptor}
    (ha : ListsTree memory demangler a t) : lastSlot d a = t.size - 1 := by
  rw [lastSlot, h.subElementCount_eq, ha.1, Nat.min_self]

end Encodes

/-! ## An example

A 32-bit image with the records of a class `A` whose direct bases are `B` and `D`, where `B` derives
from `C`.  The arrays of `A` and `B` refer to different descriptors of `C`. -/

/-- The little-endian bytes of 32-bit words. -/
def wordBytes (words : List Nat) : Array UInt8 := (words.flatMap (Memory.Word.toBytes 4)).toArray

def sampleImage : Image where
  base := .null
  width := .bits32
  sections := [
    ⟨⟨0x1000⟩, wordBytes [0, 0, 0x41]⟩,
    ⟨⟨0x1010⟩, wordBytes [0, 0, 0x42]⟩,
    ⟨⟨0x1020⟩, wordBytes [0, 0, 0x43]⟩,
    ⟨⟨0x1030⟩, wordBytes [0, 0, 0x44]⟩,
    ⟨⟨0x1100⟩, wordBytes [0, 0, 4, 0x1200]⟩,
    ⟨⟨0x1110⟩, wordBytes [0, 0, 2, 0x1210]⟩,
    ⟨⟨0x1200⟩, wordBytes [0x1300, 0x1320, 0x1340, 0x1360]⟩,
    ⟨⟨0x1210⟩, wordBytes [0x1320, 0x1380]⟩,
    ⟨⟨0x1300⟩, wordBytes [0x1000, 3, 0, 0xFFFFFFFF, 0, 0x40, 0x1100]⟩,
    ⟨⟨0x1320⟩, wordBytes [0x1010, 1, 0, 0xFFFFFFFF, 0, 0x40, 0x1110]⟩,
    ⟨⟨0x1340⟩, wordBytes [0x1020, 0, 0, 0xFFFFFFFF, 0, 0x40, 0]⟩,
    ⟨⟨0x1360⟩, wordBytes [0x1030, 0, 8, 0xFFFFFFFF, 0, 0x40, 0]⟩,
    ⟨⟨0x1380⟩, wordBytes [0x1020, 0, 0, 0xFFFFFFFF, 0, 0x40, 0]⟩]

/-- The descriptor at an address of the image. -/
def sampleRecord (location : UInt64) (type count : UInt32) (shift : Int32) (hierarchy : UInt32) :
    BaseDescriptor :=
  ⟨⟨location⟩, ⟨type⟩, count, shift, -1, 0, 0x40, ⟨hierarchy⟩⟩

/-- Shows a decorated name as it is. -/
def plainDemangler : Demangler := fun name _ => some (Text.Utf8.decodeLossy name)

def sampleTree : TypeTree := ⟨['A'], [⟨['B'], [⟨['C'], []⟩]⟩, ⟨['D'], []⟩]⟩

def sampleRoot : BaseDescriptor := sampleRecord 0x1300 0x1000 3 0 0x1100

theorem sample_encodes : Encodes sampleImage.memory plainDemangler sampleRoot sampleTree := by
  have hc : Encodes sampleImage.memory plainDemangler (sampleRecord 0x1340 0x1020 0 0 0)
      ⟨['C'], []⟩ :=
    encodes_single ⟨⟨⟨0x1020⟩, ⟨0⟩, ⟨0⟩, [0x43]⟩, by decide +kernel⟩ rfl
  have hc' : Encodes sampleImage.memory plainDemangler (sampleRecord 0x1380 0x1020 0 0 0)
      ⟨['C'], []⟩ :=
    encodes_single ⟨⟨⟨0x1020⟩, ⟨0⟩, ⟨0⟩, [0x43]⟩, by decide +kernel⟩ rfl
  have hd : Encodes sampleImage.memory plainDemangler (sampleRecord 0x1360 0x1030 0 8 0)
      ⟨['D'], []⟩ :=
    encodes_single ⟨⟨⟨0x1030⟩, ⟨0⟩, ⟨0⟩, [0x44]⟩, by decide +kernel⟩ rfl
  have hb : Encodes sampleImage.memory plainDemangler (sampleRecord 0x1320 0x1010 1 0 0x1110)
      ⟨['B'], [⟨['C'], []⟩]⟩ := by
    refine encodes_iff.2 ⟨⟨⟨⟨0x1010⟩, ⟨0⟩, ⟨0⟩, [0x42]⟩, by decide +kernel⟩, rfl, fun _ => ?_⟩
    refine ⟨⟨⟨0x1110⟩, 0, 0, 2, ⟨0x1210⟩⟩, by decide +kernel, rfl, ?_⟩
    intro i u hi hu
    match i, hi with
    | 1, _ =>
        obtain rfl := Option.some.inj hu
        exact ⟨_, by decide +kernel, hc'⟩
    | i + 2, _ => cases hu
  refine encodes_iff.2 ⟨⟨⟨⟨0x1000⟩, ⟨0⟩, ⟨0⟩, [0x41]⟩, by decide +kernel⟩, rfl, fun _ => ?_⟩
  refine ⟨⟨⟨0x1100⟩, 0, 0, 4, ⟨0x1200⟩⟩, by decide +kernel, rfl, ?_⟩
  intro i u hi hu
  match i, hi with
  | 1, _ =>
      obtain rfl := Option.some.inj hu
      exact ⟨_, by decide +kernel, hb⟩
  | 2, _ =>
      obtain rfl := Option.some.inj hu
      exact ⟨_, by decide +kernel, hc⟩
  | 3, _ =>
      obtain rfl := Option.some.inj hu
      exact ⟨_, by decide +kernel, hd⟩
  | i + 4, _ => cases hu

end RttiProbe.Hierarchy
