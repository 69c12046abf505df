import Mathlib.Algebra.GroupWithZero.Nat
import RttiProbe.Proofs.Hierarchy.Encoding
/-!
# The slots of bases

Which slot each base of a rebuilt class comes from, whatever the memory holds.  The walk along an
array passes over one slot for each class that it has found so far, so the slot of a base is told by
the bases before it alone.  Counts that contradict one another and records that refer to themselves
only decide where the walk ends.
-/

set_option autoImplicit false

namespace RttiProbe

namespace Class

/-- The class stands in the tree of `root`, this many levels of bases below it. -/
inductive IsBelow (root : Class) : (levels : Nat) → Class → Prop where
  | self : IsBelow root 0 root
  | base {levels : Nat} {c b : Class} (h : IsBelow root levels c) (hbase : b ∈ c.bases) :
      IsBelow root (levels + 1) b

end Class

namespace Hierarchy

open Record Decode

variable {memory : Memory} {demangler : Demangler}

/-! ## Slots -/

/-- The slot of one of some bases, the first of which is in slot `start`: the bases before it have
taken a slot each, and as many more as they have bases themselves. -/
def slotFrom (start : Nat) (bases : List Class) (index : Nat) : Nat :=
  start + ((bases.take index).map fun b => 1 + b.baseCount).sum

@[simp] theorem slotFrom_zero (start : Nat) (bases : List Class) : slotFrom start bases 0 = start :=
  rfl

@[simp] theorem slotFrom_cons_succ (start : Nat) (c : Class) (rest : List Class) (index : Nat) :
    slotFrom start (c :: rest) (index + 1) = slotFrom (start + 1 + c.baseCount) rest index := by
  simp only [slotFrom, List.take_succ_cons, List.map_cons, List.sum_cons]
  omega

theorem le_slotFrom (start : Nat) (bases : List Class) (index : Nat) :
    start ≤ slotFrom start bases index := Nat.le_add_right _ _

theorem slotFrom_lt_slotFrom {start : Nat} {bases : List Class} {i j : Nat} (hij : i < j)
    (hi : i < bases.length) : slotFrom start bases i < slotFrom start bases j := by
  induction bases generalizing start i j with
  | nil => cases hi
  | cons c rest ih =>
      obtain ⟨j, rfl⟩ : ∃ k, j = k + 1 := ⟨j - 1, by omega⟩
      cases i with
      | zero =>
          have := le_slotFrom (start + 1 + c.baseCount) rest j
          rw [slotFrom_zero, slotFrom_cons_succ]
          omega
      | succ i =>
          rw [slotFrom_cons_succ, slotFrom_cons_succ]
          exact ih (by omega) (Nat.lt_of_succ_lt_succ hi)

/-! ## Walks -/

/-- The bases are those that an array holds in their slots, from slot `start` to slot `last`, and
there are no more of them. -/
structure TakenFrom (memory : Memory) (h : HierarchyDescriptor) (last start : Nat)
    (bases : List Class) : Prop where
  /-- each base was rebuilt from the record in its slot -/
  filled : ∀ (i : Nat) (b : Class), bases[i]? = some b →
    ∃ d, b.descriptor = some d
      ∧ Gives memory (h.base memory.frame (slotFrom start bases i)) (some d)
  /-- no base is taken from beyond the last slot -/
  within : ∀ i < bases.length, slotFrom start bases i ≤ last
  /-- there is no next base because its slot is beyond the last one or cannot be read -/
  ended : last < slotFrom start bases bases.length
    ∨ Gives memory (h.base memory.frame (slotFrom start bases bases.length)) none

section Walks

variable {Rebuilds : BaseDescriptor → Class → Prop} {h : HierarchyDescriptor} {last cursor : Nat}
  {cs : List Class}

/-- A walk takes its bases from their slots. -/
theorem Walks.takenFrom (hcarries : ∀ d c, Rebuilds d c → c.descriptor = some d)
    (hwalk : Walks memory Rebuilds h last cursor cs) : TakenFrom memory h last cursor cs := by
  induction hwalk with
  | ended hlast => exact ⟨nofun, nofun, .inl hlast⟩
  | missing _ hslot => exact ⟨nofun, nofun, .inr hslot⟩
  | @base cursor d c rest hlast hslot hbase _ ih =>
      refine ⟨fun i b hb => ?_, fun i hi => ?_, ?_⟩
      · cases i with
        | zero =>
            obtain rfl := Option.some.inj hb
            exact ⟨d, hcarries d c hbase, hslot⟩
        | succ i =>
            rw [slotFrom_cons_succ]
            exact ih.filled i b hb
      · cases i with
        | zero => exact hlast
        | succ i =>
            rw [slotFrom_cons_succ]
            exact ih.within i (Nat.lt_of_succ_lt_succ hi)
      · rw [List.length_cons, slotFrom_cons_succ]
        exact ih.ended

theorem Walks.exists_of_mem (hwalk : Walks memory Rebuilds h last cursor cs) {c : Class}
    (hc : c ∈ cs) : ∃ d, Rebuilds d c := by
  induction hwalk with
  | ended => cases hc
  | missing => cases hc
  | base _ _ hbase _ ih =>
      rcases List.mem_cons.1 hc with rfl | hc
      · exact ⟨_, hbase⟩
      · exact ih hc

end Walks

/-! ## The classes of a rebuild -/

theorem descriptor_of_gives_build {depth : Nat} {d : BaseDescriptor} {c : Class}
    (hc : Gives memory (build memory.frame demangler depth d) c) : c.descriptor = some d := by
  obtain ⟨name, bases, -, -, rfl⟩ := gives_build_iff.1 hc
  rfl

/-- Each class of a rebuild is rebuilt itself, with as many levels less to follow bases through as
it stands below the root. -/
theorem exists_gives_build_of_isBelow {depth : Nat} {d : BaseDescriptor} {root : Class}
    (hroot : Gives memory (build memory.frame demangler depth d) root) {levels : Nat} {c : Class}
    (hc : root.IsBelow levels c) :
    ∃ rest e, levels + rest = depth ∧ Gives memory (build memory.frame demangler rest e) c := by
  induction hc with
  | self => exact ⟨depth, d, Nat.zero_add depth, hroot⟩
  | @base levels c b _ hbase ih =>
      obtain ⟨rest, e, hrest, hc⟩ := ih
      obtain ⟨name, bases, -, hbases, rfl⟩ := gives_build_iff.1 hc
      cases hbases with
      | unannounced => cases hbase
      | tooDeep => cases hbase
      | noHierarchy => cases hbase
      | @walked rest _ h _ _ _ hwalk =>
          obtain ⟨f, hf⟩ := hwalk.exists_of_mem hbase
          exact ⟨rest, f, by omega, hf⟩

theorem exists_gives_ofBase_of_ofLocator {l : Locator} {c : Class}
    (hc : Gives memory (ofLocator memory.frame demangler l) (some c)) :
    ∃ d, Gives memory (ofBase memory.frame demangler d) c := by
  unfold ofLocator at hc
  simp only [bind_eq, pure_eq, gives_bind] at hc
  obtain ⟨hierarchy, -, hc⟩ := hc
  cases hierarchy with
  | none => cases gives_done.1 hc
  | some h =>
      obtain ⟨slot, -, hc⟩ := gives_bind.1 hc
      cases slot with
      | none => cases gives_done.1 hc
      | some d =>
          obtain ⟨root, hroot, hc⟩ := gives_bind.1 hc
          obtain rfl := Option.some.inj (gives_done.1 hc)
          exact ⟨d, hroot⟩

/-- The bases of a class are those in their slots, up to the last slot that may hold one. -/
theorem takenFrom_of_gives_build {depth : Nat} {d : BaseDescriptor} {c : Class}
    (hc : Gives memory (build memory.frame demangler depth d) c) :
    (d.subElementCount = 0 ∨ depth = 0 ∨ Gives memory (d.hierarchy memory.frame) none)
        ∧ c.bases = []
      ∨ d.subElementCount ≠ 0 ∧ depth ≠ 0
        ∧ ∃ h, Gives memory (d.hierarchy memory.frame) (some h)
          ∧ TakenFrom memory h (lastSlot d h) 1 c.bases := by
  obtain ⟨name, bases, -, hbases, rfl⟩ := gives_build_iff.1 hc
  cases hbases with
  | unannounced hsub => exact .inl ⟨.inl hsub, rfl⟩
  | tooDeep => exact .inl ⟨.inr (.inl rfl), rfl⟩
  | noHierarchy _ hhierarchy => exact .inl ⟨.inr (.inr hhierarchy), rfl⟩
  | walked hsub hhierarchy hwalk =>
      exact .inr ⟨hsub, Nat.succ_ne_zero _, _, hhierarchy,
        hwalk.takenFrom fun _ _ => descriptor_of_gives_build⟩

/-- Whatever a memory holds, a class of a rebuild has no bases if its record announces none, if it
stands 64 levels below the root, or if its hierarchy descriptor is missing.  Any other class has the
bases that its array holds in their slots, up to the last slot that both counts allow.  The slots
lie further and further on, after that of the class itself and within the array. -/
theorem bases_taken_from_slots (memory : Memory) (demangler : Demangler) (root : Class)
    (hroot : (∃ d, Gives memory (ofBase memory.frame demangler d) root)
      ∨ ∃ l, Gives memory (ofLocator memory.frame demangler l) (some root))
    (levels : Nat) (c : Class) (hc : root.IsBelow levels c) :
    levels ≤ 64 ∧ ∃ d, c.descriptor = some d
      ∧ (d.subElementCount = 0 ∨ levels = 64 ∨ Gives memory (d.hierarchy memory.frame) none →
          c.bases = [])
      ∧ (d.subElementCount ≠ 0 → levels ≠ 64 → ¬ Gives memory (d.hierarchy memory.frame) none →
          ∃ h, Gives memory (d.hierarchy memory.frame) (some h)
            ∧ TakenFrom memory h (min d.subElementCount.toNat (max h.baseCount.toNat 1 - 1)) 1
              c.bases
            ∧ (∀ i j, i < j → j < c.bases.length →
                slotFrom 1 c.bases i < slotFrom 1 c.bases j)
            ∧ ∀ i < c.bases.length,
                0 < slotFrom 1 c.bases i ∧ slotFrom 1 c.bases i < h.baseCount.toNat) := by
  obtain ⟨d, hd⟩ : ∃ d, Gives memory (ofBase memory.frame demangler d) root :=
    hroot.elim id fun ⟨_, hl⟩ => exists_gives_ofBase_of_ofLocator hl
  obtain ⟨rest, e, hrest, hbuild⟩ := exists_gives_build_of_isBelow (gives_ofBase_iff.1 hd) hc
  rw [maxDepth] at hrest
  have hdepth : rest = 0 ↔ levels = 64 := by omega
  refine ⟨by omega, e, descriptor_of_gives_build hbuild, ?_⟩
  rcases takenFrom_of_gives_build hbuild with ⟨hnone, hbases⟩ | ⟨hsub, hlevel, h, hh, htaken⟩
  · refine ⟨fun _ => hbases, fun hsub hlevel hhierarchy => ?_⟩
    rcases hnone with hnone | hnone | hnone
    · exact absurd hnone hsub
    · exact absurd (hdepth.1 hnone) hlevel
    · exact absurd hnone hhierarchy
  · refine ⟨?_, fun _ _ _ => ⟨h, hh, ?_, ?_, fun i hi => ?_⟩⟩
    · rintro (hnone | hnone | hnone)
      · exact absurd hnone hsub
      · exact absurd (hdepth.2 hnone) hlevel
      · cases hnone.unique hh
    · have hlast : lastSlot e h = min e.subElementCount.toNat (max h.baseCount.toNat 1 - 1) := by
        rw [lastSlot]
        omega
      exact hlast ▸ htaken
    · exact fun i j hij hj => slotFrom_lt_slotFrom hij (Nat.lt_trans hij hj)
    · have hstart := le_slotFrom 1 c.bases i
      have hlast := htaken.within i hi
      rw [lastSlot] at hlast
      omega

/-- The class `A` with its direct bases, rebuilt: `B`, which derives from `C`, and `D`. -/
def sampleClass : Class :=
  classOf ['A'] sampleRoot
    [classOf ['B'] (sampleRecord 0x1320 0x1010 1 0 0x1110)
        [classOf ['C'] (sampleRecord 0x1380 0x1020 0 0 0) []],
      classOf ['D'] (sampleRecord 0x1360 0x1030 0 8 0) []]

theorem sample_gives_class :
    Gives sampleImage.memory (ofBase sampleImage.memory.frame plainDemangler sampleRoot)
      sampleClass := by
  have hc : Gives sampleImage.memory
      (build sampleImage.memory.frame plainDemangler 62 (sampleRecord 0x1380 0x1020 0 0 0))
      (classOf ['C'] (sampleRecord 0x1380 0x1020 0 0 0) []) :=
    gives_build_iff.2 ⟨['C'], [], ⟨some ⟨⟨0x1020⟩, ⟨0⟩, ⟨0⟩, [0x43]⟩, by decide +kernel⟩,
      .unannounced rfl, rfl⟩
  have hd : Gives sampleImage.memory
      (build sampleImage.memory.frame plainDemangler 63 (sampleRecord 0x1360 0x1030 0 8 0))
      (classOf ['D'] (sampleRecord 0x1360 0x1030 0 8 0) []) :=
    gives_build_iff.2 ⟨['D'], [], ⟨some ⟨⟨0x1030⟩, ⟨0⟩, ⟨0⟩, [0x44]⟩, by decide +kernel⟩,
      .unannounced rfl, rfl⟩
  have hb : Gives sampleImage.memory
      (build sampleImage.memory.frame plainDemangler 63 (sampleRecord 0x1320 0x1010 1 0 0x1110))
      (classOf ['B'] (sampleRecord 0x1320 0x1010 1 0 0x1110)
        [classOf ['C'] (sampleRecord 0x1380 0x1020 0 0 0) []]) := by
    refine gives_build_iff.2
      ⟨['B'], _, ⟨some ⟨⟨0x1010⟩, ⟨0⟩, ⟨0⟩, [0x42]⟩, by decide +kernel⟩, ?_, rfl⟩
    refine .walked (h := ⟨⟨0x1110⟩, 0, 0, 2, ⟨0x1210⟩⟩) (by decide) (by decide +kernel) ?_
    exact .base (by decide) (by decide +kernel) hc (.ended (by decide))
  refine gives_ofBase_iff.2 (gives_build_iff.2
    ⟨['A'], _, ⟨some ⟨⟨0x1000⟩, ⟨0⟩, ⟨0⟩, [0x41]⟩, by decide +kernel⟩, ?_, rfl⟩)
  refine .walked (h := ⟨⟨0x1100⟩, 0, 0, 4, ⟨0x1200⟩⟩) (by decide) (by decide +kernel) ?_
  refine .base (by decide) (by decide +kernel) hb ?_
  exact .base (by decide) (by decide +kernel) hd (.ended (by decide))

/-- The second base of `A` is in slot 3, after the slot of the first and that of its base. -/
theorem bases_taken_from_slots_sample :
    Gives sampleImage.memory (ofBase sampleImage.memory.frame plainDemangler sampleRoot) sampleClass
      ∧ sampleRoot.subElementCount ≠ 0
      ∧ (List.range 3).map (slotFrom 1 sampleClass.bases) = [1, 3, 4]
      ∧ ∃ h, Gives sampleImage.memory (sampleRoot.hierarchy sampleImage.memory.frame) (some h)
        ∧ TakenFrom sampleImage.memory h 3 1 sampleClass.bases := by
  have hh : Gives sampleImage.memory (sampleRoot.hierarchy sampleImage.memory.frame)
      (some ⟨⟨0x1100⟩, 0, 0, 4, ⟨0x1200⟩⟩) := by decide +kernel
  have hnone : ¬ Gives sampleImage.memory (sampleRoot.hierarchy sampleImage.memory.frame) none :=
    fun hnone => nomatch hnone.unique hh
  obtain ⟨-, d, hd, -, htaken⟩ := bases_taken_from_slots sampleImage.memory plainDemangler
    sampleClass (.inl ⟨sampleRoot, sample_gives_class⟩) 0 sampleClass .self
  obtain rfl : sampleRoot = d := Option.some.inj hd
  obtain ⟨h, hgives, hbases, -⟩ := htaken (by decide) (by decide) hnone
  obtain rfl := Option.some.inj (hh.unique hgives)
  exact ⟨sample_gives_class, by decide, by decide, _, hh, hbases⟩

end Hierarchy

end RttiProbe
