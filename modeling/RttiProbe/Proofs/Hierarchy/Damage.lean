import RttiProbe.Proofs.Hierarchy.Encoding
/-!
# Rebuilds from damaged memory

A memory that holds a tree may have lost bytes, and a tree may be higher than bases are followed.
Either way a class of the tree can be rebuilt without some of its bases.  The walk along the
enclosing array passes over as many slots as the class has bases, so after a class that has lost
some it goes on within the slots of that class, and takes what it finds there for a direct base.

`ofBase_prunes_iff` says when this happens: what is rebuilt is a pruning of the tree, with a prefix
of the direct bases at every class, each found in its own slot, exactly if no class that has lost
bases is followed by another base.
-/

set_option autoImplicit false

namespace RttiProbe

/-- Whether a read of `n` bytes at an address touches one of some places. -/
def Memory.touches (places : Nat → Bool) (a : Memory.Address) (n : Nat) : Bool :=
  (List.range n).any fun i => places (a.toNat + i)

/-- The same memory, except that the bytes at some places cannot be read any more. -/
def Memory.without (memory : Memory) (lost : Nat → Bool) : Memory :=
  { memory with
    readable := fun a => Id.run (memory.readable a) && !lost a.toNat
    read := fun a n =>
      if Memory.touches lost a n then .error (.unreadable a) else memory.read a n }

variable {memory : Memory} {lost : Nat → Bool}

/-- What can still be read is what was there before. -/
theorem Memory.Answers.of_without {a : Memory.Address} {n : Nat} {bs : Bytes}
    (h : (memory.without lost).Answers a n (some bs)) : memory.Answers a n (some bs) := by
  unfold Memory.Answers at h ⊢
  have hread : (memory.without lost).read a n =
      if Memory.touches lost a n then .error (.unreadable a) else memory.read a n := rfl
  rw [hread] at h
  by_cases hlost : Memory.touches lost a n = true
  · rw [if_pos hlost] at h
    cases h.2
  · rwa [if_neg hlost] at h

namespace Record

open Decode

theorem readFields_of_without {α : Type} {a : Memory.Address} {fields : Nat} {build : Bytes → α}
    {x : α} (h : Gives (memory.without lost) (readFields a fields build) (some x)) :
    Gives memory (readFields a fields build) (some x) := by
  obtain ⟨bs, hbs, rfl⟩ := gives_readFields_some.1 h
  exact gives_readFields_some.2 ⟨bs, hbs.of_without, rfl⟩

theorem follow_of_without {α : Type} {frame : Frame} {offset : Memory.Offset}
    {read : Memory.Address → Decode (Option α)} {x : α}
    (hread : ∀ a, Gives (memory.without lost) (read a) (some x) → Gives memory (read a) (some x))
    (h : Gives (memory.without lost) (follow frame offset read) (some x)) :
    Gives memory (follow frame offset read) (some x) := by
  obtain ⟨a, ha, hx⟩ := gives_follow_some.1 h
  exact gives_follow_some.2 ⟨a, ha, hread a hx⟩

theorem BaseDescriptor.hierarchy_of_without {frame : Frame} {d : BaseDescriptor}
    {h : HierarchyDescriptor} (hh : Gives (memory.without lost) (d.hierarchy frame) (some h)) :
    Gives memory (d.hierarchy frame) (some h) :=
  follow_of_without (fun _ => readFields_of_without) hh

theorem HierarchyDescriptor.base_of_without {frame : Frame} {h : HierarchyDescriptor} {i : Nat}
    {d : BaseDescriptor} (hd : Gives (memory.without lost) (h.base frame i) (some d)) :
    Gives memory (h.base frame i) (some d) := by
  unfold HierarchyDescriptor.base at hd ⊢
  split
  · simp_all [gives_done]
  · rename_i hcount
    rw [if_neg hcount] at hd
    cases hslot : slotAddress frame h i with
    | none => simp_all [gives_done]
    | some slot =>
        simp only [hslot, bind_eq, gives_bind] at hd ⊢
        obtain ⟨offset, hoffset, hd⟩ := hd
        cases offset with
        | none => cases gives_done.1 hd
        | some offset =>
            exact ⟨some offset, readFields_of_without hoffset,
              follow_of_without (fun _ => readFields_of_without) hd⟩

end Record

namespace Hierarchy

open Record Decode

variable {demangler : Demangler}

/-! ## Prunings -/

mutual

/-- The class is a pruning of the tree that `d` encodes: it carries `d`, and its bases are prunings
of a prefix of the direct bases, which the array that belongs to `d` lists. -/
def Prunes (memory : Memory) (d : BaseDescriptor) : TypeTree → Class → Prop
  | ⟨_, bases⟩, c =>
    c.descriptor = some d
      ∧ (c.bases = [] ∨ ∃ h, Gives memory (d.hierarchy memory.frame) (some h)
        ∧ PrunesFrom memory h 1 bases c.bases)

/-- The classes are prunings of the first of some trees, which are listed from slot `s` on. -/
def PrunesFrom (memory : Memory) (h : HierarchyDescriptor) (s : Nat) :
    List TypeTree → List Class → Prop
  | _, [] => True
  | [], _ :: _ => False
  | t :: rest, c :: others =>
    (∃ d, Gives memory (h.base memory.frame s) (some d) ∧ Prunes memory d t c)
      ∧ PrunesFrom memory h (s + t.size) rest others

end

theorem prunes_iff {d : BaseDescriptor} {t : TypeTree} {c : Class} :
    Prunes memory d t c ↔ c.descriptor = some d
      ∧ (c.bases = [] ∨ ∃ h, Gives memory (d.hierarchy memory.frame) (some h)
        ∧ PrunesFrom memory h 1 t.bases c.bases) := by
  cases t; rw [Prunes]

/-! ## Slots

Two slots may refer to one record, so a class with the record of a direct base need not have been
found in the slot of that base. -/

/-- The slots that a walk takes bases from, the first one being `s`: each base is followed by as
many slots as it has bases itself. -/
def takenSlots (s : Nat) : List Class → List Nat
  | [] => []
  | c :: rest => s :: takenSlots (s + 1 + c.baseCount) rest

mutual

/-- At every class of the tree, the bases are taken from the slots of a prefix of the direct
bases. -/
def TakesDirect : TypeTree → Class → Prop
  | ⟨_, bases⟩, c =>
    takenSlots 1 c.bases <+: TypeTree.slotsFrom 1 bases ∧ TakesDirectRow bases c.bases

/-- The same for the classes of several trees. -/
def TakesDirectRow : List TypeTree → List Class → Prop
  | _, [] => True
  | [], _ :: _ => True
  | t :: rest, c :: others => TakesDirect t c ∧ TakesDirectRow rest others

end

theorem takesDirect_iff {t : TypeTree} {c : Class} :
    TakesDirect t c ↔
      takenSlots 1 c.bases <+: TypeTree.slotsFrom 1 t.bases ∧ TakesDirectRow t.bases c.bases := by
  cases t; rw [TakesDirect]

/-! ## Gaps -/

/-- The class has as many bases as its descriptor announces. -/
def IsWhole (c : Class) : Prop :=
  ∀ d, c.descriptor = some d → c.baseCount = d.subElementCount.toNat

mutual

/-- Nowhere in the tree of a class is one that has lost bases followed by another base. -/
def Gapless : Class → Prop
  | ⟨_, _, _, bases, _, _⟩ => GaplessRow bases

/-- Among several classes, and nowhere in their trees, is one that has lost bases followed by
another. -/
def GaplessRow : List Class → Prop
  | [] => True
  | c :: rest => Gapless c ∧ (rest = [] ∨ IsWhole c) ∧ GaplessRow rest

end

theorem gapless_iff (c : Class) : Gapless c ↔ GaplessRow c.bases := by
  cases c; rw [Gapless]

/-! ## The walk -/

/-- What a damaged array still holds in a slot encodes the tree in that slot. -/
theorem ListsTree.exists_encodes {h : HierarchyDescriptor} {t : TypeTree}
    (hlists : ListsTree memory demangler h t) {s : Nat} (hs : 1 ≤ s) (hlast : s ≤ t.size - 1)
    {d : BaseDescriptor} (hslot : Gives (memory.without lost) (h.base memory.frame s) (some d)) :
    ∃ u, t.subtrees[s]? = some u ∧ Gives memory (h.base memory.frame s) (some d)
      ∧ Encodes memory demangler d u := by
  have hlength : s < t.subtrees.length := by
    have := t.size_pos
    rw [TypeTree.length_subtrees]
    omega
  have hu := List.getElem?_eq_getElem hlength
  obtain ⟨e, he, hencodes⟩ := hlists.2 s _ hs hu
  have hd := HierarchyDescriptor.base_of_without hslot
  obtain rfl := Option.some.inj (hd.unique he)
  exact ⟨_, hu, hd, hencodes⟩

/-- The rebuild of a class of a tree from damaged memory: it carries its descriptor, it has no more
bases than the tree, and it is a pruning of the tree, with each base from its own slot, exactly if
it has no gaps. -/
structure Remains (memory : Memory) (d : BaseDescriptor) (t : TypeTree) (c : Class) : Prop where
  descriptor_eq : c.descriptor = some d
  baseCount_lt : c.baseCount < t.size
  prunes_iff_gapless : Prunes memory d t c ∧ TakesDirect t c ↔ Gapless c

/-- A walk along a damaged array of a tree never finds more classes than there are slots left. -/
theorem add_totalCount_le {Rebuilds : BaseDescriptor → Class → Prop} {h : HierarchyDescriptor}
    {t : TypeTree} (hlists : ListsTree memory demangler h t)
    (hremains : ∀ e u c, Encodes memory demangler e u → Rebuilds e c → Remains memory e u c)
    {s : Nat} {cs : List Class} (hs : 1 ≤ s) (hsize : s ≤ t.size)
    (hwalk : Walks (memory.without lost) Rebuilds h (t.size - 1) s cs) :
    s + Class.totalCount cs ≤ t.size := by
  induction hwalk with
  | ended => simpa [Class.totalCount] using hsize
  | missing => simpa [Class.totalCount] using hsize
  | base hlast hslot hbase _ ih =>
      obtain ⟨u, hu, -, hencodes⟩ := hlists.exists_encodes hs hlast hslot
      have hcount := (hremains _ u _ hencodes hbase).baseCount_lt
      have hfits := TypeTree.add_size_le hu
      have := ih (by omega) (by omega)
      rw [Class.totalCount]
      omega

/-- Only a walk that goes on at the next direct base takes a prefix of the direct bases. -/
theorem eq_of_takenSlots_prefix {a b : Nat} {c : Class} {cs : List Class} {ts : List TypeTree}
    (h : takenSlots a (c :: cs) <+: TypeTree.slotsFrom b ts) : a = b := by
  cases ts with
  | nil => simp [takenSlots, TypeTree.slotsFrom] at h
  | cons t rest =>
      rw [takenSlots, TypeTree.slotsFrom, List.cons_prefix_cons] at h
      exact h.1

theorem takenSlots_cons_prefix_iff {s : Nat} {c : Class} {cs : List Class} {t : TypeTree}
    {ts : List TypeTree} :
    takenSlots s (c :: cs) <+: TypeTree.slotsFrom s (t :: ts) ↔
      takenSlots (s + 1 + c.baseCount) cs <+: TypeTree.slotsFrom (s + t.size) ts := by
  rw [takenSlots, TypeTree.slotsFrom, List.cons_prefix_cons]
  simp

theorem prunesFrom_cons_iff {h : HierarchyDescriptor} {s : Nat} {t : TypeTree}
    {ts : List TypeTree} {c : Class} {cs : List Class} {d : BaseDescriptor}
    (hslot : Gives memory (h.base memory.frame s) (some d)) :
    PrunesFrom memory h s (t :: ts) (c :: cs) ↔
      Prunes memory d t c ∧ PrunesFrom memory h (s + t.size) ts cs := by
  rw [PrunesFrom]
  constructor
  · rintro ⟨⟨e, he, hc⟩, hcs⟩
    obtain rfl := Option.some.inj (hslot.unique he)
    exact ⟨hc, hcs⟩
  · rintro ⟨hc, hcs⟩
    exact ⟨⟨d, hslot, hc⟩, hcs⟩

theorem prunesFrom_nil {h : HierarchyDescriptor} {s : Nat} {ts : List TypeTree} :
    PrunesFrom memory h s ts [] := by
  cases ts <;> rw [PrunesFrom] <;> trivial

theorem takesDirectRow_nil {ts : List TypeTree} : TakesDirectRow ts [] := by
  cases ts <;> rw [TakesDirectRow] <;> trivial

/-- A walk that starts at a direct base finds a pruning of the direct bases from there on exactly if
what it finds has no gaps. -/
theorem prunesFrom_iff_gaplessRow {Rebuilds : BaseDescriptor → Class → Prop}
    {h : HierarchyDescriptor} {t : TypeTree} (hlists : ListsTree memory demangler h t)
    (hremains : ∀ e u c, Encodes memory demangler e u → Rebuilds e c → Remains memory e u c)
    {s : Nat} {ts : List TypeTree} {cs : List Class} (hs : 1 ≤ s)
    (hdrop : t.subtrees.drop s = TypeTree.allSubtrees ts)
    (hwalk : Walks (memory.without lost) Rebuilds h (t.size - 1) s cs) :
    takenSlots s cs <+: TypeTree.slotsFrom s ts ∧ PrunesFrom memory h s ts cs
      ∧ TakesDirectRow ts cs ↔ GaplessRow cs := by
  induction hwalk generalizing ts with
  | ended => simp [takenSlots, prunesFrom_nil, takesDirectRow_nil, GaplessRow]
  | missing => simp [takenSlots, prunesFrom_nil, takesDirectRow_nil, GaplessRow]
  | @base s d c others hlast hslot hbase _ ih =>
      obtain ⟨u, hu, hslot, hencodes⟩ := hlists.exists_encodes hs hlast hslot
      have hc := hremains d u c hencodes hbase
      cases ts with
      | nil =>
          rw [TypeTree.allSubtrees, List.drop_eq_nil_iff, TypeTree.length_subtrees] at hdrop
          have := t.size_pos
          omega
      | cons v rest =>
          obtain ⟨hv, hrest⟩ := TypeTree.drop_subtrees_cons hdrop
          obtain rfl : u = v := Option.some.inj (hu.symm.trans hv)
          rw [takenSlots_cons_prefix_iff, prunesFrom_cons_iff hslot, TakesDirectRow, GaplessRow,
            ← hc.prunes_iff_gapless]
          have hlt := hc.baseCount_lt
          by_cases hcount : c.baseCount + 1 = u.size
          · -- nothing is lost, so the walk goes on at the next direct base
            have hwhole : IsWhole c := by
              intro e he
              obtain rfl := Option.some.inj (hc.descriptor_eq.symm.trans he)
              rw [hencodes.subElementCount_eq]
              omega
            have hnext : s + 1 + c.baseCount = s + u.size := by omega
            have := ih (by omega) (hnext ▸ hrest)
            rw [hnext] at this ⊢
            simp only [hwhole, or_true, true_and, ← this]
            constructor
            · rintro ⟨hstart, ⟨hprunes, hrow⟩, htakes, htakesRow⟩
              exact ⟨⟨hprunes, htakes⟩, hstart, hrow, htakesRow⟩
            · rintro ⟨⟨hprunes, htakes⟩, hstart, hrow, htakesRow⟩
              exact ⟨hstart, ⟨hprunes, hrow⟩, htakes, htakesRow⟩
          · -- the next slot belongs to a class below this base
            have hwhole : ¬ IsWhole c := by
              intro h
              have := h d hc.descriptor_eq
              rw [hencodes.subElementCount_eq] at this
              omega
            cases others with
            | nil => simp [takenSlots, prunesFrom_nil, takesDirectRow_nil, GaplessRow]
            | cons c' others =>
                constructor
                · rintro ⟨hstart, -⟩
                  have := eq_of_takenSlots_prefix hstart
                  omega
                · rintro ⟨-, hrow, -⟩
                  simp [hwhole] at hrow

/-- A class that has lost all its bases is a pruning without gaps. -/
theorem remains_of_no_bases (name : Text) (d : BaseDescriptor) (t : TypeTree) :
    Remains memory d t (classOf name d []) where
  descriptor_eq := rfl
  baseCount_lt := by
    rw [Class.baseCount_eq]
    exact t.size_pos
  prunes_iff_gapless := by
    rw [prunes_iff, takesDirect_iff, gapless_iff]
    simp [classOf, takenSlots, takesDirectRow_nil, GaplessRow]

/-- What is rebuilt of a tree from damaged memory, whatever the depth through which bases are
followed. -/
theorem remains_of_gives_build {depth : Nat} {d : BaseDescriptor} {t : TypeTree} {c : Class}
    (hd : Encodes memory demangler d t)
    (hc : Gives (memory.without lost) (build memory.frame demangler depth d) c) :
    Remains memory d t c := by
  induction depth generalizing d t c with
  | zero =>
      obtain ⟨name, bases, -, hbases, rfl⟩ := gives_build_iff.1 hc
      cases hbases with
      | unannounced => exact remains_of_no_bases name d t
      | tooDeep => exact remains_of_no_bases name d t
  | succ depth ih =>
      obtain ⟨name, bases, -, hbases, rfl⟩ := gives_build_iff.1 hc
      cases hbases with
      | unannounced => exact remains_of_no_bases name d t
      | noHierarchy => exact remains_of_no_bases name d t
      | @walked _ _ h _ hsub hhierarchy hwalk =>
          have hbases := mt hd.subElementCount_eq_zero_iff.2 hsub
          have hh := BaseDescriptor.hierarchy_of_without hhierarchy
          obtain ⟨a, ha, hlists⟩ := hd.listsTree hbases
          obtain rfl := Option.some.inj (hh.unique ha)
          rw [hd.lastSlot_eq hlists] at hwalk
          have hremains : ∀ e u c, Encodes memory demangler e u →
              Gives (memory.without lost) (build memory.frame demangler depth e) c →
              Remains memory e u c := fun e u c he hc => ih he hc
          have hrow := prunesFrom_iff_gaplessRow hlists hremains (Nat.le_refl 1)
            t.drop_one_subtrees hwalk
          have hcount := add_totalCount_le hlists hremains (Nat.le_refl 1) t.size_pos hwalk
          refine ⟨rfl, ?_, ?_⟩
          · rw [Class.baseCount_eq]
            show Class.totalCount bases < t.size
            omega
          · rw [prunes_iff, takesDirect_iff, gapless_iff]
            show _ ↔ GaplessRow bases
            rw [← hrow]
            constructor
            · rintro ⟨⟨-, hnil | ⟨a, ha, hprunes⟩⟩, hstart, htakes⟩
              · obtain rfl : bases = [] := hnil
                exact ⟨hstart, prunesFrom_nil, takesDirectRow_nil⟩
              · obtain rfl := Option.some.inj (hh.unique ha)
                exact ⟨hstart, hprunes, htakes⟩
            · rintro ⟨hstart, hprunes, htakes⟩
              exact ⟨⟨rfl, .inr ⟨h, hh, hprunes⟩⟩, hstart, htakes⟩

/-- What is rebuilt from memory that holds a tree but has lost any of its bytes is a pruning of the
tree, with each base from its own slot, exactly if no class that has lost bases is followed by
another base. -/
theorem ofBase_prunes_iff (memory : Memory) (lost : Nat → Bool) (demangler : Demangler)
    (d : BaseDescriptor) (t : TypeTree) (c : Class) (hd : Encodes memory demangler d t)
    (hc : Gives (memory.without lost) (ofBase (memory.without lost).frame demangler d) c) :
    Prunes memory d t c ∧ TakesDirect t c ↔ Gapless c :=
  (remains_of_gives_build hd (gives_ofBase_iff.1 hc)).prunes_iff_gapless

/-- The hierarchy descriptor of `B`. -/
def sampleLost (n : Nat) : Bool := 0x1110 ≤ n && n < 0x1120

def sampleDamaged : Memory := sampleImage.memory.without sampleLost

/-- The class `A` with `C`, which is a base of `B`, between its direct bases. -/
def sampleRewired : Class :=
  classOf ['A'] sampleRoot
    [classOf ['B'] (sampleRecord 0x1320 0x1010 1 0 0x1110) [],
      classOf ['C'] (sampleRecord 0x1340 0x1020 0 0 0) [],
      classOf ['D'] (sampleRecord 0x1360 0x1030 0 8 0) []]

theorem sample_gives_rewired :
    Gives sampleDamaged (ofBase sampleDamaged.frame plainDemangler sampleRoot) sampleRewired := by
  have hb : Gives sampleDamaged
      (build sampleDamaged.frame plainDemangler 63 (sampleRecord 0x1320 0x1010 1 0 0x1110))
      (classOf ['B'] (sampleRecord 0x1320 0x1010 1 0 0x1110) []) :=
    gives_build_iff.2 ⟨['B'], [], ⟨some ⟨⟨0x1010⟩, ⟨0⟩, ⟨0⟩, [0x42]⟩, by decide +kernel⟩,
      .noHierarchy (by decide) (by decide +kernel), rfl⟩
  have hc : Gives sampleDamaged
      (build sampleDamaged.frame plainDemangler 63 (sampleRecord 0x1340 0x1020 0 0 0))
      (classOf ['C'] (sampleRecord 0x1340 0x1020 0 0 0) []) :=
    gives_build_iff.2 ⟨['C'], [], ⟨some ⟨⟨0x1020⟩, ⟨0⟩, ⟨0⟩, [0x43]⟩, by decide +kernel⟩,
      .unannounced rfl, rfl⟩
  have hd : Gives sampleDamaged
      (build sampleDamaged.frame plainDemangler 63 (sampleRecord 0x1360 0x1030 0 8 0))
      (classOf ['D'] (sampleRecord 0x1360 0x1030 0 8 0) []) :=
    gives_build_iff.2 ⟨['D'], [], ⟨some ⟨⟨0x1030⟩, ⟨0⟩, ⟨0⟩, [0x44]⟩, by decide +kernel⟩,
      .unannounced rfl, rfl⟩
  refine gives_ofBase_iff.2 (gives_build_iff.2
    ⟨['A'], _, ⟨some ⟨⟨0x1000⟩, ⟨0⟩, ⟨0⟩, [0x41]⟩, by decide +kernel⟩, ?_, rfl⟩)
  refine .walked (h := ⟨⟨0x1100⟩, 0, 0, 4, ⟨0x1200⟩⟩) (by decide) (by decide +kernel) ?_
  refine .base (by decide) (by decide +kernel) hb ?_
  refine .base (by decide) (by decide +kernel) hc ?_
  refine .base (by decide) (by decide +kernel) hd ?_
  exact .ended (by decide)

theorem ofBase_prunes_iff_sample :
    Encodes sampleImage.memory plainDemangler sampleRoot sampleTree
      ∧ Gives sampleDamaged (ofBase sampleDamaged.frame plainDemangler sampleRoot) sampleRewired
      ∧ (Prunes sampleImage.memory sampleRoot sampleTree sampleRewired
          ∧ TakesDirect sampleTree sampleRewired ↔ Gapless sampleRewired) :=
  ⟨sample_encodes, sample_gives_rewired,
    ofBase_prunes_iff sampleImage.memory sampleLost plainDemangler sampleRoot sampleTree
      sampleRewired sample_encodes sample_gives_rewired⟩

/-- Where the hierarchy descriptor of a base is lost, a class can come back with an indirect base
among its direct ones. -/
theorem ofBase_not_prunes :
    Encodes sampleImage.memory plainDemangler sampleRoot sampleTree
      ∧ Gives (sampleImage.memory.without sampleLost)
        (ofBase (sampleImage.memory.without sampleLost).frame plainDemangler sampleRoot)
        sampleRewired
      ∧ ¬ Prunes sampleImage.memory sampleRoot sampleTree sampleRewired := by
  refine ⟨sample_encodes, sample_gives_rewired, fun h => ?_⟩
  -- the array of `A` lists two direct bases, and the class has three
  rcases (prunes_iff.1 h).2 with hnil | ⟨a, -, hprunes⟩
  · cases hnil
  · exact hprunes.2.2

end Hierarchy

end RttiProbe
