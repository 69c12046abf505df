import Mathlib.Data.List.Forall2
import RttiProbe.Export
import RttiProbe.Proofs.Hierarchy.Encoding
/-!
# Rebuilds of trees of any height

Below the depth through which bases are followed a class comes back without its bases, so the walk
along the array around it does not pass over their slots but rebuilds each of them as a base of its
own.  The shape of the tree is lost there, its listing is not: a class, with all its bases in
pre-order, always bears the names of the first slots of its tree, and above the last level it bears
the names of all of them.
-/

set_option autoImplicit false

namespace RttiProbe

/-! ## Listings -/

namespace Class

mutual

theorem length_preorder : ∀ c : Class, c.preorder.length = 1 + c.baseCount
  | ⟨_, _, _, bases, _, _⟩ => by
    rw [preorder, baseCount, List.length_cons, length_preorders bases, Nat.add_comm]

theorem length_preorders : ∀ cs : List Class, (preorders cs).length = totalCount cs
  | [] => rfl
  | c :: rest => by
    rw [preorders, totalCount, List.length_append, length_preorder c, length_preorders rest]

end

end Class

namespace TypeTree

/-- The names of the classes of a tree, in the order of its slots. -/
def names (t : TypeTree) : List Text := t.subtrees.map name

theorem names_eq (t : TypeTree) : t.names = t.name :: t.names.drop 1 := by
  rw [names, subtrees_eq]
  rfl

theorem length_names (t : TypeTree) : t.names.length = t.size := by
  rw [names, List.length_map, length_subtrees]

theorem prefix_drop_allSubtrees_of {ts : List TypeTree}
    (h : ∀ t ∈ ts, ∀ i u, t.subtrees[i]? = some u → u.subtrees <+: t.subtrees.drop i) {i : Nat}
    {u : TypeTree} (hu : (allSubtrees ts)[i]? = some u) :
    u.subtrees <+: (allSubtrees ts).drop i := by
  induction ts generalizing i with
  | nil => simp [allSubtrees] at hu
  | cons t rest ih =>
      rw [allSubtrees] at hu ⊢
      by_cases hi : i < t.subtrees.length
      · rw [List.getElem?_append_left hi] at hu
        rw [List.drop_append_of_le_length (Nat.le_of_lt hi)]
        exact (h t List.mem_cons_self i u hu).trans (List.prefix_append _ _)
      · rw [List.getElem?_append_right (by omega)] at hu
        rw [List.drop_append, List.drop_eq_nil_of_le (by omega), List.nil_append]
        exact ih (fun t ht => h t (List.mem_cons_of_mem _ ht)) hu

/-- The slots from that of a tree on start with the slots of the tree. -/
theorem prefix_drop_subtrees {t : TypeTree} {i : Nat} {u : TypeTree}
    (hu : t.subtrees[i]? = some u) : u.subtrees <+: t.subtrees.drop i := by
  induction t generalizing i u with
  | node name bases ih =>
      rw [subtrees] at hu ⊢
      cases i with
      | zero =>
          obtain rfl : ⟨name, bases⟩ = u := by simpa using hu
          exact ⟨[], by rw [subtrees, List.drop_zero, List.append_nil]⟩
      | succ i =>
          rw [List.getElem?_cons_succ] at hu
          rw [List.drop_succ_cons]
          exact prefix_drop_allSubtrees_of (fun t ht i u hu => ih t ht hu) hu

end TypeTree

namespace Hierarchy

open Record Decode

variable {memory : Memory} {demangler : Demangler}

/-! ## Names -/

/-- The class was rebuilt from a record whose type has this name. -/
def IsNamedBy (memory : Memory) (demangler : Demangler) (c : Class) (name : Text) : Prop :=
  ∃ d, HasTypeName memory demangler d name ∧ c = classOf name d c.bases

/-- The classes bear the names, one each and in the same order. -/
abbrev Bear (memory : Memory) (demangler : Demangler) : List Class → List Text → Prop :=
  List.Forall₂ (IsNamedBy memory demangler)

/-- The class and its bases bear the names of the first slots of the tree. -/
def BearsFirst (memory : Memory) (demangler : Demangler) (c : Class) (t : TypeTree) : Prop :=
  ∃ names, Bear memory demangler c.preorder names ∧ names <+: t.names

theorem BearsFirst.eq_append {c : Class} {t u : TypeTree} {s : Nat}
    (hc : BearsFirst memory demangler c u) (hu : t.subtrees[s]? = some u) :
    ∃ names, Bear memory demangler c.preorder names
      ∧ t.names.drop s = names ++ t.names.drop (s + 1 + c.baseCount) := by
  obtain ⟨names, hnames, hfirst⟩ := hc
  refine ⟨names, hnames, ?_⟩
  have hlength : names.length = 1 + c.baseCount := by
    rw [← hnames.length_eq, Class.length_preorder]
  have hslots : u.names <+: t.names.drop s := by
    rw [TypeTree.names, TypeTree.names, ← List.map_drop]
    exact (TypeTree.prefix_drop_subtrees hu).map TypeTree.name
  have heq := List.prefix_iff_eq_append.1 (hfirst.trans hslots)
  rw [List.drop_drop, hlength, ← Nat.add_assoc] at heq
  exact heq.symm

theorem preorder_classOf (name : Text) (d : BaseDescriptor) (bases : List Class) :
    (classOf name d bases).preorder = classOf name d bases :: Class.preorders bases := by
  rw [Class.preorder_eq, Class.preorders_eq_flatMap]
  rfl

/-! ## The walk -/

/-- A walk along the array of a tree finds classes that bear the names of all slots from its cursor
on, if each class that it rebuilds bears those of the first slots of its own tree. -/
theorem exists_walks_bear {Rebuilds : BaseDescriptor → Class → Prop} {h : HierarchyDescriptor}
    {t : TypeTree} (hlists : ListsTree memory demangler h t)
    (hbase : ∀ e u, Encodes memory demangler e u →
      ∃ c, Rebuilds e c ∧ BearsFirst memory demangler c u)
    {s : Nat} (hs : 1 ≤ s) :
    ∃ cs, Walks memory Rebuilds h (t.size - 1) s cs
      ∧ Bear memory demangler (Class.preorders cs) (t.names.drop s) := by
  have hlength := t.length_names
  induction hroom : t.size - s using Nat.strongRecOn generalizing s with
  | ind room ih =>
      have hpos := t.size_pos
      cases hu : t.subtrees[s]? with
      | none =>
          rw [List.getElem?_eq_none_iff, TypeTree.length_subtrees] at hu
          refine ⟨[], .ended (by omega), ?_⟩
          rw [List.drop_eq_nil_of_le (by omega), Class.preorders]
          exact .nil
      | some u =>
          obtain ⟨e, hslot, he⟩ := hlists.2 s u hs hu
          obtain ⟨c, hc, hfirst⟩ := hbase e u he
          obtain ⟨names, hnames, hdrop⟩ := hfirst.eq_append hu
          have hlast := TypeTree.add_size_le hu
          have hsize := u.size_pos
          obtain ⟨cs, hcs, hbear⟩ := ih (t.size - (s + 1 + c.baseCount)) (by omega) (by omega) rfl
          refine ⟨c :: cs, .base (by omega) hslot hc hcs, ?_⟩
          rw [hdrop, Class.preorders]
          exact List.rel_append hnames hbear

/-! ## The rebuild -/

/-- A class without bases bears the first name of its tree. -/
theorem isNamedBy_classOf {d : BaseDescriptor} {name : Text}
    (hd : HasTypeName memory demangler d name) (bases : List Class) :
    IsNamedBy memory demangler (classOf name d bases) name := ⟨d, hd, rfl⟩

/-- Where bases are followed one level further than through a depth at which classes bear the first
names of their trees, they bear all of them. -/
theorem exists_gives_build_bear (depth : Nat)
    (hbase : ∀ e u, Encodes memory demangler e u →
      ∃ c, Gives memory (build memory.frame demangler depth e) c ∧ BearsFirst memory demangler c u)
    {d : BaseDescriptor} {t : TypeTree} (hd : Encodes memory demangler d t) :
    ∃ c, Gives memory (build memory.frame demangler (depth + 1) d) c
      ∧ Bear memory demangler c.preorder t.names := by
  by_cases hbases : t.bases = []
  · have hsub := hd.subElementCount_eq_zero_iff.2 hbases
    refine ⟨classOf t.name d [], ?_, ?_⟩
    · exact gives_build_iff.2 ⟨t.name, [], hd.hasTypeName.isNamed, .unannounced hsub, rfl⟩
    · have hnames : t.names = [t.name] := by
        rw [TypeTree.names, TypeTree.subtrees_eq, hbases]
        rfl
      rw [hnames, preorder_classOf]
      exact .cons (isNamedBy_classOf hd.hasTypeName []) .nil
  · obtain ⟨h, hhierarchy, hlists⟩ := hd.listsTree hbases
    have hsub := mt hd.subElementCount_eq_zero_iff.1 hbases
    obtain ⟨cs, hwalk, hbear⟩ := exists_walks_bear hlists hbase (Nat.le_refl 1)
    rw [← hd.lastSlot_eq hlists] at hwalk
    refine ⟨classOf t.name d cs, ?_, ?_⟩
    · exact gives_build_iff.2
        ⟨t.name, cs, hd.hasTypeName.isNamed, .walked hsub hhierarchy hwalk, rfl⟩
    · rw [TypeTree.names_eq, preorder_classOf]
      exact .cons (isNamedBy_classOf hd.hasTypeName cs) hbear

/-- At any depth a class bears the first names of its tree, where no bases are followed its own
name alone. -/
theorem exists_gives_build_bearsFirst {depth : Nat} {d : BaseDescriptor} {t : TypeTree}
    (hd : Encodes memory demangler d t) :
    ∃ c, Gives memory (build memory.frame demangler depth d) c
      ∧ BearsFirst memory demangler c t := by
  induction depth generalizing d t with
  | zero =>
      refine ⟨classOf t.name d [], ?_, [t.name], ?_, ?_⟩
      · refine gives_build_iff.2 ⟨t.name, [], hd.hasTypeName.isNamed, ?_, rfl⟩
        by_cases hsub : d.subElementCount = 0
        · exact .unannounced hsub
        · exact .tooDeep hsub
      · rw [preorder_classOf]
        exact .cons (isNamedBy_classOf hd.hasTypeName []) .nil
      · rw [TypeTree.names_eq]
        exact ⟨t.names.drop 1, rfl⟩
  | succ depth ih =>
      obtain ⟨c, hc, hbear⟩ := exists_gives_build_bear depth (fun e u he => ih he) hd
      exact ⟨c, hc, t.names, hbear, List.prefix_refl _⟩

/-! ## The slots of the array -/

/-- The class was rebuilt from a record of the type whose name the record in a slot refers to. -/
def FillsSlot (memory : Memory) (demangler : Demangler) (h : HierarchyDescriptor) (c : Class)
    (slot : Nat) : Prop :=
  ∃ d name, Gives memory (h.base memory.frame slot) (some d) ∧ HasTypeName memory demangler d name
    ∧ IsNamedBy memory demangler c name

/-- Classes that bear the names of a tree from slot `s` on fill the slots of its array from there
on. -/
theorem fillsSlots_of_bear {h : HierarchyDescriptor} {t : TypeTree}
    (hlists : ListsTree memory demangler h t) {s : Nat} (hs : 1 ≤ s) {cs : List Class}
    (hcs : Bear memory demangler cs (t.names.drop s)) :
    List.Forall₂ (FillsSlot memory demangler h) cs (List.range' s (t.size - s)) := by
  have hcount : cs.length = t.size - s := by
    rw [hcs.length_eq, List.length_drop, t.length_names]
  refine List.forall₂_iff_get.2 ⟨by rw [hcount, List.length_range'], fun i hi hslot => ?_⟩
  have hsubtrees : s + i < t.subtrees.length := by
    rw [TypeTree.length_subtrees]
    omega
  obtain ⟨e, hbase, he⟩ := hlists.2 (s + i) _ (by omega) (List.getElem?_eq_getElem hsubtrees)
  have hname := hcs.get hi (hcs.length_eq ▸ hi)
  refine ⟨e, t.subtrees[s + i].name, ?_, he.hasTypeName, ?_⟩
  · simpa using hbase
  · simpa [TypeTree.names] using hname

/-- The class that is rebuilt from a descriptor which encodes a tree, however high, derives from as
many classes as the tree has below its root.  In pre-order they bear the names of the tree, which
are those of the slots of its array after the first. -/
theorem ofBase_fills_slots (memory : Memory) (demangler : Demangler) (d : BaseDescriptor)
    (t : TypeTree) (hd : Encodes memory demangler d t) :
    ∃ c, Gives memory (ofBase memory.frame demangler d) c
      ∧ c.baseCount = t.size - 1
      ∧ Bear memory demangler (Class.preorders c.bases) (t.names.drop 1)
      ∧ ∀ h, Gives memory (d.hierarchy memory.frame) (some h) →
        List.Forall₂ (FillsSlot memory demangler h) (Class.preorders c.bases)
          (List.range' 1 (t.size - 1)) := by
  obtain ⟨c, hc, hbear⟩ := exists_gives_build_bear 63
    (fun e u he => exists_gives_build_bearsFirst he) hd
  rw [Class.preorder_eq, ← Class.preorders_eq_flatMap, TypeTree.names_eq] at hbear
  have hbases := (List.forall₂_cons.1 hbear).2
  have hcount : c.baseCount = t.size - 1 := by
    rw [Class.baseCount_eq, ← Class.length_preorders, hbases.length_eq, List.length_drop,
      t.length_names]
  refine ⟨c, gives_ofBase_iff.2 hc, hcount, hbases, fun h hh => ?_⟩
  by_cases hroot : t.bases = []
  · have hsize : t.size = 1 := by
      rw [TypeTree.size_eq, hroot, TypeTree.totalSize]
    rw [Class.baseCount_eq, ← Class.length_preorders, hsize] at hcount
    rw [List.length_eq_zero_iff.1 hcount, hsize]
    exact .nil
  · obtain ⟨a, ha, hlists⟩ := hd.listsTree hroot
    obtain rfl := Option.some.inj (ha.unique hh)
    exact fillsSlots_of_bear hlists (Nat.le_refl 1) hbases

/-! ## A chain of classes

A 32-bit memory with 67 classes, each deriving from the next.  There is one array of all of them,
and the array of a class is what is left of it from the slot of the class on. -/

/-- The word at an address that is a multiple of four: of the type, a record, a hierarchy
descriptor, or the array. -/
def chainWord (a : Nat) : Nat :=
  match a / 0x1000 with
  | 1 => [0, 0, 0x43].getD (a % 0x1000 / 4) 0
  | 2 =>
    let i := a % 0x1000 / 32
    [0x1000, 66 - i, 0, 0xFFFFFFFF, 0, 0x40, 0x3000 + 16 * i].getD (a % 32 / 4) 0
  | 3 =>
    let i := a % 0x1000 / 16
    [0, 0, 67 - i, 0x4000 + 4 * i].getD (a % 16 / 4) 0
  | 4 => 0x2000 + 32 * (a % 0x1000 / 4)
  | _ => 0

def chainMemory : Memory where
  width := .bits32
  moduleBase := .null
  readable := fun _ => true
  read := fun a n => .ok ((List.range' a.toNat n).map fun b =>
    UInt8.ofNat (chainWord (b / 4 * 4) / Nat.pow 256 (b % 4)))

def chainRecord (i : Nat) : BaseDescriptor :=
  sampleRecord (UInt64.ofNat (0x2000 + 32 * i)) 0x1000 (UInt32.ofNat (66 - i)) 0
    (UInt32.ofNat (0x3000 + 16 * i))

def chainHierarchy (i : Nat) : HierarchyDescriptor :=
  ⟨⟨UInt64.ofNat (0x3000 + 16 * i)⟩, 0, 0, UInt32.ofNat (67 - i), ⟨UInt32.ofNat (0x4000 + 4 * i)⟩⟩

/-- The class that has this many levels of bases. -/
def chainTree : Nat → TypeTree
  | 0 => ⟨['C'], []⟩
  | height + 1 => ⟨['C'], [chainTree height]⟩

theorem size_chainTree (height : Nat) : (chainTree height).size = height + 1 := by
  induction height with
  | zero => rfl
  | succ height ih =>
      rw [chainTree, TypeTree.size, TypeTree.totalSize, TypeTree.totalSize, ih]
      omega

theorem height_chainTree (height : Nat) : (chainTree height).height = height := by
  induction height with
  | zero => rfl
  | succ height ih =>
      rw [chainTree, TypeTree.height, TypeTree.heightBelow, TypeTree.heightBelow, ih, Nat.max_zero]

theorem name_chainTree (height : Nat) : (chainTree height).name = ['C'] := by
  cases height <;> rfl

/-- The slots of a chain hold the chains that are less high. -/
theorem getElem?_subtrees_chainTree {height i : Nat} {u : TypeTree}
    (hu : (chainTree height).subtrees[i]? = some u) :
    i ≤ height ∧ u = chainTree (height - i) := by
  induction height generalizing i with
  | zero =>
      cases i with
      | zero => exact ⟨Nat.le_refl 0, (Option.some.inj hu).symm⟩
      | succ i => cases hu
  | succ height ih =>
      cases i with
      | zero =>
          rw [TypeTree.subtrees_eq] at hu
          exact ⟨Nat.zero_le _, (Option.some.inj hu).symm⟩
      | succ i =>
          rw [chainTree, TypeTree.subtrees, TypeTree.allSubtrees, TypeTree.allSubtrees,
            List.append_nil, List.getElem?_cons_succ] at hu
          obtain ⟨hle, rfl⟩ := ih hu
          exact ⟨Nat.succ_le_succ hle, by rw [Nat.succ_sub_succ]⟩

theorem gives_hierarchy_chain : ∀ i < 67, Gives chainMemory
    ((chainRecord i).hierarchy chainMemory.frame) (some (chainHierarchy i)) := by
  decide +kernel

theorem gives_base_chain_zero : ∀ i < 67, Gives chainMemory
    ((chainHierarchy 0).base chainMemory.frame i) (some (chainRecord i)) := by
  decide +kernel

theorem resolve_chain : ∀ i < 67, chainMemory.frame.resolve (chainHierarchy i).baseArray
    = some ⟨UInt64.ofNat (0x4000 + 4 * i)⟩ := by
  decide +kernel

/-- A slot of the array of a class is a slot of the array of the first class. -/
theorem base_chain {i j : Nat} (h : i + j < 67) :
    (chainHierarchy i).base chainMemory.frame j
      = (chainHierarchy 0).base chainMemory.frame (i + j) := by
  have hcount : (chainHierarchy i).baseCount.toNat = 67 - i := by
    rw [chainHierarchy, UInt32.toNat_ofNat']
    omega
  have hslot : (chainHierarchy i).slotAddress chainMemory.frame j
      = (chainHierarchy 0).slotAddress chainMemory.frame (i + j) := by
    rw [HierarchyDescriptor.slotAddress, HierarchyDescriptor.slotAddress,
      resolve_chain i (by omega), resolve_chain 0 (by omega), Option.bind_some, Option.bind_some,
      Memory.Address.add?, Memory.Address.add?, Memory.Address.toNat, Memory.Address.toNat]
    congr 1
    rw [UInt64.toNat_ofNat', UInt64.toNat_ofNat']
    omega
  rw [HierarchyDescriptor.base, HierarchyDescriptor.base, hslot, hcount,
    if_neg (by omega : ¬ 67 - i ≤ j), if_neg (by exact Nat.not_le.2 h)]

theorem hasTypeName_chain (i : Nat) :
    HasTypeName chainMemory plainDemangler (chainRecord i) ['C'] := by
  have htype : Gives chainMemory ((chainRecord 0).type chainMemory.frame)
      (some ⟨⟨0x1000⟩, ⟨0⟩, ⟨0⟩, [0x43]⟩) := by decide +kernel
  exact ⟨_, htype, by decide +kernel⟩

theorem encodes_chain {height : Nat} (hheight : height < 67) :
    Encodes chainMemory plainDemangler (chainRecord (66 - height)) (chainTree height) := by
  induction height using Nat.strongRecOn with
  | ind height ih =>
      have hsize := size_chainTree height
      refine encodes_iff.2 ⟨name_chainTree height ▸ hasTypeName_chain _, ?_, fun _ => ?_⟩
      · rw [chainRecord, sampleRecord, UInt32.toNat_ofNat', hsize]
        omega
      · refine ⟨_, gives_hierarchy_chain (66 - height) (by omega), ?_, fun i u hi hu => ?_⟩
        · rw [chainHierarchy, UInt32.toNat_ofNat', hsize]
          omega
        · obtain ⟨hle, rfl⟩ := getElem?_subtrees_chainTree hu
          refine ⟨chainRecord (66 - (height - i)), ?_, ih (height - i) (by omega) (by omega)⟩
          rw [base_chain (by omega)]
          have hslot : 66 - height + i = 66 - (height - i) := by omega
          exact hslot ▸ gives_base_chain_zero _ (by omega)

/-- Two classes of the chain lie below the depth through which bases are followed. -/
theorem ofBase_fills_slots_chain :
    64 < (chainTree 66).height
      ∧ Encodes chainMemory plainDemangler (chainRecord 0) (chainTree 66)
      ∧ ∃ c, Gives chainMemory (ofBase chainMemory.frame plainDemangler (chainRecord 0)) c
        ∧ c.baseCount = (chainTree 66).size - 1
        ∧ Bear chainMemory plainDemangler (Class.preorders c.bases) ((chainTree 66).names.drop 1)
        ∧ ∀ h, Gives chainMemory ((chainRecord 0).hierarchy chainMemory.frame) (some h) →
          List.Forall₂ (FillsSlot chainMemory plainDemangler h) (Class.preorders c.bases)
            (List.range' 1 ((chainTree 66).size - 1)) := by
  have hheight : 64 < (chainTree 66).height := by
    rw [height_chainTree]
    omega
  have hchain := encodes_chain (by omega : 66 < 67)
  exact ⟨hheight, hchain,
    ofBase_fills_slots chainMemory plainDemangler (chainRecord 0) (chainTree 66) hchain⟩

end Hierarchy

end RttiProbe
