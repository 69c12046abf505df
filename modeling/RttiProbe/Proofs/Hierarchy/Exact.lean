import RttiProbe.Proofs.Hierarchy.Encoding
/-!
# Exact rebuilds

The rebuild of a class from a descriptor that encodes a tree gives back the tree, as long as it is
not higher than bases are followed.  The next slot to visit depends on how many classes were rebuilt
from another array, so the walk is tied to the tree by the slots it has left: from its cursor on,
they list exactly the direct bases that are still to come.
-/

set_option autoImplicit false

namespace RttiProbe.Hierarchy

open Record Decode

variable {memory : Memory} {demangler : Demangler}

mutual

/-- The class is the tree, rebuilt from the descriptor `d`: it is named by its type, it carries `d`,
and it has one base for each direct base of the tree, in the same order and rebuilt from the
descriptor in its slot. -/
def Mirrors (memory : Memory) (d : BaseDescriptor) : TypeTree → Class → Prop
  | ⟨name, bases⟩, c =>
    c = classOf name d c.bases
      ∧ (bases = [] ∧ c.bases = []
        ∨ ∃ h, Gives memory (d.hierarchy memory.frame) (some h)
          ∧ MirrorsFrom memory h 1 bases c.bases)

/-- The classes are the trees, each rebuilt from the descriptor in its slot, the first of which is
slot `s`. -/
def MirrorsFrom (memory : Memory) (h : HierarchyDescriptor) (s : Nat) :
    List TypeTree → List Class → Prop
  | [], cs => cs = []
  | t :: rest, cs =>
    ∃ d c others, cs = c :: others ∧ Gives memory (h.base memory.frame s) (some d)
      ∧ Mirrors memory d t c ∧ MirrorsFrom memory h (s + t.size) rest others

end

theorem mirrors_iff {d : BaseDescriptor} {t : TypeTree} {c : Class} :
    Mirrors memory d t c ↔ c = classOf t.name d c.bases
      ∧ (t.bases = [] ∧ c.bases = [] ∨ ∃ h, Gives memory (d.hierarchy memory.frame) (some h)
        ∧ MirrorsFrom memory h 1 t.bases c.bases) := by
  cases t; rw [Mirrors]

/-! ## Counts -/

theorem totalCount_of_mirrorsFrom {h : HierarchyDescriptor} {ts : List TypeTree}
    (hts : ∀ t ∈ ts, ∀ d c, Mirrors memory d t c → c.baseCount + 1 = t.size) {s : Nat}
    {cs : List Class} (hcs : MirrorsFrom memory h s ts cs) :
    Class.totalCount cs = TypeTree.totalSize ts := by
  induction ts generalizing s cs with
  | nil =>
      rw [MirrorsFrom] at hcs
      rw [hcs, Class.totalCount, TypeTree.totalSize]
  | cons t rest ih =>
      rw [MirrorsFrom] at hcs
      obtain ⟨d, c, others, rfl, -, hc, hothers⟩ := hcs
      have hcount := hts t List.mem_cons_self d c hc
      have hrest := ih (fun u hu => hts u (List.mem_cons_of_mem t hu)) hothers
      rw [Class.totalCount, TypeTree.totalSize, hrest]
      omega

/-- A class that is a tree has as many bases as the tree has classes below its root. -/
theorem Mirrors.baseCount {d : BaseDescriptor} {t : TypeTree} {c : Class}
    (hc : Mirrors memory d t c) : c.baseCount + 1 = t.size := by
  induction t generalizing d c with
  | node name bases ih =>
      rw [Mirrors] at hc
      rw [Class.baseCount_eq, TypeTree.size]
      obtain ⟨-, ⟨rfl, hbases⟩ | ⟨h, -, hbases⟩⟩ := hc
      · rw [hbases, Class.totalCount, TypeTree.totalSize]
      · rw [totalCount_of_mirrorsFrom (fun t ht d c => ih t ht) hbases]
        omega

/-! ## The walk -/

/-- A walk whose remaining slots list some trees finds exactly those trees, if each of them can be
rebuilt. -/
theorem exists_walks_mirrorsFrom {Rebuilds : BaseDescriptor → Class → Prop}
    {h : HierarchyDescriptor} {t : TypeTree} (hlists : ListsTree memory demangler h t)
    {ts : List TypeTree} {s : Nat} (hs : 1 ≤ s)
    (hdrop : t.subtrees.drop s = TypeTree.allSubtrees ts)
    (hts : ∀ u ∈ ts, ∀ e, Encodes memory demangler e u → ∃ c, Rebuilds e c ∧ Mirrors memory e u c) :
    ∃ cs, Walks memory Rebuilds h (t.size - 1) s cs ∧ MirrorsFrom memory h s ts cs := by
  induction ts generalizing s with
  | nil =>
      have hlength : t.size ≤ s := by
        rw [← TypeTree.length_subtrees]
        exact List.drop_eq_nil_iff.1 hdrop
      have hsize := t.size_pos
      exact ⟨[], .ended (by omega), by rw [MirrorsFrom]⟩
  | cons u rest ih =>
      obtain ⟨hu, hrest⟩ := TypeTree.drop_subtrees_cons hdrop
      obtain ⟨e, hslot, he⟩ := hlists.2 s u hs hu
      obtain ⟨c, hc, hmirrors⟩ := hts u List.mem_cons_self e he
      have hcount := hmirrors.baseCount
      -- the rebuilt base has the size of its tree, so the walk goes on at the next direct base
      have hnext : s + 1 + c.baseCount = s + u.size := by omega
      obtain ⟨cs, hcs, hmirrors_cs⟩ := ih (by omega : 1 ≤ s + u.size) hrest
        fun v hv => hts v (List.mem_cons_of_mem u hv)
      have hfits := TypeTree.add_size_le hu
      have hpos := u.size_pos
      refine ⟨c :: cs, .base (by omega) hslot hc (hnext ▸ hcs), ?_⟩
      rw [MirrorsFrom]
      exact ⟨e, c, cs, rfl, hslot, hmirrors, hmirrors_cs⟩

/-- A descriptor that encodes a single class is rebuilt as that class at any depth. -/
theorem exists_gives_build_of_bases_eq_nil {depth : Nat} {d : BaseDescriptor} {t : TypeTree}
    (hd : Encodes memory demangler d t) (hbases : t.bases = []) :
    ∃ c, Gives memory (build memory.frame demangler depth d) c ∧ Mirrors memory d t c := by
  have hsub := hd.subElementCount_eq_zero_iff.2 hbases
  refine ⟨classOf t.name d [], ?_, ?_⟩
  · exact gives_build_iff.2 ⟨t.name, [], hd.hasTypeName.isNamed, .unannounced hsub, rfl⟩
  · exact mirrors_iff.2 ⟨rfl, .inl ⟨hbases, rfl⟩⟩

/-- A descriptor that encodes a tree is rebuilt as the tree, if bases are followed through as many
levels as the tree has. -/
theorem exists_gives_build_mirrors {depth : Nat} {d : BaseDescriptor} {t : TypeTree}
    (hheight : t.height ≤ depth) (hd : Encodes memory demangler d t) :
    ∃ c, Gives memory (build memory.frame demangler depth d) c ∧ Mirrors memory d t c := by
  induction depth generalizing d t with
  | zero =>
      refine exists_gives_build_of_bases_eq_nil hd ?_
      cases hbases : t.bases with
      | nil => rfl
      | cons u rest =>
          have hu := TypeTree.height_lt_of_mem (t := t) (u := u) (by simp [hbases])
          omega
  | succ depth ih =>
      by_cases hbases : t.bases = []
      · exact exists_gives_build_of_bases_eq_nil hd hbases
      · obtain ⟨h, hhierarchy, hlists⟩ := hd.listsTree hbases
        have hsub := mt hd.subElementCount_eq_zero_iff.1 hbases
        obtain ⟨cs, hwalk, hcs⟩ := exists_walks_mirrorsFrom hlists (Nat.le_refl 1)
          t.drop_one_subtrees fun u hu e he =>
            ih (by have := TypeTree.height_lt_of_mem hu; omega) he
        rw [← hd.lastSlot_eq hlists] at hwalk
        refine ⟨classOf t.name d cs, ?_, ?_⟩
        · exact gives_build_iff.2
            ⟨t.name, cs, hd.hasTypeName.isNamed, .walked hsub hhierarchy hwalk, rfl⟩
        · exact mirrors_iff.2 ⟨rfl, .inr ⟨h, hhierarchy, hcs⟩⟩

/-- The rebuild of a class from a descriptor that encodes a tree of at most `maxDepth` levels of
bases succeeds and gives back exactly that tree. -/
theorem ofBase_mirrors (memory : Memory) (demangler : Demangler) (d : BaseDescriptor) (t : TypeTree)
    (hheight : t.height ≤ 64) (hd : Encodes memory demangler d t) :
    ∃ c, Gives memory (ofBase memory.frame demangler d) c ∧ Mirrors memory d t c := by
  obtain ⟨c, hc, hmirrors⟩ := exists_gives_build_mirrors hheight hd
  exact ⟨c, gives_ofBase_iff.2 hc, hmirrors⟩

theorem ofBase_mirrors_sample :
    sampleTree.height ≤ 64 ∧ Encodes sampleImage.memory plainDemangler sampleRoot sampleTree
      ∧ ∃ c, Gives sampleImage.memory (ofBase sampleImage.memory.frame plainDemangler sampleRoot) c
        ∧ Mirrors sampleImage.memory sampleRoot sampleTree c := by
  have hheight : sampleTree.height ≤ 64 := by decide
  exact ⟨hheight, sample_encodes,
    ofBase_mirrors sampleImage.memory plainDemangler sampleRoot sampleTree hheight sample_encodes⟩

end RttiProbe.Hierarchy
