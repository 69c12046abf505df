import RttiProbe.Text.Blank
/-!
# Trees of type names

What an array of base class descriptors stands for: a class and its direct bases, each of them such
a tree again, all known by the names of their types.  `subtrees` lists the trees of a tree in
pre-order, which is the order of the slots of an array, so that the tree in slot `i` takes the
slots from `i` to `i + size - 1`.  The laws below are about nothing else than that numbering.
-/

set_option autoImplicit false

namespace RttiProbe

/-- A class, named by its type, with the tree of its bases. -/
structure TypeTree where
  name : Text
  /-- the direct bases, in the order of declaration -/
  bases : List TypeTree
  deriving Repr, Inhabited

namespace TypeTree

/-- What holds of a class whenever it holds of its bases holds of every tree. -/
@[elab_as_elim, induction_eliminator]
theorem induction {motive : TypeTree → Prop}
    (node : ∀ name bases, (∀ t ∈ bases, motive t) → motive ⟨name, bases⟩) : ∀ t, motive t
  | ⟨name, bases⟩ => node name bases fun t _ => induction node t

/-! ## Measures -/

mutual

/-- The number of classes of a tree. -/
def size : TypeTree → Nat
  | ⟨_, bases⟩ => 1 + totalSize bases

/-- The number of classes of several trees. -/
def totalSize : List TypeTree → Nat
  | [] => 0
  | t :: rest => t.size + totalSize rest

end

theorem size_eq (t : TypeTree) : t.size = 1 + totalSize t.bases := by
  cases t; rw [size]

theorem size_pos (t : TypeTree) : 0 < t.size := by
  rw [size_eq]
  omega

mutual

/-- The number of edges on the longest way down a tree. -/
def height : TypeTree → Nat
  | ⟨_, bases⟩ => heightBelow bases

/-- The number of edges on the longest way down to a class of several trees, from a class that has
them as its bases. -/
def heightBelow : List TypeTree → Nat
  | [] => 0
  | t :: rest => max (t.height + 1) (heightBelow rest)

end

theorem height_eq (t : TypeTree) : t.height = heightBelow t.bases := by
  cases t; rw [height]

/-- A base is less high than its class. -/
theorem height_lt_of_mem {t u : TypeTree} (hu : u ∈ t.bases) : u.height < t.height := by
  rw [height_eq t]
  generalize t.bases = ts at hu
  induction ts with
  | nil => cases hu
  | cons v rest ih =>
      rw [heightBelow]
      rcases List.mem_cons.1 hu with rfl | hu
      · omega
      · have := ih hu
        omega

/-! ## Slots -/

mutual

/-- The trees of a tree in pre-order: the tree itself, then those of each base. -/
def subtrees : TypeTree → List TypeTree
  | ⟨name, bases⟩ => ⟨name, bases⟩ :: allSubtrees bases

/-- The trees of several trees, one after another. -/
def allSubtrees : List TypeTree → List TypeTree
  | [] => []
  | t :: rest => subtrees t ++ allSubtrees rest

end

theorem subtrees_eq (t : TypeTree) : t.subtrees = t :: allSubtrees t.bases := by
  cases t; rw [subtrees]

theorem length_allSubtrees_of {ts : List TypeTree}
    (h : ∀ t ∈ ts, t.subtrees.length = t.size) : (allSubtrees ts).length = totalSize ts := by
  induction ts with
  | nil => rfl
  | cons t rest ih =>
      rw [allSubtrees, totalSize, List.length_append, h t List.mem_cons_self,
        ih fun u hu => h u (List.mem_cons_of_mem t hu)]

theorem length_subtrees (t : TypeTree) : t.subtrees.length = t.size := by
  induction t with
  | node name bases ih =>
      rw [subtrees, size, List.length_cons, length_allSubtrees_of ih]
      omega

/-- A tree lies within the slots of the trees that list it. -/
theorem add_size_le_of_allSubtrees {ts : List TypeTree}
    (h : ∀ t ∈ ts, ∀ i u, t.subtrees[i]? = some u → i + u.size ≤ t.size) {i : Nat} {u : TypeTree}
    (hu : (allSubtrees ts)[i]? = some u) : i + u.size ≤ totalSize ts := by
  induction ts generalizing i with
  | nil => simp [allSubtrees] at hu
  | cons t rest ih =>
      rw [allSubtrees] at hu
      rw [totalSize]
      by_cases hi : i < t.subtrees.length
      · rw [List.getElem?_append_left hi] at hu
        have := h t List.mem_cons_self i u hu
        omega
      · rw [List.getElem?_append_right (by omega), length_subtrees] at hu
        rw [length_subtrees] at hi
        have := ih (fun t ht => h t (List.mem_cons_of_mem _ ht)) hu
        omega

/-- The tree in a slot takes no more slots than there are from it on. -/
theorem add_size_le {t : TypeTree} {i : Nat} {u : TypeTree} (hu : t.subtrees[i]? = some u) :
    i + u.size ≤ t.size := by
  induction t generalizing i u with
  | node name bases ih =>
      rw [subtrees] at hu
      rw [size]
      cases i with
      | zero =>
          obtain rfl : ⟨name, bases⟩ = u := by simpa using hu
          rw [size]
          omega
      | succ i =>
          rw [List.getElem?_cons_succ] at hu
          have := add_size_le_of_allSubtrees (fun t ht i u hu => ih t ht hu) hu
          omega

/-- The slots from `s` on list several trees: the first of them stands in slot `s`, and the others
are listed after its slots. -/
theorem drop_subtrees_cons {t u : TypeTree} {rest : List TypeTree} {s : Nat}
    (h : t.subtrees.drop s = allSubtrees (u :: rest)) :
    t.subtrees[s]? = some u ∧ t.subtrees.drop (s + u.size) = allSubtrees rest := by
  rw [allSubtrees] at h
  constructor
  · have := congrArg List.head? h
    rw [List.head?_drop, subtrees_eq u] at this
    simpa using this
  · rw [← List.drop_drop, h, ← length_subtrees, List.drop_left]

/-- The slots after the first list the direct bases. -/
theorem drop_one_subtrees (t : TypeTree) : t.subtrees.drop 1 = allSubtrees t.bases := by
  rw [subtrees_eq]
  rfl

/-- The slots of several trees that are listed from slot `s` on. -/
def slotsFrom (s : Nat) : List TypeTree → List Nat
  | [] => []
  | t :: rest => s :: slotsFrom (s + t.size) rest

end TypeTree

end RttiProbe
