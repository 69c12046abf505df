import RttiProbe.Proofs.Hierarchy.Flat
import RttiProbe.Proofs.Text.Lines
/-!
# Outlines

The outline of a class shows its tree: one line for each class in pre-order, indented by two spaces
for each level that it stands below the root.  Nothing of the tree is lost in it but what the texts
of the classes do not show.  As long as no text has a line break or starts with a space, the lines
can be told apart and the indentation of each can be told from its text, and a list of levels and
texts has only one forest that is listed by it: what is listed below a class ends where the level is
that of the class again, or lower.
-/

set_option autoImplicit false

namespace RttiProbe

/-! ## Rows -/

namespace TypeTree

mutual

/-- The classes of a tree in pre-order, each with its level, if the root is `depth` levels down. -/
def rows (depth : Nat) : TypeTree → List (Nat × Text)
  | ⟨name, bases⟩ => (depth, name) :: allRows (depth + 1) bases

/-- The rows of several trees, one tree after another. -/
def allRows (depth : Nat) : List TypeTree → List (Nat × Text)
  | [] => []
  | t :: rest => rows depth t ++ allRows depth rest

end

/-- What comes after the rows of trees at this level does not belong to them. -/
def EndsAt (depth : Nat) (rest : List (Nat × Text)) : Prop := ∀ row ∈ rest.head?, row.1 < depth

theorem endsAt_nil (depth : Nat) : EndsAt depth [] := nofun

/-- What comes after the bases of a class is another class beside it, or is not as deep. -/
theorem EndsAt.allRows_append {depth : Nat} {rest : List (Nat × Text)} (h : EndsAt depth rest)
    (ts : List TypeTree) : EndsAt (depth + 1) (allRows depth ts ++ rest) := by
  intro row hrow
  cases ts with
  | nil => exact Nat.lt_succ_of_lt (h row hrow)
  | cons t ts =>
      obtain ⟨name, bases⟩ := t
      rw [allRows, rows] at hrow
      obtain rfl := Option.some.inj hrow
      exact Nat.lt_succ_self depth

/-- The rows of these trees, and where they end, are found again in whatever they stand in front
of. -/
def AreDetermined (ts : List TypeTree) : Prop :=
  ∀ (depth : Nat) (us : List TypeTree) (rest rest' : List (Nat × Text)), EndsAt depth rest →
    EndsAt depth rest' → allRows depth ts ++ rest = allRows depth us ++ rest' →
      ts = us ∧ rest = rest'

theorem areDetermined_of {ts : List TypeTree} (h : ∀ t ∈ ts, AreDetermined t.bases) :
    AreDetermined ts := by
  intro depth us rest rest' hrest hrest' heq
  induction ts generalizing us with
  | nil =>
      cases us with
      | nil => exact ⟨rfl, heq⟩
      | cons u us =>
          obtain ⟨name, bases⟩ := u
          rw [allRows, allRows, rows, List.nil_append] at heq
          exact absurd (hrest (depth, name) (by rw [heq]; rfl)) (Nat.lt_irrefl depth)
  | cons t ts ih =>
      obtain ⟨name, bases⟩ := t
      cases us with
      | nil =>
          rw [allRows, allRows, rows, List.nil_append] at heq
          exact absurd (hrest' (depth, name) (by rw [← heq]; rfl)) (Nat.lt_irrefl depth)
      | cons u us =>
          obtain ⟨name', bases'⟩ := u
          rw [allRows, allRows, rows, rows, List.cons_append, List.cons_append, List.cons_append,
            List.cons_append, List.append_assoc, List.append_assoc] at heq
          obtain ⟨hhead, htail⟩ := List.cons.inj heq
          obtain ⟨-, rfl⟩ := Prod.mk.inj hhead
          obtain ⟨hbases, hothers⟩ := h ⟨name, bases⟩ List.mem_cons_self (depth + 1) bases' _ _
            (hrest.allRows_append ts) (hrest'.allRows_append us) htail
          obtain rfl : bases = bases' := hbases
          obtain ⟨rfl, hend⟩ := ih (fun t ht => h t (List.mem_cons_of_mem _ ht)) us hothers
          exact ⟨rfl, hend⟩

/-- The rows of a tree belong to no other tree. -/
theorem rows_injective {depth : Nat} {t u : TypeTree} (h : rows depth t = rows depth u) :
    t = u := by
  have hbases (t : TypeTree) : AreDetermined t.bases := by
    induction t with
    | node name bases ih => exact areDetermined_of ih
  have heq : allRows depth [t] ++ [] = allRows depth [u] ++ [] := by
    simp only [allRows, h]
  have hdetermined : AreDetermined [t] := areDetermined_of fun t _ => hbases t
  obtain ⟨hsingle, -⟩ := hdetermined depth [u] [] [] (endsAt_nil depth) (endsAt_nil depth) heq
  exact List.head_eq_of_cons_eq hsingle

end TypeTree

/-! ## Lines -/

namespace Class

mutual

/-- The classes of a tree in pre-order, each with its level, if the root is `depth` levels down. -/
def leveled (depth : Nat) : Class → List (Nat × Class)
  | ⟨name, namespaces, arguments, bases, descriptor, isArgument⟩ =>
    (depth, ⟨name, namespaces, arguments, bases, descriptor, isArgument⟩)
      :: allLeveled (depth + 1) bases

/-- The classes of several trees, one tree after another. -/
def allLeveled (depth : Nat) : List Class → List (Nat × Class)
  | [] => []
  | c :: rest => leveled depth c ++ allLeveled depth rest

end

mutual

/-- The tree of the texts that the classes of a tree are shown by. -/
def shown : Class → TypeTree
  | ⟨name, namespaces, arguments, bases, descriptor, isArgument⟩ =>
    ⟨display ⟨name, namespaces, arguments, bases, descriptor, isArgument⟩, allShown bases⟩

/-- The trees of the texts of several trees. -/
def allShown : List Class → List TypeTree
  | [] => []
  | c :: rest => shown c :: allShown rest

end

/-- The line of a text on a level: two spaces for each level, and the text. -/
def lineAt (row : Nat × Text) : Text := List.replicate (2 * row.1) ' ' ++ row.2

mutual

theorem map_snd_leveled (depth : Nat) :
    ∀ c : Class, (leveled depth c).map Prod.snd = c.preorder
  | ⟨name, namespaces, arguments, bases, descriptor, isArgument⟩ => by
    rw [leveled, preorder, List.map_cons, map_snd_allLeveled (depth + 1) bases]

theorem map_snd_allLeveled (depth : Nat) :
    ∀ cs : List Class, (allLeveled depth cs).map Prod.snd = preorders cs
  | [] => rfl
  | c :: rest => by
    rw [allLeveled, preorders, List.map_append, map_snd_leveled depth c,
      map_snd_allLeveled depth rest]

end

mutual

theorem rows_shown (depth : Nat) :
    ∀ c : Class, c.shown.rows depth = (leveled depth c).map fun p => (p.1, p.2.display)
  | ⟨name, namespaces, arguments, bases, descriptor, isArgument⟩ => by
    rw [shown, leveled, TypeTree.rows, List.map_cons, allRows_allShown (depth + 1) bases]

theorem allRows_allShown (depth : Nat) : ∀ cs : List Class,
    TypeTree.allRows depth (allShown cs) = (allLeveled depth cs).map fun p => (p.1, p.2.display)
  | [] => rfl
  | c :: rest => by
    rw [allShown, allLeveled, TypeTree.allRows, List.map_append, rows_shown depth c,
      allRows_allShown depth rest]

end

mutual

theorem outlineLines_eq_map (depth : Nat) :
    ∀ c : Class, c.outlineLines depth = (c.shown.rows depth).map lineAt
  | ⟨name, namespaces, arguments, bases, descriptor, isArgument⟩ => by
    rw [outlineLines, shown, TypeTree.rows, List.map_cons, outlinesLines_eq_map (depth + 1) bases]
    rfl

theorem outlinesLines_eq_map (depth : Nat) : ∀ cs : List Class,
    outlinesLines depth cs = (TypeTree.allRows depth (allShown cs)).map lineAt
  | [] => rfl
  | c :: rest => by
    rw [outlinesLines, allShown, TypeTree.allRows, List.map_append, outlineLines_eq_map depth c,
      outlinesLines_eq_map depth rest]

end

/-- The spaces that a line starts with are its indentation, if its text does not start with one. -/
theorem takeWhile_lineAt {row : Nat × Text} (h : row.2.head? ≠ some ' ') :
    (lineAt row).takeWhile (· = ' ') = List.replicate (2 * row.1) ' ' := by
  have hspaces : ∀ c ∈ List.replicate (2 * row.1) ' ', decide (c = ' ') = true :=
    fun c hc => decide_eq_true (List.eq_of_mem_replicate hc)
  have htext : row.2.takeWhile (· = ' ') = [] := by
    cases htext : row.2 with
    | nil => rfl
    | cons c rest =>
        rw [htext] at h
        have hc : c ≠ ' ' := fun hc => h (congrArg some hc)
        rw [List.takeWhile_cons, if_neg (by simpa using hc)]
  unfold lineAt
  rw [List.takeWhile_append_of_pos hspaces, htext, List.append_nil]

/-- A level and a text can be told from their line. -/
theorem lineAt_injective {row row' : Nat × Text} (h : row.2.head? ≠ some ' ')
    (h' : row'.2.head? ≠ some ' ') (heq : lineAt row = lineAt row') : row = row' := by
  have hspaces := congrArg (List.takeWhile (· = ' ')) heq
  rw [takeWhile_lineAt h, takeWhile_lineAt h'] at hspaces
  have hlevel : row.1 = row'.1 := by
    have hlength := congrArg List.length hspaces
    rw [List.length_replicate, List.length_replicate] at hlength
    omega
  unfold lineAt at heq
  rw [hlevel] at heq
  exact Prod.ext hlevel (List.append_cancel_left heq)

/-! ## Outlines -/

/-- The text of each class of a tree is a single line that does not start with a space. -/
def IsOutlinable (c : Class) : Prop :=
  ∀ b ∈ c.preorder, '\n' ∉ b.display ∧ b.display.head? ≠ some ' '

/-- What holds of the texts of all classes holds of the text of each row. -/
theorem forall_mem_rows_shown (p : Text → Prop) {c : Class}
    (h : ∀ b ∈ c.preorder, p b.display) : ∀ row ∈ c.shown.rows 0, p row.2 := by
  intro row hrow
  rw [rows_shown] at hrow
  obtain ⟨leveled, hleveled, rfl⟩ := List.mem_map.1 hrow
  exact h _ (map_snd_leveled 0 c ▸ List.mem_map_of_mem hleveled)

/-- The lines of an outline, each ended by a line break. -/
theorem splitOn_outline {c : Class} (h : ∀ b ∈ c.preorder, '\n' ∉ b.display) :
    c.outline.splitOn '\n' = (c.shown.rows 0).map lineAt ++ [[]] := by
  have hlines : ∀ line ∈ (c.shown.rows 0).map lineAt, '\n' ∉ line := by
    intro line hline
    obtain ⟨row, hrow, rfl⟩ := List.mem_map.1 hline
    have htext := forall_mem_rows_shown ('\n' ∉ ·) h row hrow
    unfold lineAt
    simp [htext]
  have hsplit := Text.splitOn_flatMap_newline ((c.shown.rows 0).map lineAt) []
  rw [Text.flatMap_splitOn_newline hlines, List.append_nil] at hsplit
  rw [outline, outlineLines_eq_map]
  exact hsplit

theorem map_lineAt_injective {rows rows' : List (Nat × Text)}
    (h : ∀ row ∈ rows, row.2.head? ≠ some ' ') (h' : ∀ row ∈ rows', row.2.head? ≠ some ' ')
    (heq : rows.map lineAt = rows'.map lineAt) : rows = rows' := by
  induction rows generalizing rows' with
  | nil => exact (List.map_eq_nil_iff.1 heq.symm).symm
  | cons row rest ih =>
      cases rows' with
      | nil => cases heq
      | cons row' rest' =>
          obtain ⟨hrow, hrest⟩ := List.forall_mem_cons.1 h
          obtain ⟨hrow', hrest'⟩ := List.forall_mem_cons.1 h'
          obtain ⟨hline, hlines⟩ := List.cons.inj heq
          rw [lineAt_injective hrow hrow' hline, ih hrest hrest' hlines]

/-- The outline of a class whose texts are single lines that do not start with a space has a line
for each class of its tree, in pre-order: two spaces for each level, and the text of the class.  Two
such classes with one outline have trees of one shape with the same texts. -/
theorem outline_determines_tree :
    (∀ c : Class, c.IsOutlinable →
        c.outline.splitOn '\n'
            = ((leveled 0 c).map fun p => List.replicate (2 * p.1) ' ' ++ p.2.display) ++ [[]]
          ∧ (leveled 0 c).map Prod.snd = c.preorder ∧ (leveled 0 c).length = 1 + c.baseCount)
      ∧ ∀ c d : Class, c.IsOutlinable → d.IsOutlinable → c.outline = d.outline →
        c.shown = d.shown := by
  constructor
  · intro c h
    refine ⟨?_, map_snd_leveled 0 c, ?_⟩
    · rw [splitOn_outline fun b hb => (h b hb).1, rows_shown, List.map_map]
      rfl
    · rw [← length_preorder, ← map_snd_leveled 0 c, List.length_map]
  · intro c d hc hd heq
    have hlines : (c.shown.rows 0).map lineAt = (d.shown.rows 0).map lineAt := by
      have hsplit := congrArg (List.splitOn '\n') heq
      rw [splitOn_outline fun b hb => (hc b hb).1, splitOn_outline fun b hb => (hd b hb).1] at hsplit
      exact List.append_cancel_right hsplit
    exact TypeTree.rows_injective (map_lineAt_injective
      (forall_mem_rows_shown (·.head? ≠ some ' ') fun b hb => (hc b hb).2)
      (forall_mem_rows_shown (·.head? ≠ some ' ') fun b hb => (hd b hb).2) hlines)

/-- The class `A` with its bases `B`, which derives from `X::C`, and `D`. -/
def outlinedClass : Class :=
  { ofName ['A'] with
    bases := [{ ofName ['B'] with bases := [{ ofName ['C'] with namespaces := [['X']] }] },
      ofName ['D']] }

/-- The same classes, one of them with its namespace written into its name. -/
def outlinedAlike : Class :=
  { ofName ['A'] with
    bases := [{ ofName ['B'] with bases := [ofName ['X', ':', ':', 'C']] }, ofName ['D']] }

theorem outline_determines_tree_sample :
    outlinedClass.IsOutlinable ∧ outlinedAlike.IsOutlinable
      ∧ outlinedClass.outline = outlinedAlike.outline
      ∧ outlinedClass.outline = "A\n  B\n    X::C\n  D\n".toList
      ∧ (leveled 0 outlinedClass).length = 1 + 3
      ∧ outlinedClass.shown = outlinedAlike.shown := by
  have hclass : outlinedClass.IsOutlinable := by unfold IsOutlinable; decide
  have halike : outlinedAlike.IsOutlinable := by unfold IsOutlinable; decide
  have heq : outlinedClass.outline = outlinedAlike.outline := by decide
  exact ⟨hclass, halike, heq, by decide, (outline_determines_tree.1 _ hclass).2.2,
    outline_determines_tree.2 _ _ hclass halike heq⟩

/-- A text that starts with spaces can pass for one on a lower level. -/
example : { ofName ['A'] with bases := [ofName ['B'], ofName [' ', ' ', 'C']] }.outline
    = { ofName ['A'] with bases := [{ ofName ['B'] with bases := [ofName ['C']] }] }.outline := by
  decide

end Class

end RttiProbe
