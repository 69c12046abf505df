import RttiProbe.Proofs.Header.Location
/-!
# Plans

What a plan lists, whatever classes it is made for: one header for each path that a class of the
selection has, and that header is the one of the first such class.  The selection of an export with
bases holds the bases of each of its classes, so the plan has a header for them too, be it that of
another class with the same path.
-/

set_option autoImplicit false

namespace RttiProbe

/-! ## Selections -/

namespace Class

theorem self_mem_preorder (c : Class) : c ∈ c.preorder := by
  rw [preorder_eq]
  exact List.mem_cons_self

theorem mem_preorders_of_mem {c : Class} {cs : List Class} (h : c ∈ cs) : c ∈ preorders cs := by
  rw [preorders_eq_flatMap]
  exact List.mem_flatMap.2 ⟨c, h, self_mem_preorder c⟩

mutual

/-- The bases of a class of a tree are classes of the tree. -/
theorem base_mem_preorder :
    ∀ (c : Class) {x base : Class}, x ∈ c.preorder → base ∈ x.bases → base ∈ c.preorder
  | ⟨name, namespaces, arguments, bases, descriptor, isArgument⟩, x, base, hx, hbase => by
    rw [preorder] at hx ⊢
    rcases List.mem_cons.1 hx with rfl | hbelow
    · exact List.mem_cons_of_mem _ (mem_preorders_of_mem hbase)
    · exact List.mem_cons_of_mem _ (base_mem_preorders bases hbelow hbase)

theorem base_mem_preorders :
    ∀ (cs : List Class) {x base : Class}, x ∈ preorders cs → base ∈ x.bases → base ∈ preorders cs
  | [], x, base, hx, _ => by
    rw [preorders] at hx
    exact absurd hx List.not_mem_nil
  | c :: rest, x, base, hx, hbase => by
    rw [preorders, List.mem_append] at hx ⊢
    rcases hx with hfirst | hrest
    · exact .inl (base_mem_preorder c hfirst hbase)
    · exact .inr (base_mem_preorders rest hrest hbase)

end

end Class

/-! ## Items -/

namespace Export

open RttiProbe.Path (Component)

/-- Whether the header of a class goes to the path with the given components. -/
def goesTo (root : Path) (components : List Component) (c : Class) : Bool :=
  (destination root c).components = components

variable {root : Path} {seen : List (List Component)} {classes : List Class} {item : Item}

/-- The class of an item is the first one whose header goes to its path, which is a new one. -/
theorem find?_of_mem_itemsAfter (h : item ∈ itemsAfter root seen classes) :
    item.path.components ∉ seen
      ∧ classes.find? (goesTo root item.path.components) = some item.subject := by
  induction classes generalizing seen with
  | nil => exact absurd h List.not_mem_nil
  | cons c rest ih =>
      unfold itemsAfter at h
      dsimp only at h
      split at h
      · rename_i hseen
        obtain ⟨hnew, hfind⟩ := ih h
        have hother : goesTo root item.path.components c = false := by
          refine decide_eq_false fun heq => hnew ?_
          rw [← heq]
          exact List.contains_iff_mem.1 hseen
        exact ⟨hnew, by rw [List.find?_cons, hother, hfind]⟩
      · rename_i hseen
        rcases List.mem_cons.1 h with rfl | htail
        · have hself : goesTo root (destination root c).components c = true := decide_eq_true rfl
          exact ⟨fun hmem => hseen (List.contains_iff_mem.2 hmem), by rw [List.find?_cons, hself]⟩
        · obtain ⟨hnew, hfind⟩ := ih htail
          obtain ⟨hne, hnew⟩ := not_or.1 (mt List.mem_cons.2 hnew)
          have hother : goesTo root item.path.components c = false :=
            decide_eq_false fun heq => hne heq.symm
          exact ⟨hnew, by rw [List.find?_cons, hother, hfind]⟩

/-- No two items have one path. -/
theorem nodup_components_itemsAfter (root : Path) (seen : List (List Component))
    (classes : List Class) :
    ((itemsAfter root seen classes).map (·.path.components)).Nodup := by
  induction classes generalizing seen with
  | nil => exact List.nodup_nil
  | cons c rest ih =>
      unfold itemsAfter
      dsimp only
      split
      · exact ih seen
      · refine List.nodup_cons.2 ⟨?_, ih _⟩
        intro hmem
        obtain ⟨item, hitem, heq⟩ := List.mem_map.1 hmem
        refine (find?_of_mem_itemsAfter hitem).1 ?_
        rw [heq]
        exact List.mem_cons_self

/-- There is an item for the path of each class, unless the path was there before. -/
theorem exists_item_of_mem {c : Class} (h : c ∈ classes)
    (hnew : (destination root c).components ∉ seen) :
    ∃ item ∈ itemsAfter root seen classes,
      item.path.components = (destination root c).components := by
  induction classes generalizing seen with
  | nil => exact absurd h List.not_mem_nil
  | cons first rest ih =>
      unfold itemsAfter
      dsimp only
      split
      · rename_i hseen
        rcases List.mem_cons.1 h with rfl | hrest
        · exact absurd (List.contains_iff_mem.1 hseen) hnew
        · exact ih hrest hnew
      · by_cases heq : (destination root first).components = (destination root c).components
        · exact ⟨_, List.mem_cons_self, heq⟩
        · rcases List.mem_cons.1 h with rfl | hrest
          · exact absurd rfl heq
          · have hnew' : (destination root c).components
                ∉ (destination root first).components :: seen := by
              rw [List.mem_cons, not_or]
              exact ⟨Ne.symm heq, hnew⟩
            obtain ⟨item, hitem, hpath⟩ := ih hrest hnew'
            exact ⟨item, List.mem_cons_of_mem _ hitem, hpath⟩

/-- Whether two paths are the same, however they are written. -/
def samePath (p q : Path) : Bool := p.components == q.components

/-- The paths of the items are those of the classes, without the ones that were there before and
without repetitions. -/
theorem map_path_itemsAfter (root : Path) (seen : List (List Component)) (classes : List Class) :
    (itemsAfter root seen classes).map Item.path
      = ((classes.map (destination root)).filter
          fun path => !seen.contains path.components).eraseDupsBy samePath := by
  induction classes generalizing seen with
  | nil => rfl
  | cons c rest ih =>
      unfold itemsAfter
      dsimp only
      rw [List.map_cons, List.filter_cons]
      cases hseen : seen.contains (destination root c).components with
      | true =>
          rw [if_pos rfl, ih, if_neg (by decide)]
      | false =>
          rw [if_neg Bool.false_ne_true, List.map_cons, ih, if_pos (by decide),
            List.eraseDupsBy_cons, List.filter_filter]
          congr 2
          refine List.filter_congr fun path _ => ?_
          unfold samePath
          rw [List.contains_cons, Bool.not_or]
          cases path.components == (destination root c).components <;> rfl

/-- An export with bases has a header for the path of each class of the tree. -/
theorem exists_item_of_mem_preorder {c x : Class} (root : Path) (h : x ∈ c.preorder) :
    ∃ item ∈ plan c root true, item.path.components = (destination root x).components :=
  exists_item_of_mem h List.not_mem_nil

/-- The header of an item is that of the first selected class with its path. -/
theorem subject_of_mem_plan {c : Class} {withBases : Bool} (h : item ∈ plan c root withBases) :
    item.path = destination root item.subject ∧ item.subject ∈ selection c withBases
      ∧ (selection c withBases).find? (goesTo root item.path.components) = some item.subject := by
  obtain ⟨hpath, hmem⟩ := Header.path_eq_of_mem_itemsAfter h
  exact ⟨hpath, hmem, (find?_of_mem_itemsAfter h).2⟩

end Export

end RttiProbe
