import RttiProbe.Lookup
import RttiProbe.Proofs.Hierarchy.Encoding
import RttiProbe.Proofs.Text.Trim
/-!
# The name of the class of an object

A locator is accepted only if it leads to a type whose name is not blank.  The name of the class of
an object is read along the same trail once more, and a memory that answers each question the same
way every time shows the same type again.  So there is a name wherever there is a locator, and
nothing is told in its place where there is none.
-/

set_option autoImplicit false

namespace RttiProbe

open Decode
open Text (AllBlank isBlank)

variable {memory : Memory} {frame : Frame} {demangler : Demangler}

theorem Text.Utf8.decodeLossy_ne_nil {bs : Bytes} (h : bs ≠ []) : decodeLossy bs ≠ [] := by
  obtain ⟨lead, rest, rfl⟩ := List.exists_cons_of_ne_nil h
  rw [decodeLossy]
  exact List.cons_ne_nil _ _

namespace Record

/-! ## Types -/

namespace TypeDescriptor

variable {d : TypeDescriptor} {flags : Flags} {name : Text}

/-- A type that is shown by a name has a decorated name. -/
theorem decoratedName_ne_nil (h : Gives memory (d.name demangler false true flags) name)
    (hname : name ≠ []) : d.decoratedName ≠ [] := by
  intro hnil
  unfold TypeDescriptor.name at h
  rw [hnil, List.isEmpty_nil, if_pos rfl] at h
  exact hname (gives_done.1 h)

theorem gives_decorated (h : d.decoratedName ≠ []) :
    Gives memory (d.name demangler false false flags) (Text.Utf8.decodeLossy d.decoratedName) := by
  unfold TypeDescriptor.name
  rw [List.isEmpty_eq_false_iff.2 h, if_neg Bool.false_ne_true]
  exact gives_done.2 rfl

end TypeDescriptor

/-! ## Locators -/

namespace Locator

variable {l : Locator}

/-- The locator leads to a type with a name that is not blank. -/
def HasName (memory : Memory) (frame : Frame) (demangler : Demangler) (l : Locator)
    (d : TypeDescriptor) (name : Text) : Prop :=
  Gives memory (l.type frame) (some d)
    ∧ Gives memory (d.name demangler false true .standard) name ∧ ¬ AllBlank name

theorem exists_hasName_of_isValid (h : Gives memory (l.isValid frame demangler) true) :
    ∃ d name, HasName memory frame demangler l d name := by
  unfold isValid at h
  simp only [bind_eq, pure_eq, gives_bind, gives_done] at h
  obtain ⟨type, htype, name, hname, hvisible⟩ := h
  have hblank : ¬ AllBlank name := by
    rw [← Text.trim_eq_nil_iff, ← List.isEmpty_iff]
    intro hempty
    rw [hempty] at hvisible
    cases hvisible
  cases type with
  | none =>
      obtain rfl := gives_done.1 hname
      exact absurd Text.allBlank_nil hblank
  | some d => exact ⟨d, name, htype, hname, hblank⟩

/-- A locator that is accepted lies where memory can be read, and has a name. -/
theorem exists_hasName_of_decode {a : Memory.Address}
    (h : Gives memory (decode frame demangler a) (some l)) :
    Id.run (memory.readable l.location) = true
      ∧ ∃ d name, HasName memory frame demangler l d name := by
  unfold decode Decode.readable at h
  simp only [bind_eq, pure_eq, Decode.bind, gives_ask] at h
  split at h
  · cases gives_done.1 h
  · rename_i hreadable
    obtain ⟨found, hfound, h⟩ := gives_bind.1 h
    cases found with
    | none => cases gives_done.1 h
    | some l' =>
        obtain ⟨valid, hvalid, h⟩ := gives_bind.1 h
        cases valid with
        | false => cases gives_done.1 (gives_note.1 h)
        | true =>
            obtain rfl := Option.some.inj (gives_done.1 h)
            obtain ⟨bs, -, rfl⟩ := gives_readFields_some.1 hfound
            have hanswer : memory.readable a = true := by simpa using hreadable
            exact ⟨hanswer, exists_hasName_of_isValid hvalid⟩

end Locator

end Record

namespace Lookup

open Record

variable {object : Memory.Address} {l : Locator}

/-! ## Objects -/

theorem exists_gives_decode {table : Memory.Address}
    (h : Gives memory (ofVftable frame demangler table) (some l)) :
    ∃ a, Gives memory (Locator.decode frame demangler a) (some l) := by
  unfold ofVftable at h
  obtain ⟨found, -, h⟩ := gives_bind.1 h
  cases found with
  | none => cases gives_done.1 (gives_note.1 h)
  | some a => exact ⟨a, h⟩

/-- The locator of an object lies where memory can be read, and has a name. -/
theorem exists_hasName_of_ofObject (h : Gives memory (ofObject frame demangler object) (some l)) :
    Id.run (memory.readable l.location) = true
      ∧ ∃ d name, Locator.HasName memory frame demangler l d name := by
  unfold ofObject at h
  obtain ⟨table, -, h⟩ := gives_bind.1 h
  cases table with
  | none => cases gives_done.1 (gives_note.1 h)
  | some table =>
      obtain ⟨a, ha⟩ := exists_gives_decode h
      exact Locator.exists_hasName_of_decode ha

theorem gives_typeName {d : TypeDescriptor} {demangle : Bool} {flags : Flags} {name : Text}
    (htype : Gives memory (l.type frame) (some d)) :
    Gives memory (typeName frame demangler l demangle flags) name ↔
      Gives memory (d.name demangler false demangle flags) name := by
  unfold typeName
  rw [bind_eq, gives_bind]
  constructor
  · rintro ⟨type, htype', hname⟩
    obtain rfl := htype.unique htype'
    exact hname
  · intro hname
    exact ⟨some d, htype, hname⟩

/-- The name of the class of an object is that of its locator, and nothing if it has none. -/
theorem gives_className {demangle : Bool} {flags : Flags} {name : Text} :
    Gives memory (className frame demangler object demangle flags) name ↔
      Gives memory (ofObject frame demangler object) none ∧ name = []
        ∨ ∃ l, Gives memory (ofObject frame demangler object) (some l)
          ∧ Gives memory (typeName frame demangler l demangle flags) name := by
  unfold className
  rw [bind_eq, gives_bind]
  constructor
  · rintro ⟨found, hfound, hname⟩
    cases found with
    | none => exact .inl ⟨hfound, gives_done.1 hname⟩
    | some l => exact .inr ⟨l, hfound, hname⟩
  · rintro (⟨hfound, rfl⟩ | ⟨l, hfound, hname⟩)
    · exact ⟨none, hfound, gives_done.2 rfl⟩
    · exact ⟨some l, hfound, hname⟩

/-- Where a locator is found, the class has a name to show, and a decorated one. -/
theorem exists_gives_className (hl : Gives memory (ofObject frame demangler object) (some l)) :
    (∃ name, Gives memory (className frame demangler object true .standard) name ∧ ¬ AllBlank name)
      ∧ ∃ name, Gives memory (className frame demangler object false .standard) name
        ∧ name ≠ [] := by
  obtain ⟨-, d, name, htype, hname, hblank⟩ := exists_hasName_of_ofObject hl
  have hdecorated : d.decoratedName ≠ [] :=
    TypeDescriptor.decoratedName_ne_nil hname fun hnil => hblank (hnil ▸ Text.allBlank_nil)
  refine ⟨⟨name, ?_, hblank⟩, _, ?_, Text.Utf8.decodeLossy_ne_nil hdecorated⟩
  · exact gives_className.2 (.inr ⟨l, hl, (gives_typeName htype).2 hname⟩)
  · exact gives_className.2
      (.inr ⟨l, hl, (gives_typeName htype).2 (TypeDescriptor.gives_decorated hdecorated)⟩)

/-- Looking up the name fails only where looking up the locator does. -/
theorem fails_className {demangle : Bool} {e : Error} :
    Fails memory (className frame demangler object demangle .standard) e ↔
      Fails memory (ofObject frame demangler object) e := by
  have hrest (found : Option Locator)
      (hfound : Gives memory (ofObject frame demangler object) found) :
      ∃ name, Gives memory (className frame demangler object demangle .standard) name := by
    cases found with
    | none => exact ⟨[], gives_className.2 (.inl ⟨hfound, rfl⟩)⟩
    | some l =>
        obtain ⟨⟨shown, hshown, -⟩, decorated, hdecorated, -⟩ := exists_gives_className hfound
        cases demangle with
        | true => exact ⟨shown, hshown⟩
        | false => exact ⟨decorated, hdecorated⟩
  constructor
  · intro h
    have hsplit := h
    unfold className at hsplit
    rcases fails_bind.1 hsplit with h' | ⟨found, hfound, -⟩
    · exact h'
    · obtain ⟨name, hname⟩ := hrest found hfound
      exact absurd h (hname.not_fails e)
  · intro h
    unfold className
    exact fails_bind.2 (.inl h)

/-- There is no name of the class of an object exactly if no locator is found, and looking it up
fails exactly if that does, with the decorated name as with the one that is shown.  A locator that
is found lies where memory can be read; the name that is shown for it is not blank, and the
decorated one is not empty. -/
theorem className_eq_nil_iff (memory : Memory) (demangler : Demangler) (object : Memory.Address) :
    (∀ demangle e, Fails memory (className memory.frame demangler object demangle .standard) e ↔
        Fails memory (ofObject memory.frame demangler object) e)
      ∧ (∀ demangle, Gives memory (className memory.frame demangler object demangle .standard) [] ↔
        Gives memory (ofObject memory.frame demangler object) none)
      ∧ ∀ l, Gives memory (ofObject memory.frame demangler object) (some l) →
        Id.run (memory.readable l.location) = true
          ∧ (∃ name, Gives memory (className memory.frame demangler object true .standard) name
            ∧ ∃ c ∈ name, isBlank c = false)
          ∧ ∃ name, Gives memory (className memory.frame demangler object false .standard) name
            ∧ name ≠ [] := by
  refine ⟨fun _ _ => fails_className, fun demangle => ⟨fun h => ?_, fun h => ?_⟩, fun l hl => ?_⟩
  · rcases gives_className.1 h with ⟨hnone, -⟩ | ⟨l, hl, -⟩
    · exact hnone
    · -- a name that is found is not empty
      obtain ⟨⟨shown, hshown, hblank⟩, decorated, hdecorated, hne⟩ := exists_gives_className hl
      cases demangle with
      | true => exact absurd (h.unique hshown ▸ Text.allBlank_nil) hblank
      | false => exact absurd (h.unique hdecorated).symm hne
  · exact gives_className.2 (.inl ⟨h, rfl⟩)
  · obtain ⟨⟨shown, hshown, hblank⟩, hdecorated⟩ := exists_gives_className hl
    exact ⟨(exists_hasName_of_ofObject hl).1,
      ⟨shown, hshown, Text.not_allBlank_iff.1 hblank⟩, hdecorated⟩

/-- A 64-bit image with an object of a class that has this decorated name: the object, its table
after the pointer to the locator, the locator, and the type. -/
def objectNamed (decorated : String) : Image where
  base := ⟨0x140000000⟩
  width := .bits64
  sections := [
    ⟨⟨0x140001000⟩, Hierarchy.wordBytes
      [0x40001010, 1, 0x40001020, 1, 0, 0, 0, 0, 1, 0, 0, 0x2000, 0]⟩,
    ⟨⟨0x140002000⟩, (Hierarchy.wordBytes [0, 0, 0, 0])
      ++ (Text.Utf8.encode decorated.toList ++ [0]).toArray⟩]

/-- The class `A`: an object of it has a locator, and the class has both names. -/
theorem className_eq_nil_iff_sample :
    Gives (objectNamed ".?AVA@@").memory
        (ofObject (objectNamed ".?AVA@@").memory.frame Decorated.demangler ⟨0x140001000⟩)
        (some ⟨⟨0x140001020⟩, 1, 0, 0, ⟨0x2000⟩, ⟨0⟩⟩)
      ∧ Id.run ((objectNamed ".?AVA@@").memory.readable ⟨0x140001020⟩) = true
      ∧ (∃ name, Gives (objectNamed ".?AVA@@").memory
          (className (objectNamed ".?AVA@@").memory.frame Decorated.demangler ⟨0x140001000⟩ true
            .standard) name
          ∧ ∃ c ∈ name, isBlank c = false)
      ∧ ∃ name, Gives (objectNamed ".?AVA@@").memory
          (className (objectNamed ".?AVA@@").memory.frame Decorated.demangler ⟨0x140001000⟩ false
            .standard) name
          ∧ name ≠ [] := by
  have hl : Gives (objectNamed ".?AVA@@").memory
      (ofObject (objectNamed ".?AVA@@").memory.frame Decorated.demangler ⟨0x140001000⟩)
      (some ⟨⟨0x140001020⟩, 1, 0, 0, ⟨0x2000⟩, ⟨0⟩⟩) := by decide +kernel
  exact ⟨hl, (className_eq_nil_iff _ _ _).2.2 _ hl⟩

end Lookup

end RttiProbe
