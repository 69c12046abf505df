import RttiProbe.Proofs.Hierarchy.Encoding
import RttiProbe.Proofs.Hierarchy.Walk
import RttiProbe.Proofs.Record.Rebasing
/-!
# Classes of rebased images

The rebuild of a class from an image and from the same image at another base.  Corresponding
descriptors are rebuilt in step as corresponding classes: the same trees, whose descriptors differ
in their addresses only.  Bases that are missing in one image are missing in the other, so both
walks advance by the same number of slots.
-/

set_option autoImplicit false

namespace RttiProbe

open Memory (Address)
open Record
open Decode (Quiet)

/-! ## Classes -/

namespace Class

mutual

/-- A class is another one whose descriptor, like those of all its bases, was found `delta` bytes
further up. -/
def Moved (delta : Int) : Class → Class → Prop
  | ⟨name, namespaces, arguments, bases, descriptor, isArgument⟩, c =>
    c = ⟨name, namespaces, arguments, c.bases, c.descriptor, isArgument⟩
      ∧ Option.Rel (Record.Moved delta) descriptor c.descriptor ∧ AllMoved delta bases c.bases

/-- The classes of a list are those of another, all moved. -/
def AllMoved (delta : Int) : List Class → List Class → Prop
  | [], cs => cs = []
  | c :: rest, cs => ∃ d others, cs = d :: others ∧ Moved delta c d ∧ AllMoved delta rest others

end

variable {delta : Int}

theorem allMoved_iff {cs ds : List Class} :
    AllMoved delta cs ds ↔ List.Forall₂ (Moved delta) cs ds := by
  induction cs generalizing ds with
  | nil => rw [AllMoved, List.forall₂_nil_left_iff]
  | cons c rest ih =>
      rw [AllMoved, List.forall₂_cons_left_iff]
      constructor
      · rintro ⟨d, others, rfl, hd, hothers⟩
        exact ⟨d, others, hd, ih.1 hothers, rfl⟩
      · rintro ⟨d, others, hd, hothers, rfl⟩
        exact ⟨d, others, rfl, hd, ih.2 hothers⟩

theorem moved_iff {c d : Class} :
    Moved delta c d ↔ d = { c with bases := d.bases, descriptor := d.descriptor }
      ∧ Option.Rel (Record.Moved delta) c.descriptor d.descriptor
      ∧ List.Forall₂ (Moved delta) c.bases d.bases := by
  cases c; rw [Moved, allMoved_iff]

mutual

theorem Moved.baseCount_eq : ∀ {c d : Class}, Moved delta c d → d.baseCount = c.baseCount
  | ⟨name, namespaces, arguments, bases, descriptor, isArgument⟩, d, h => by
    rw [Moved] at h
    rw [baseCount_eq, baseCount_eq]
    exact AllMoved.totalCount_eq h.2.2

theorem AllMoved.totalCount_eq :
    ∀ {cs ds : List Class}, AllMoved delta cs ds → totalCount ds = totalCount cs
  | [], ds, h => by
    rw [AllMoved] at h
    rw [h]
  | c :: rest, ds, h => by
    rw [AllMoved] at h
    obtain ⟨d, others, rfl, hd, hothers⟩ := h
    rw [totalCount, totalCount, Moved.baseCount_eq hd, AllMoved.totalCount_eq hothers]

end

end Class

/-! ## Rebuilds -/

namespace Image

variable {delta : Int} {image image' : Image}

theorem Rebased.inStep_walk (h : Rebased delta image image')
    {rebuild rebuild' : BaseDescriptor → Decode Class}
    (hrebuild : ∀ d d', Record.Moved delta d d' →
      InStep delta image image' (Class.Moved delta) (rebuild d) (rebuild' d'))
    {array array' : HierarchyDescriptor} (harray : Record.Moved delta array array') (name : Text)
    (last cursor : Nat) {before before' : List Class}
    (hbefore : List.Forall₂ (Class.Moved delta) before before') :
    InStep delta image image' (List.Forall₂ (Class.Moved delta))
      (Hierarchy.walk image.memory.frame rebuild array name last cursor before)
      (Hierarchy.walk image'.memory.frame rebuild' array' name last cursor before') := by
  induction cursor, before using Hierarchy.walk.induct last generalizing before' with
  | case1 cursor before hlast ih =>
      rw [Hierarchy.walk, Hierarchy.walk, dif_pos hlast, dif_pos hlast]
      refine (h.inStep_slot harray cursor).bind fun slot slot' hslot => ?_
      cases hslot with
      | none => exact .note (.same _) (.done (List.rel_reverse hbefore))
      | some hd =>
          refine (hrebuild _ _ hd).bind fun c c' hc => ?_
          -- corresponding classes have equally many bases, so the walks stay together
          rw [hc.baseCount_eq]
          exact ih c (.cons hc hbefore)
  | case2 cursor before hlast =>
      rw [Hierarchy.walk, Hierarchy.walk, dif_neg hlast, dif_neg hlast]
      exact .done (List.rel_reverse hbefore)

/-- The classes of corresponding descriptors correspond if their bases do. -/
theorem moved_classOf {d d' : BaseDescriptor} (hd : Record.Moved delta d d') (name : Text)
    {bases bases' : List Class} (hbases : List.Forall₂ (Class.Moved delta) bases bases') :
    Class.Moved delta (Hierarchy.classOf name d bases) (Hierarchy.classOf name d' bases') :=
  Class.moved_iff.2 ⟨rfl, .some hd, hbases⟩

/-- What is noted of a class whose bases cannot be followed names the address of its descriptor. -/
theorem moved_cut {d d' : BaseDescriptor} (hd : Record.Moved delta d d') (before after : Text) :
    Event.Moved delta (.cut (before ++ d.location.display ++ after))
      (.cut (before ++ d'.location.display ++ after)) := by
  obtain ⟨b, hab, rfl⟩ := hd
  exact .cut before after hab

theorem subElementCount_eq_of_moved {d d' : BaseDescriptor} (hd : Record.Moved delta d d') :
    d'.subElementCount = d.subElementCount := by
  obtain ⟨-, -, rfl⟩ := hd
  rfl

theorem lastSlot_eq_of_moved {d d' : BaseDescriptor} (hd : Record.Moved delta d d')
    {array array' : HierarchyDescriptor} (harray : Record.Moved delta array array') :
    Hierarchy.lastSlot d' array' = Hierarchy.lastSlot d array := by
  obtain ⟨-, -, rfl⟩ := hd
  obtain ⟨-, -, rfl⟩ := harray
  rfl

/-- Corresponding descriptors are rebuilt as corresponding classes. -/
theorem Rebased.inStep_build (h : Rebased delta image image') (demangler : Demangler) (depth : Nat)
    {d d' : BaseDescriptor} (hd : Record.Moved delta d d') :
    InStep delta image image' (Class.Moved delta)
      (Hierarchy.build image.memory.frame demangler depth d)
      (Hierarchy.build image'.memory.frame demangler depth d') := by
  induction depth using Nat.strongRecOn generalizing d d' with
  | ind depth ih =>
      rw [Hierarchy.build.eq_def, Hierarchy.build.eq_def]
      refine (h.inStep_baseType hd).bind fun type type' htype => ?_
      refine (inStep_nameOf htype demangler).bind ?_
      rintro name _ rfl
      dsimp only
      rw [subElementCount_eq_of_moved hd, Hierarchy.classOf_nil, Hierarchy.classOf_nil]
      have hleaf := moved_classOf hd name .nil
      split
      · exact .done hleaf
      · cases depth with
        | zero => exact .note (moved_cut hd _ _) (.done hleaf)
        | succ depth =>
            refine (h.inStep_baseHierarchy hd).bind fun array array' harray => ?_
            cases harray with
            | none =>
                have hentry := moved_cut hd
                  ("failed to read the class hierarchy descriptor of '".toList ++ name
                    ++ "' at ".toList) []
                rw [List.append_nil, List.append_nil] at hentry
                exact .note hentry (.done hleaf)
            | @some array array' harray =>
                have hbases := h.inStep_walk (fun _ _ he => ih depth depth.lt_succ_self he) harray
                  name (Hierarchy.lastSlot d array) 1 .nil
                dsimp only
                rw [lastSlot_eq_of_moved hd harray]
                exact hbases.bind fun bases bases' hmoved => .done (moved_classOf hd name hmoved)

/-- The whole rebuild of corresponding descriptors. -/
theorem Rebased.inStep_ofBase (h : Rebased delta image image') (demangler : Demangler)
    {d d' : BaseDescriptor} (hd : Record.Moved delta d d') :
    InStep delta image image' (Class.Moved delta)
      (Hierarchy.ofBase image.memory.frame demangler d)
      (Hierarchy.ofBase image'.memory.frame demangler d') :=
  (h.inStep_build demangler Hierarchy.maxDepth hd).bind fun _ _ hc => .note (.same _) (.done hc)

theorem Rebased.inStep_ofLocator (h : Rebased delta image image') (demangler : Demangler)
    {l l' : Locator} (hl : Record.Moved delta l l') :
    InStep delta image image' (Option.Rel (Class.Moved delta))
      (Hierarchy.ofLocator image.memory.frame demangler l)
      (Hierarchy.ofLocator image'.memory.frame demangler l') := by
  refine (h.inStep_locatorHierarchy hl).bind fun array array' harray => ?_
  cases harray with
  | none => exact .done .none
  | some harray =>
      refine (h.inStep_slot harray 0).bind fun d d' hd => ?_
      cases hd with
      | none => exact .done .none
      | some hd => exact (h.inStep_ofBase demangler hd).bind fun _ _ hc => .done (.some hc)

/-! ## Classes by the address of a locator -/

/-- The locator at an address, checked for a type with a name if asked to. -/
def locatorAt (frame : Frame) (demangler : Demangler) (checked : Bool) (a : Address) :
    Decode (Option Locator) :=
  if checked then Locator.decode frame demangler a else Locator.read a

/-- The locator at an address and the class that it describes. -/
def classAt (frame : Frame) (demangler : Demangler) (checked : Bool) (a : Address) :
    Decode (Option (Locator × Option Class)) := do
  let some l ← locatorAt frame demangler checked a | return none
  return some (l, ← Hierarchy.ofLocator frame demangler l)

/-- The same is decoded from two images, but for addresses: what is found in the second is what is
found in the first, `delta` bytes further up. -/
structure DecodesAlike (delta : Int) (image image' : Image) (demangler : Demangler) : Prop where
  /-- the locators at corresponding addresses describe the same class, or there is none -/
  classes : ∀ (checked : Bool) (a b : Address), a.Moved delta b →
    InStep delta image image'
      (Option.Rel fun x y => Record.Moved delta x.1 y.1 ∧ Option.Rel (Class.Moved delta) x.2 y.2)
      (classAt image.memory.frame demangler checked a)
      (classAt image'.memory.frame demangler checked b)
  /-- there is no locator at an address without a counterpart -/
  lower : ∀ (checked : Bool) (a : Address), (∀ b, ¬a.Moved delta b) →
    Quiet image.memory (classAt image.memory.frame demangler checked a) none
  /-- nor at one that is no counterpart -/
  upper : ∀ (checked : Bool) (b : Address), (∀ a : Address, ¬a.Moved delta b) →
    Quiet image'.memory (classAt image'.memory.frame demangler checked b) none
  /-- a slot of an array that leads to no descriptor in one image leads to none in the other -/
  slots : ∀ (h h' : HierarchyDescriptor), Record.Moved delta h h' → ∀ index,
    InStep delta image image' (Option.Rel (Record.Moved delta)) (h.base image.memory.frame index)
      (h'.base image'.memory.frame index)
  /-- the same holds of references to types -/
  types : ∀ (d d' : BaseDescriptor), Record.Moved delta d d' →
    InStep delta image image' (Option.Rel (Record.Moved delta)) (d.type image.memory.frame)
      (d'.type image'.memory.frame)
  /-- and of references to hierarchies -/
  hierarchies : ∀ (d d' : BaseDescriptor), Record.Moved delta d d' →
    InStep delta image image' (Option.Rel (Record.Moved delta)) (d.hierarchy image.memory.frame)
      (d'.hierarchy image'.memory.frame)

/-- Where nothing is mapped there is no locator, checked or not. -/
theorem quiet_classAt {a : Address} (ha : image.Unmapped a) (frame : Frame)
    (demangler : Demangler) (checked : Bool) :
    Quiet image.memory (classAt frame demangler checked a) none := by
  have hlocator : Quiet image.memory (locatorAt frame demangler checked a) none := by
    cases checked with
    | false => exact quiet_readFields ha 5
    | true =>
        have hreadable : image.memory.readable a = false := by
          show (image.slice? a 1).isSome = false
          rw [ha.slice?_eq_none]
          rfl
        refine .ask ?_
        rw [hreadable]
        exact .done none
  exact hlocator.bind (.done none)

theorem Rebased.inStep_classAt (h : Rebased delta image image') (demangler : Demangler)
    (checked : Bool) {a b : Address} (hab : a.Moved delta b) :
    InStep delta image image'
      (Option.Rel fun x y => Record.Moved delta x.1 y.1 ∧ Option.Rel (Class.Moved delta) x.2 y.2)
      (classAt image.memory.frame demangler checked a)
      (classAt image'.memory.frame demangler checked b) := by
  have hlocator : InStep delta image image' (Option.Rel (Record.Moved delta))
      (locatorAt image.memory.frame demangler checked a)
      (locatorAt image'.memory.frame demangler checked b) := by
    cases checked with
    | false => exact h.inStep_readLocator hab
    | true => exact h.inStep_decodeLocator hab demangler
  refine hlocator.bind fun l l' hl => ?_
  cases hl with
  | none => exact .done .none
  | some hl => exact (h.inStep_ofLocator demangler hl).bind fun _ _ hc => .done (.some ⟨hl, hc⟩)

/-- What is decoded from a 64-bit image does not depend on where it is loaded. -/
theorem Rebased.decodesAlike (h : Rebased delta image image') (demangler : Demangler) :
    DecodesAlike delta image image' demangler where
  classes checked _ _ := h.inStep_classAt demangler checked
  lower checked _ ha := quiet_classAt (h.unmapped_of_not_moved ha) _ demangler checked
  upper checked b hb :=
    quiet_classAt (h.symm.unmapped_of_not_moved fun a hab => hb a (by simpa using hab.symm))
      _ demangler checked
  slots _ _ hd := h.inStep_slot hd
  types _ _ hd := h.inStep_baseType hd
  hierarchies _ _ hd := h.inStep_baseHierarchy hd

/-- An image with a locator at its base, and a class whose array has a second slot.  The slot leads
far past the end of the image. -/
def sampleModule (base : UInt64) : Image where
  base := ⟨base⟩
  width := .bits64
  sections := [⟨⟨base⟩, Hierarchy.wordBytes
    [1, 0, 0, 0x14, 0x28,
      0, 0, 0, 0, 0x41,
      0, 0, 2, 0x38,
      0x40, 0xFFFFFFFF,
      0x14, 1, 0, 0xFFFFFFFF, 0, 0x40, 0x28]⟩]

/-- At the bottom of the address space the second slot leads to an address without memory, at the
top it leads to no address. -/
theorem decodesAlike_sample :
    Rebased 0xFFFFFFFFFFFFFFA4 (sampleModule 0) (sampleModule (0 - 0x5C))
      ∧ DecodesAlike 0xFFFFFFFFFFFFFFA4 (sampleModule 0) (sampleModule (0 - 0x5C))
        Hierarchy.plainDemangler := by
  have hbase : Address.Moved 0xFFFFFFFFFFFFFFA4 ⟨0⟩ ⟨0 - 0x5C⟩ := by
    unfold Address.Moved
    decide
  have h : Rebased 0xFFFFFFFFFFFFFFA4 (sampleModule 0) (sampleModule (0 - 0x5C)) :=
    ⟨rfl, rfl, hbase, .cons ⟨hbase, rfl⟩ .nil, by decide, by decide⟩
  exact ⟨h, h.decodesAlike Hierarchy.plainDemangler⟩

end Image

end RttiProbe
