import RttiProbe.Proofs.Hierarchy.Walk
import RttiProbe.Proofs.Memory.Strings
/-!
# Layouts of records

How a compiler lays a record out, and that reading undoes it: wherever a section of an image holds
the layout of a record, the record is read from there, with every field as it was.  `Record.words`
lists the 32-bit fields of a record in the order of the layout; a type descriptor has two pointers
instead, whose size is that of the target, and a name of any length after them.

The references among the fields lead to an address that is the same in a 32-bit module wherever it
is loaded, and relative to the base of a 64-bit one.
-/

set_option autoImplicit false

namespace RttiProbe

open Memory (Address Offset PointerWidth)
open Memory.CString (maxUnits)
open Decode (Gives gives_bind gives_done gives_read)

/-! ## Words -/

theorem Memory.Word.ofBytes_toBytes_of_lt {count n : Nat} (h : n < Nat.pow 256 count) :
    Memory.Word.ofBytes (Memory.Word.toBytes count n) = n := by
  rw [Memory.Word.ofBytes_toBytes]
  exact Nat.mod_eq_of_lt h

namespace Record

/-- The bytes of a record that consists of 32-bit fields. -/
def fieldBytes (words : List UInt32) : Bytes :=
  words.flatMap fun word => Memory.Word.toBytes 4 word.toNat

theorem fieldBytes_cons (word : UInt32) (rest : List UInt32) :
    fieldBytes (word :: rest) = Memory.Word.toBytes 4 word.toNat ++ fieldBytes rest :=
  List.flatMap_cons

theorem length_fieldBytes (words : List UInt32) : (fieldBytes words).length = 4 * words.length := by
  induction words with
  | nil => rfl
  | cons word rest ih =>
      rw [fieldBytes_cons, List.length_append, Memory.Word.length_toBytes, ih, List.length_cons]
      omega

/-- Each field of a record is where as many fields are before it as in its layout. -/
theorem wordField_fieldBytes {words : List UInt32} {i : Nat} {word : UInt32}
    (h : words[i]? = some word) : wordField (fieldBytes words) i = word := by
  induction words generalizing i with
  | nil => cases h
  | cons first rest ih =>
      cases i with
      | zero =>
          obtain rfl := Option.some.inj h
          have hfield : field (fieldBytes (first :: rest)) 0
              = Memory.Word.toBytes 4 first.toNat := by
            rw [fieldBytes_cons, field, List.drop_zero]
            exact List.take_left' (Memory.Word.length_toBytes 4 first.toNat)
          have hvalue : Memory.Word.ofBytes (Memory.Word.toBytes 4 first.toNat) = first.toNat :=
            Memory.Word.ofBytes_toBytes_of_lt first.toNat_lt
          rw [wordField, hfield, Memory.Word.toUInt32, hvalue, UInt32.ofNat_toNat]
      | succ i =>
          have hfield : field (fieldBytes (first :: rest)) (i + 1) = field (fieldBytes rest) i := by
            rw [fieldBytes_cons, field, field, Nat.mul_succ, Nat.add_comm, ← List.drop_drop,
              List.drop_left' (Memory.Word.length_toBytes 4 first.toNat)]
          rw [wordField, hfield]
          exact ih h

/-! ## Layouts -/

/-- The fields of a locator, in the order of its layout. -/
def Locator.words (l : Locator) : List UInt32 :=
  [l.signature, l.vftableOffset, l.constructorDisplacement, l.typeDescriptor.word,
    l.hierarchyDescriptor.word]

/-- The fields of a hierarchy descriptor, in the order of its layout. -/
def HierarchyDescriptor.words (h : HierarchyDescriptor) : List UInt32 :=
  [h.signature, h.attributes, h.baseCount, h.baseArray.word]

/-- The fields of a base class descriptor, in the order of its layout.  Displacements are laid out
in two's complement. -/
def BaseDescriptor.words (d : BaseDescriptor) : List UInt32 :=
  [d.typeDescriptor.word, d.subElementCount, d.memberDisplacement.toUInt32,
    d.vftableDisplacement.toUInt32, d.displacementWithinVftable.toUInt32, d.attributes,
    d.hierarchyDescriptor.word]

/-- A type descriptor as it is laid out for a target: two pointers, and the name with a zero byte
after it. -/
def TypeDescriptor.layout (width : PointerWidth) (d : TypeDescriptor) : Bytes :=
  Memory.Word.toBytes width.bytes d.vftable.toNat
    ++ (Memory.Word.toBytes width.bytes d.runtimeRef.toNat ++ (d.decoratedName ++ [0]))

/-- A type descriptor that a target can hold: its pointers are no wider than those of the target,
and its name can be told from what follows it. -/
structure TypeDescriptor.IsStorable (width : PointerWidth) (d : TypeDescriptor) : Prop where
  vftable : d.vftable.toNat < Nat.pow 256 width.bytes
  runtimeRef : d.runtimeRef.toNat < Nat.pow 256 width.bytes
  nonzero : 0 ∉ d.decoratedName
  bounded : d.decoratedName.length ≤ maxUnits

/-! The fields of a record are found in the bytes of its layout. -/

theorem Locator.ofFields_words (l : Locator) : ofFields l.location (fieldBytes l.words) = l := by
  have hfield {i : Nat} {word : UInt32} (h : l.words[i]? = some word) :
      wordField (fieldBytes l.words) i = word := wordField_fieldBytes h
  rw [ofFields, offsetField, offsetField, hfield (i := 0) rfl, hfield (i := 1) rfl,
    hfield (i := 2) rfl, hfield (i := 3) rfl, hfield (i := 4) rfl]

theorem HierarchyDescriptor.ofFields_words (h : HierarchyDescriptor) :
    ofFields h.location (fieldBytes h.words) = h := by
  have hfield {i : Nat} {word : UInt32} (hword : h.words[i]? = some word) :
      wordField (fieldBytes h.words) i = word := wordField_fieldBytes hword
  rw [ofFields, offsetField, hfield (i := 0) rfl, hfield (i := 1) rfl, hfield (i := 2) rfl,
    hfield (i := 3) rfl]

theorem signedField_fieldBytes {words : List UInt32} {i : Nat} {n : Int32}
    (h : words[i]? = some n.toUInt32) : signedField (fieldBytes words) i = n := by
  have hword : signedField (fieldBytes words) i = (wordField (fieldBytes words) i).toInt32 := rfl
  rw [hword, wordField_fieldBytes h, Int32.toInt32_toUInt32]

theorem BaseDescriptor.ofFields_words (d : BaseDescriptor) :
    ofFields d.location (fieldBytes d.words) = d := by
  have hfield {i : Nat} {word : UInt32} (h : d.words[i]? = some word) :
      wordField (fieldBytes d.words) i = word := wordField_fieldBytes h
  have hsigned {i : Nat} {n : Int32} (h : d.words[i]? = some n.toUInt32) :
      signedField (fieldBytes d.words) i = n := signedField_fieldBytes h
  rw [ofFields, offsetField, offsetField, hfield (i := 0) rfl, hfield (i := 1) rfl,
    hsigned (i := 2) rfl, hsigned (i := 3) rfl, hsigned (i := 4) rfl, hfield (i := 5) rfl,
    hfield (i := 6) rfl]

end Record

/-! ## What an image holds -/

namespace Image

variable {image : Image} {a b : Address} {bs before rest : Bytes}

/-- A section of the image has these bytes from an address on. -/
def Holds (image : Image) (a : Address) (bs : Bytes) : Prop :=
  ∃ s ∈ image.sections, s.start.toNat ≤ a.toNat
    ∧ bs <+: s.contents.toList.drop (a.toNat - s.start.toNat)

instance (image : Image) (a : Address) (bs : Bytes) : Decidable (image.Holds a bs) :=
  inferInstanceAs (Decidable (∃ s ∈ image.sections, _))

theorem Holds.left (h : image.Holds a (bs ++ rest)) : image.Holds a bs := by
  obtain ⟨s, hs, hstart, hprefix⟩ := h
  exact ⟨s, hs, hstart, (List.prefix_append bs rest).trans hprefix⟩

/-- What comes after other bytes is held as many places further up. -/
theorem Holds.right (h : image.Holds a (before ++ bs)) (hb : b.toNat = a.toNat + before.length) :
    image.Holds b bs := by
  obtain ⟨s, hs, hstart, hprefix⟩ := h
  refine ⟨s, hs, by omega, ?_⟩
  have hoffset : b.toNat - s.start.toNat = a.toNat - s.start.toNat + before.length := by omega
  obtain ⟨tail, htail⟩ := hprefix
  rw [hoffset, ← List.drop_drop, ← htail, List.append_assoc, List.drop_left]
  exact List.prefix_append bs tail

/-- A section ends no sooner than the bytes that it has. -/
theorem Section.add_length_le_stop {s : Section} (hstart : s.start.toNat ≤ a.toNat)
    (hne : bs ≠ []) (h : bs <+: s.contents.toList.drop (a.toNat - s.start.toNat)) :
    a.toNat + bs.length ≤ s.stop := by
  have hlength := h.length_le
  have hpos := List.length_pos_iff.2 hne
  have hsize : s.contents.toList.length = s.contents.size := Array.length_toList
  rw [List.length_drop, hsize] at hlength
  unfold Section.stop
  omega

/-- A read gives what is held. -/
theorem Holds.read (h : image.IsLaidOut) (hheld : image.Holds a bs) (hne : bs ≠ []) :
    image.memory.read a bs.length = .ok bs := by
  obtain ⟨s, hs, hstart, hprefix⟩ := hheld
  have hstop := Section.add_length_le_stop hstart hne hprefix
  have hpos := List.length_pos_iff.2 hne
  refine read_eq_ok_iff.2 (h.slice?_eq hs (Section.slice?_eq_some_iff.2
    ⟨hstart, by omega, hstop, ?_⟩))
  exact (List.prefix_iff_eq_take.1 hprefix).symm

theorem Holds.answers (h : image.IsLaidOut) (hheld : image.Holds a bs) (hne : bs ≠ []) :
    image.memory.Answers a bs.length (some bs) := by
  unfold Memory.Answers
  rw [hheld.read h hne]

/-- What is held lies within the address space. -/
theorem Holds.exists_add? (h : image.IsLaidOut) (hheld : image.Holds a (before ++ bs))
    (hne : bs ≠ []) : ∃ b, a.add? before.length = some b ∧ image.Holds b bs := by
  obtain ⟨s, hs, hstart, hprefix⟩ := id hheld
  have hstop := Section.add_length_le_stop hstart (List.append_ne_nil_of_right_ne_nil _ hne) hprefix
  have hfits := h.fits s hs
  have hpos := List.length_pos_iff.2 hne
  rw [List.length_append] at hstop
  cases hb : a.add? before.length with
  | none =>
      have hoverflow := Address.add?_eq_none_iff.1 hb
      omega
  | some b => exact ⟨b, rfl, hheld.right (Address.add?_eq_some_iff.1 hb)⟩

/-! ## Reading what is held -/

open Record

/-- A record of 32-bit fields is built from the bytes that are held. -/
theorem Holds.gives_readFields {α : Type} {words : List UInt32} {build : Bytes → α} {x : α}
    (h : image.IsLaidOut) (hheld : image.Holds a (fieldBytes words)) (hne : words ≠ [])
    (hbuild : build (fieldBytes words) = x) :
    Gives image.memory (readFields a words.length build) (some x) := by
  have hlength := length_fieldBytes words
  have hpos := List.length_pos_iff.2 hne
  have hbytes : fieldBytes words ≠ [] := List.length_pos_iff.1 (by omega)
  exact gives_readFields_some.2 ⟨_, hlength ▸ hheld.answers h hbytes, hbuild.symm⟩

theorem Holds.gives_pointer {frame : Frame} {pointer : Address} (h : image.IsLaidOut)
    (hheld : image.Holds a (Memory.Word.toBytes frame.width.bytes pointer.toNat))
    (hfits : pointer.toNat < Nat.pow 256 frame.width.bytes) :
    Gives image.memory (Decode.pointer frame a) (some pointer) := by
  have hlength := Memory.Word.length_toBytes frame.width.bytes pointer.toNat
  have hpos : 0 < frame.width.bytes := by cases frame.width <;> decide
  have hbytes : Memory.Word.toBytes frame.width.bytes pointer.toNat ≠ [] :=
    List.length_pos_iff.1 (by omega)
  have hanswer := hheld.answers h hbytes
  rw [hlength] at hanswer
  refine gives_read.2 ⟨_, hanswer, gives_done.2 ?_⟩
  rw [Option.bind_some, Memory.Word.ofBytes_toBytes_of_lt hfits, Address.ofNat?_toNat]

/-- A name is read up to the zero byte that is held after it. -/
theorem Holds.gives_narrow {name : Bytes} (h : image.IsLaidOut)
    (hheld : image.Holds a (name ++ [0])) (hnonzero : 0 ∉ name) (hbound : name.length ≤ maxUnits) :
    Gives image.memory (Memory.CString.narrow a) (some name) := by
  have hread := hheld.read h (List.append_ne_nil_of_right_ne_nil name (List.cons_ne_nil 0 []))
  have hstring := Memory.CString.isString_of_zero h.bytewise Memory.CString.stands_nil
    (Address.add?_zero a) hread hnonzero hbound
  exact ((Memory.CString.readsString_of_bytewise h.bytewise a).gives_iff _).2 hstring

theorem width_frame (image : Image) : image.memory.frame.width = image.width := by
  have hmemory : image.memory.width = image.width := rfl
  unfold Accessor.frame
  rw [hmemory]
  cases image.width <;> rfl

/-- A type descriptor is read from where its layout is held. -/
theorem Holds.gives_readType {frame : Frame} {d : TypeDescriptor} (h : image.IsLaidOut)
    (hd : d.IsStorable frame.width) (hheld : image.Holds d.location (d.layout frame.width)) :
    Gives image.memory (TypeDescriptor.read frame d.location) (some d) := by
  have hname : d.decoratedName ++ [0] ≠ [] :=
    List.append_ne_nil_of_right_ne_nil _ (List.cons_ne_nil 0 [])
  obtain ⟨second, hsecond, hrest⟩ :=
    hheld.exists_add? h (List.append_ne_nil_of_right_ne_nil _ hname)
  rw [Memory.Word.length_toBytes] at hsecond
  have hthird : ∃ third, d.location.add? (2 * frame.width.bytes) = some third
      ∧ image.Holds third (d.decoratedName ++ [0]) := by
    unfold TypeDescriptor.layout at hheld
    rw [← List.append_assoc] at hheld
    have hlength : 2 * frame.width.bytes = (Memory.Word.toBytes frame.width.bytes d.vftable.toNat
        ++ Memory.Word.toBytes frame.width.bytes d.runtimeRef.toNat).length := by
      rw [List.length_append, Memory.Word.length_toBytes, Memory.Word.length_toBytes, Nat.two_mul]
    exact hlength ▸ hheld.exists_add? h hname
  obtain ⟨third, hthird, hnameHeld⟩ := hthird
  unfold TypeDescriptor.read
  dsimp only
  rw [hsecond, hthird]
  refine gives_bind.2 ⟨_, hheld.left.gives_pointer h hd.vftable, ?_⟩
  refine gives_bind.2 ⟨_, hrest.left.gives_pointer h hd.runtimeRef, ?_⟩
  refine gives_bind.2 ⟨_, hnameHeld.gives_narrow h hd.nonzero hd.bounded, ?_⟩
  exact gives_done.2 rfl

/-! ## References -/

/-- Where an offset leads, as a number that need not be an address. -/
def target (image : Image) (offset : Offset) : Nat :=
  match image.width with
  | .bits32 => offset.toNat
  | .bits64 => image.base.toNat + offset.toNat

theorem resolve_eq_ofNat? (image : Image) (offset : Offset) :
    image.memory.frame.resolve offset = Address.ofNat? (image.target offset) := by
  have hmemory : image.memory.width = image.width := rfl
  unfold Frame.resolve Offset.resolve Address.add? Accessor.frame target
  rw [hmemory]
  cases image.width with
  | bits32 =>
      have hnull : Address.null.toNat = 0 := rfl
      dsimp only
      rw [hnull, Nat.zero_add]
  | bits64 => rfl

/-- A reference leads to its target, if that is an address, and to nothing otherwise. -/
structure Leads {α : Type} (image : Image) (offset : Offset) (read : Address → Decode (Option α))
    (reference : Decode (Option α)) : Prop where
  found : ∀ a : Address, a.toNat = image.target offset → reference = read a
  lost : UInt64.size ≤ image.target offset → reference = .done none

theorem leads_follow {α : Type} (image : Image) (offset : Offset)
    (read : Address → Decode (Option α)) :
    image.Leads offset read (follow image.memory.frame offset read) where
  found a ha := by
    rw [follow, resolve_eq_ofNat?, Address.ofNat?_eq_some_iff.2 ha]
  lost hlost := by
    rw [follow, resolve_eq_ofNat?, Address.ofNat?_eq_none_iff.2 hlost]

/-- A slot of an array lies as many offsets above the target of the array as there are slots before
it. -/
theorem slotAddress_eq_ofNat? (image : Image) (h : HierarchyDescriptor) (index : Nat) :
    h.slotAddress image.memory.frame index
      = Address.ofNat? (image.target h.baseArray + 4 * index) := by
  rw [HierarchyDescriptor.slotAddress, resolve_eq_ofNat?]
  cases harray : Address.ofNat? (image.target h.baseArray) with
  | some array => rw [Option.bind_some, Address.add?, Address.ofNat?_eq_some_iff.1 harray]
  | none =>
      have hlost := Address.ofNat?_eq_none_iff.1 harray
      exact (Address.ofNat?_eq_none_iff.2 (Nat.le_add_right_of_le hlost)).symm

/-! ## Records -/

/-- Reading undoes the layout of records, and their references lead where they should. -/
structure ReadsBack (image : Image) : Prop where
  locator : ∀ l : Locator, image.Holds l.location (fieldBytes l.words) →
    Gives image.memory (Locator.read l.location) (some l)
  hierarchy : ∀ h : HierarchyDescriptor, image.Holds h.location (fieldBytes h.words) →
    Gives image.memory (HierarchyDescriptor.read h.location) (some h)
  base : ∀ d : BaseDescriptor, image.Holds d.location (fieldBytes d.words) →
    Gives image.memory (BaseDescriptor.read d.location) (some d)
  type : ∀ d : TypeDescriptor, d.IsStorable image.width →
    image.Holds d.location (d.layout image.width) →
    Gives image.memory (TypeDescriptor.read image.memory.frame d.location) (some d)
  locatorType : ∀ l : Locator, image.Leads l.typeDescriptor
    (TypeDescriptor.read image.memory.frame) (l.type image.memory.frame)
  locatorHierarchy : ∀ l : Locator, image.Leads l.hierarchyDescriptor HierarchyDescriptor.read
    (l.hierarchy image.memory.frame)
  baseType : ∀ d : BaseDescriptor, image.Leads d.typeDescriptor
    (TypeDescriptor.read image.memory.frame) (d.type image.memory.frame)
  baseHierarchy : ∀ d : BaseDescriptor, image.Leads d.hierarchyDescriptor HierarchyDescriptor.read
    (d.hierarchy image.memory.frame)
  /-- the slots of an array are where its offset leads, one offset after another -/
  slot : ∀ (h : HierarchyDescriptor) (index : Nat) (a : Address),
    h.slotAddress image.memory.frame index = some a
      ↔ a.toNat = image.target h.baseArray + 4 * index
  noSlot : ∀ (h : HierarchyDescriptor) (index : Nat),
    h.slotAddress image.memory.frame index = none
      ↔ UInt64.size ≤ image.target h.baseArray + 4 * index

/-- What an image holds the layout of is read back from it, for targets of either kind. -/
theorem reads_back (image : Image) (h : image.IsLaidOut) : image.ReadsBack where
  locator l hl := hl.gives_readFields h (List.cons_ne_nil _ _) l.ofFields_words
  hierarchy d hd := hd.gives_readFields h (List.cons_ne_nil _ _) d.ofFields_words
  base d hd := hd.gives_readFields h (List.cons_ne_nil _ _) d.ofFields_words
  type d hstorable hd := by
    rw [← image.width_frame] at hstorable hd
    exact hd.gives_readType h hstorable
  locatorType l := image.leads_follow l.typeDescriptor _
  locatorHierarchy l := image.leads_follow l.hierarchyDescriptor _
  baseType d := image.leads_follow d.typeDescriptor _
  baseHierarchy d := image.leads_follow d.hierarchyDescriptor _
  slot d index a := by
    rw [slotAddress_eq_ofNat?, Address.ofNat?_eq_some_iff]
  noSlot d index := by
    rw [slotAddress_eq_ofNat?, Address.ofNat?_eq_none_iff]

def sampleType : TypeDescriptor :=
  ⟨⟨0x7FF600001040⟩, ⟨0xFFFF800000002000⟩, ⟨0⟩, [0x2E, 0x3F, 0x41, 0x56, 0x41, 0x40, 0x40]⟩

def sampleBase : BaseDescriptor :=
  ⟨⟨0x7FF600001024⟩, ⟨0x1040⟩, 0xFFFFFFFF, -8, -1, 4, 0x40, ⟨0x1014⟩⟩

def sampleHierarchy : HierarchyDescriptor := ⟨⟨0x7FF600001014⟩, 0, 3, 0x80000001, ⟨0x1060⟩⟩

def sampleLocator : Locator := ⟨⟨0x7FF600001000⟩, 1, 8, 0xFFFFFFF8, ⟨0x1040⟩, ⟨0x1014⟩⟩

/-- A 64-bit image with one record of each kind, one after another. -/
def recordImage : Image where
  base := ⟨0x7FF600000000⟩
  width := .bits64
  sections := [⟨⟨0x7FF600001000⟩, (fieldBytes sampleLocator.words
    ++ fieldBytes sampleHierarchy.words ++ fieldBytes sampleBase.words
    ++ sampleType.layout .bits64).toArray⟩]

theorem reads_back_sample : recordImage.IsLaidOut
    ∧ Gives recordImage.memory (Locator.read ⟨0x7FF600001000⟩) (some sampleLocator)
    ∧ Gives recordImage.memory (HierarchyDescriptor.read ⟨0x7FF600001014⟩) (some sampleHierarchy)
    ∧ Gives recordImage.memory (BaseDescriptor.read ⟨0x7FF600001024⟩) (some sampleBase)
    ∧ Gives recordImage.memory (sampleLocator.type recordImage.memory.frame) (some sampleType)
    ∧ sampleHierarchy.slotAddress recordImage.memory.frame 1 = some ⟨0x7FF600001064⟩ := by
  have hlaid : recordImage.IsLaidOut := ⟨List.pairwise_singleton _ _, by decide⟩
  have hback := reads_back recordImage hlaid
  have htype := (hback.locatorType sampleLocator).found sampleType.location (by decide)
  have hstorable : sampleType.IsStorable .bits64 := ⟨by decide, by decide, by decide, by decide⟩
  refine ⟨hlaid, hback.locator sampleLocator (by decide),
    hback.hierarchy sampleHierarchy (by decide), hback.base sampleBase (by decide), ?_,
    (hback.slot sampleHierarchy 1 _).2 (by decide)⟩
  rw [htype]
  exact hback.type sampleType hstorable (by decide)

end Image

end RttiProbe
