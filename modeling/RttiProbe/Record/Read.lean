import RttiProbe.Class.Grammar
import RttiProbe.Decorated.Demangler
import RttiProbe.Memory.CString
import RttiProbe.Record.Basic
/-!
# Reading records

Where the fields of each record lie in memory, and how one record leads to the next.  A record that
cannot be read, or a reference that leads out of the address space, is simply not there.  Nothing is
checked about a record that can be read, except by `Locator.decode`, which accepts a locator only if
it leads to a type with a name.
-/

set_option autoImplicit false

namespace RttiProbe.Record

open Memory (Address Offset)

/-! ## Fields -/

/-- The 32-bit field of a record that has `index` such fields before it. -/
def field (bs : Bytes) (index : Nat) : Bytes := (bs.drop (4 * index)).take 4

/-- A field that counts or marks. -/
def wordField (bs : Bytes) (index : Nat) : UInt32 := Memory.Word.toUInt32 (field bs index)

/-- A field that may be negative. -/
def signedField (bs : Bytes) (index : Nat) : Int32 := Memory.Word.toInt32 (field bs index)

/-- A field that refers to another record. -/
def offsetField (bs : Bytes) (index : Nat) : Offset := ⟨wordField bs index⟩

/-- Reads a record of `fields` 32-bit fields. -/
def readFields {α : Type} (a : Address) (fields : Nat) (build : Bytes → α) : Decode (Option α) :=
  .read a (4 * fields) fun answer => .done (answer.map build)

/-- Follows a reference, if it leads anywhere. -/
def follow {α : Type} (frame : Frame) (offset : Offset)
    (read : Address → Decode (Option α)) : Decode (Option α) :=
  match frame.resolve offset with
  | none => .done none
  | some a => read a

/-! ## Type descriptors -/

namespace TypeDescriptor

/-- Reads the type descriptor at an address: two pointers, and a decorated name after them. -/
def read (frame : Frame) (a : Address) : Decode (Option TypeDescriptor) := do
  let size := frame.width.bytes
  match a.add? size, a.add? (2 * size) with
  | some second, some third =>
    let some vftable ← Decode.pointer frame a | return none
    let some runtimeRef ← Decode.pointer frame second | return none
    let some decoratedName ← Memory.CString.narrow third | return none
    return some ⟨a, vftable, runtimeRef, decoratedName⟩
  | _, _ => return none

/-- The name of the type, empty if it cannot be told.  It is the decorated name as text, or what
the demangler shows for it; with `nameOnly`, the namespaces of the latter are left out. -/
def name (d : TypeDescriptor) (demangler : Demangler) (nameOnly demangle : Bool) (flags : Flags) :
    Decode Text :=
  if d.decoratedName.isEmpty then return []
  else if !demangle then return Text.Utf8.decodeLossy d.decoratedName
  else
    match demangler d.decoratedName flags with
    | none => do
      Decode.log .debug
        ("failed to demangle type descriptor at ".toList ++ d.location.display ++ ": ".toList
          ++ Text.Utf8.decodeLossy d.decoratedName)
      return []
    | some name => return if nameOnly then (Class.parse name).name else name

/-- The namespaces of the type. -/
def namespaces (d : TypeDescriptor) (demangler : Demangler) (flags : Flags) :
    Decode (List Text) := do
  let name ← d.name demangler false true flags
  return (Class.parse name).namespaces

end TypeDescriptor

/-- The name of a type that may be missing, demangled. -/
def nameOf (demangler : Demangler) : Option TypeDescriptor → Decode Text
  | none => return []
  | some d => d.name demangler false true .standard

/-! ## Base class descriptors -/

namespace BaseDescriptor

/-- The record that seven fields hold. -/
def ofFields (a : Address) (bs : Bytes) : BaseDescriptor where
  location := a
  typeDescriptor := offsetField bs 0
  subElementCount := wordField bs 1
  memberDisplacement := signedField bs 2
  vftableDisplacement := signedField bs 3
  displacementWithinVftable := signedField bs 4
  attributes := wordField bs 5
  hierarchyDescriptor := offsetField bs 6

/-- Reads the base class descriptor at an address. -/
def read (a : Address) : Decode (Option BaseDescriptor) := readFields a 7 (ofFields a)

/-- The type descriptor that the record refers to. -/
def type (frame : Frame) (d : BaseDescriptor) : Decode (Option TypeDescriptor) :=
  follow frame d.typeDescriptor (TypeDescriptor.read frame)

end BaseDescriptor

/-! ## Hierarchy descriptors -/

namespace HierarchyDescriptor

/-- The record that four fields hold. -/
def ofFields (a : Address) (bs : Bytes) : HierarchyDescriptor where
  location := a
  signature := wordField bs 0
  attributes := wordField bs 1
  baseCount := wordField bs 2
  baseArray := offsetField bs 3

/-- Reads the hierarchy descriptor at an address. -/
def read (a : Address) : Decode (Option HierarchyDescriptor) := readFields a 4 (ofFields a)

/-- Where a slot of the array is. -/
def slotAddress (frame : Frame) (h : HierarchyDescriptor) (index : Nat) : Option Address :=
  (frame.resolve h.baseArray).bind fun array => array.add? (4 * index)

/-- The base class descriptor that a slot of the array refers to.  The slots are numbered from
zero, which is the class itself. -/
def base (frame : Frame) (h : HierarchyDescriptor) (index : Nat) :
    Decode (Option BaseDescriptor) :=
  if h.baseCount.toNat ≤ index then return none
  else
    match slotAddress frame h index with
    | none => return none
    | some slot => do
      let some offset ← readFields slot 1 (offsetField · 0) | return none
      follow frame offset BaseDescriptor.read

/-- The base class descriptors from slot `index` on, at most `room` of them, after those that
`before` holds in reverse. -/
def basesFrom (frame : Frame) (h : HierarchyDescriptor) :
    (room index : Nat) → (before : List BaseDescriptor) → Decode (List BaseDescriptor)
  | 0, _, before => return before.reverse
  | room + 1, index, before => do
    let some d ← h.base frame index | return before.reverse
    basesFrom frame h room (index + 1) (d :: before)

/-- The base class descriptors of the array, up to the first that cannot be read. -/
def bases (frame : Frame) (h : HierarchyDescriptor) : Decode (List BaseDescriptor) :=
  h.basesFrom frame h.baseCount.toNat 0 []

end HierarchyDescriptor

/-- The hierarchy descriptor that a base class descriptor refers to. -/
def BaseDescriptor.hierarchy (frame : Frame) (d : BaseDescriptor) :
    Decode (Option HierarchyDescriptor) :=
  follow frame d.hierarchyDescriptor HierarchyDescriptor.read

/-! ## Locators -/

namespace Locator

/-- The record that five fields hold. -/
def ofFields (a : Address) (bs : Bytes) : Locator where
  location := a
  signature := wordField bs 0
  vftableOffset := wordField bs 1
  constructorDisplacement := wordField bs 2
  typeDescriptor := offsetField bs 3
  hierarchyDescriptor := offsetField bs 4

/-- Reads the locator at an address. -/
def read (a : Address) : Decode (Option Locator) := readFields a 5 (ofFields a)

/-- The type descriptor that the record refers to. -/
def type (frame : Frame) (l : Locator) : Decode (Option TypeDescriptor) :=
  follow frame l.typeDescriptor (TypeDescriptor.read frame)

/-- The hierarchy descriptor that the record refers to. -/
def hierarchy (frame : Frame) (l : Locator) : Decode (Option HierarchyDescriptor) :=
  follow frame l.hierarchyDescriptor HierarchyDescriptor.read

/-- Whether the record leads to a type whose name is not blank. -/
def isValid (frame : Frame) (demangler : Demangler) (l : Locator) : Decode Bool := do
  let name ← nameOf demangler (← l.type frame)
  return !(Text.trim name).isEmpty

/-- Reads the locator at an address if there is a valid one. -/
def decode (frame : Frame) (demangler : Demangler) (a : Address) : Decode (Option Locator) := do
  if !(← Decode.readable a) then return none
  let some l ← read a | return none
  if ← l.isValid frame demangler then return some l
  Decode.log .debug ("rejected complete object locator at ".toList ++ a.display)
  return none

end Locator

end RttiProbe.Record
