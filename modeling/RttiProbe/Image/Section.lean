import RttiProbe.Memory.Accessor
/-!
# Images as memory

The memory of a module laid out at fixed addresses: a list of sections, each a run of bytes at an
address.  A read has to lie within one section, and the first section that holds all of it answers.
Where a read starts has to be an address of the section, so even a read of no bytes needs a mapped
address.
-/

set_option autoImplicit false

namespace RttiProbe

namespace Image

/-- A run of bytes at an address. -/
structure Section where
  start : Memory.Address
  contents : Array UInt8
  deriving DecidableEq, Repr, Inhabited

/-- The bytes that a section holds at an address, if it holds all of them. -/
def Section.slice? (s : Section) (a : Memory.Address) (n : Nat) : Option Bytes :=
  let offset := a.toNat - s.start.toNat
  if s.start.toNat ≤ a.toNat ∧ offset < s.contents.size ∧ offset + n ≤ s.contents.size then
    some (s.contents.extract offset (offset + n)).toList
  else none

end Image

/-- A module laid out in memory. -/
structure Image where
  /-- where the module is loaded -/
  base : Memory.Address
  width : Memory.PointerWidth
  sections : List Image.Section
  deriving DecidableEq, Repr, Inhabited

namespace Image

/-- The bytes that the first section to hold them has at an address. -/
def slice? (image : Image) (a : Memory.Address) (n : Nat) : Option Bytes :=
  image.sections.findSome? fun s => s.slice? a n

/-- Whether the byte at an address may be read. -/
def isReadable (image : Image) (a : Memory.Address) : Bool := (image.slice? a 1).isSome

/-- The bytes at an address. -/
def readBytes (image : Image) (a : Memory.Address) (n : Nat) : Except Error Bytes :=
  match image.slice? a n with
  | some bs => .ok bs
  | none => .error (.unreadable a)

/-- The image as the memory of a target. -/
def memory (image : Image) : Memory where
  width := image.width
  moduleBase := image.base
  readable a := image.isReadable a
  read a n := image.readBytes a n

end Image

end RttiProbe
