import RttiProbe.Error
/-!
# Access to a target's memory

An accessor answers two questions about an address space: whether an address may be read, and which
bytes are there.  It also says how wide a pointer of the target is and where the module under study
is loaded.  The answers come in a monad of their own, so that an accessor can be a value (`Memory`,
over `Id`), can keep state, or can read a process that runs.
-/

set_option autoImplicit false

namespace RttiProbe

/-- A way to read the memory of a target. -/
structure Accessor (m : Type → Type) where
  /-- the size of the target's pointers -/
  width : Memory.PointerWidth
  /-- where the module under study is loaded -/
  moduleBase : Memory.Address
  /-- whether the byte at an address may be read -/
  readable : Memory.Address → m Bool
  /-- the bytes of a given number at an address -/
  read : Memory.Address → Nat → m (Except Error Bytes)

/-- A memory that answers each question the same way every time. -/
abbrev Memory := Accessor Id

/-- How the records of a module refer to memory. -/
structure Frame where
  width : Memory.PointerWidth
  /-- what offsets are counted from -/
  base : Memory.Address
  deriving DecidableEq, Repr, Inhabited

namespace Accessor

/-- The frame of the module under study.  Records of a 32-bit module hold absolute addresses, so
its offsets count from zero wherever it is loaded. -/
def frame {m : Type → Type} (accessor : Accessor m) : Frame :=
  match accessor.width with
  | .bits32 => ⟨.bits32, .null⟩
  | .bits64 => ⟨.bits64, accessor.moduleBase⟩

/-- A memory asked from within another monad. -/
def ofMemory {m : Type → Type} [Pure m] (memory : Memory) : Accessor m where
  width := memory.width
  moduleBase := memory.moduleBase
  readable a := pure (memory.readable a)
  read a n := pure (memory.read a n)

/-- The same memory, except that a read which starts in one of the half-open ranges fails, although
the addresses in it count as readable. -/
def failingWithin {m : Type → Type} [Monad m] (ranges : List (Memory.Address × Memory.Address))
    (accessor : Accessor m) : Accessor m :=
  let fails (a : Memory.Address) : Bool :=
    ranges.any fun range => range.1.toNat ≤ a.toNat && a.toNat < range.2.toNat
  { accessor with
    readable := fun a => if fails a then pure true else accessor.readable a
    read := fun a n =>
      if fails a then pure (.error (.readFailure a n .inputOutput)) else accessor.read a n }

end Accessor

namespace Frame

/-- The address an offset of the module refers to. -/
def resolve (frame : Frame) (offset : Memory.Offset) : Option Memory.Address :=
  offset.resolve frame.base

end Frame

end RttiProbe
