import RttiProbe.Live.Mapping
import RttiProbe.Memory.Accessor
import RttiProbe.Text.Utf8
/-!
# The memory of a running program

What the operating system lets one see of a running program, and the accessor made from it.  The
mappings are taken down once, when the memory is opened; a read has to lie in a single readable one.
A read that ends early means that the memory has gone since, and counts as inaccessible.

The module under study is a portable executable among the mappings if there is one, and the program
itself otherwise.
-/

set_option autoImplicit false

namespace RttiProbe.Live

open Memory (Address)

/-- What can be seen of a running program. -/
structure View (m : Type → Type) where
  /-- makes ready to read memory -/
  attach : m (Except SystemError Unit)
  /-- the map of the program's memory -/
  map : m (Except SystemError Text)
  /-- the bytes at an address, none if the memory ends before that -/
  memory : Address → Nat → m (Except SystemError (Option Bytes))
  /-- the first bytes of the program's file -/
  programStart : Nat → m (Except SystemError Bytes)
  /-- the path of the program's file -/
  programPath : m (Option Path)

/-- The memory of a program, opened. -/
structure Opened where
  mappings : List Mapping
  is64Bit : Bool
  moduleBase : Address
  deriving DecidableEq, Repr, Inhabited

namespace Opened

/-- Whether some readable mapping holds all of a range. -/
def isMapped (opened : Opened) (a : Address) (length : Nat) : Bool :=
  opened.mappings.any fun mapping => mapping.readable && mapping.contains a length

/-- The accessor to opened memory.  A read of no bytes asks nothing of the system. -/
def accessor {m : Type → Type} [Monad m] (opened : Opened) (view : View m) : Accessor m where
  width := .of64 opened.is64Bit
  moduleBase := opened.moduleBase
  readable a := return opened.isMapped a 1
  read a n := do
    if !opened.isMapped a n then return .error (.unreadable a)
    else if n = 0 then return .ok []
    else
      match ← view.memory a n with
      | .ok (some bs) => return .ok bs
      | .ok none => return .error (.unreadable a)
      | .error e => return .error (.readFailure a n e)

end Opened

/-- What the file of a program for 64-bit machines starts with. -/
def wideProgramStart : Bytes := [0x7F, 0x45, 0x4C, 0x46, 2]

/-- An address known to be below the end of memory. -/
def addressOf (n : Nat) : Address := ⟨UInt64.ofNat n⟩

/-- The lowest mapping of the file at a path, zero if there is none. -/
def lowestMapping (path : Option Path) (mappings : List Mapping) : Nat :=
  match path with
  | none => 0
  | some path =>
    let isOf (mapping : Mapping) : Bool :=
      mapping.path.any fun other => other.components = path.components
    ((mappings.filter isOf).map Mapping.start).min?.getD 0

namespace View

variable {m : Type → Type} [Monad m]

/-- The bytes that a mapping starts with, if they can be read. -/
def header (view : View m) (mapping : Mapping) : m (Option Bytes) := do
  if mapping.headerSize = 0 then return some []
  match ← view.memory (addressOf mapping.start) mapping.headerSize with
  | .ok bs => return bs
  | .error _ => return none

/-- Whether the program is a 64-bit one, and the base of its module. -/
def programModule (view : View m) (mappings : List Mapping) :
    ExceptT SystemError m (Bool × Nat) := do
  let start ← ExceptT.mk (view.programStart wideProgramStart.length)
  let path ← view.programPath
  return (start = wideProgramStart, lowestMapping path mappings)

/-- Opens the memory of a program.  The base of the module under study may be given. -/
def openMemory (view : View m) (moduleBase : Option Address) : ExceptT SystemError m Opened := do
  ExceptT.mk view.attach
  let map ← ExceptT.mk view.map
  let mappings := (Text.lines map).filterMap Mapping.parse
  let found ← (Mapping.module? view.header mappings : m (Option (Nat × Bool)))
  let (is64Bit, found) ← match found with
    | some (start, is64Bit) => pure (is64Bit, start)
    | none => view.programModule mappings
  return ⟨mappings, is64Bit, moduleBase.getD (addressOf found)⟩

end View

end RttiProbe.Live
