import RttiProbe.Image.PortableExecutable
import RttiProbe.Path
/-!
# Memory mappings

The map of a running program has one line for each mapping: its range in hexadecimal, its rights,
the offset, device and inode of the file behind it, and the path of that file.  A line is cut at its
blanks, so the path ends at its first blank.  From the mappings of executables the module is chosen
whose records are to be read: the lowest one that is a portable executable.
-/

set_option autoImplicit false

namespace RttiProbe.Live

open Memory (Address)

/-- A range of mapped memory. -/
structure Mapping where
  start : Nat
  /-- the first address past the range -/
  stop : Nat
  readable : Bool
  path : Option Path
  deriving DecidableEq, Repr, Inhabited

namespace Mapping

/-- Reads one end of a range. -/
def parseBound (s : Text) : Option Nat := (Text.Numeral.read 16 UInt64.size s).toOption

/-- Reads the range of a mapping: its two ends, a minus between them. -/
def parseRange (s : Text) : Option (Nat × Nat) :=
  match s.dropWhile (· ≠ '-') with
  | [] => none
  | _ :: stop => do
    return (← parseBound (s.takeWhile (· ≠ '-')), ← parseBound stop)

/-- Reads a line of a map. -/
def parse (line : Text) : Option Mapping :=
  match Text.words line with
  | range :: rights :: rest => do
    let (start, stop) ← parseRange range
    return ⟨start, stop, rights.head? = some 'r', rest[3]?.map Path.mk⟩
  | _ => none

/-- Whether `length` bytes from an address on all lie in the range. -/
def contains (mapping : Mapping) (a : Address) (length : Nat) : Bool :=
  mapping.start ≤ a.toNat && a.toNat + length < UInt64.size && a.toNat + length ≤ mapping.stop

/-- Whether the mapping is readable and its file is named like an executable. -/
def isExecutable (mapping : Mapping) : Bool :=
  mapping.readable
    && (mapping.path.bind Path.extension).any fun name => name.map Char.toLower = "exe".toList

/-- The number of bytes from the start of a mapping that are looked at to recognise a module. -/
def headerSize (mapping : Mapping) : Nat := min 0x1000 (mapping.stop - mapping.start)

/-- The mappings of executables, lowest first. -/
def candidates (mappings : List Mapping) : List Mapping :=
  (mappings.filter isExecutable).mergeSort fun a b => a.start ≤ b.start

variable {m : Type → Type} [Monad m]

/-- The start of the first mapping whose header is that of a module, and whether the module is a
64-bit one. -/
def firstModule? (header : Mapping → m (Option Bytes)) :
    List Mapping → m (Option (Nat × Bool))
  | [] => return none
  | mapping :: rest => do
    match (← header mapping).bind fun bs => Image.PortableExecutable.is64Bit? bs.toArray with
    | some is64Bit => return some (mapping.start, is64Bit)
    | none => firstModule? header rest

/-- The lowest mapping that is an executable and a module, if there is one. -/
def module? (header : Mapping → m (Option Bytes)) (mappings : List Mapping) :
    m (Option (Nat × Bool)) :=
  firstModule? header (candidates mappings)

end Mapping

end RttiProbe.Live
