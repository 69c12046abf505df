import RttiProbe.Image.Section
import RttiProbe.Memory.Word
/-!
# Portable executables

A portable executable comes in two formats that differ in the size of the optional header and in
its signature.  `Format.check` lists what is demanded of a file before it is trusted, in the order
in which the demands are made; `ofFile` maps the sections of an accepted file at its preferred
base, and `is64Bit?` recognises the format from the start of a file alone.
-/

set_option autoImplicit false

namespace RttiProbe.Image.PortableExecutable

/-- The content of a file. -/
abbrev File := Array UInt8

/-- The bytes of a file from an offset on, if it has that many. -/
def bytes? (file : File) (offset count : Nat) : Option Bytes :=
  if offset + count ≤ file.size then some (file.extract offset (offset + count)).toList else none

/-- The number in `count` bytes of a file, zero where the file has no such bytes. -/
def field (file : File) (offset count : Nat) : Nat :=
  match bytes? file offset count with
  | some bs => Memory.Word.ofBytes bs
  | none => 0

/-! ## Formats -/

/-- The two formats of an optional header. -/
inductive Format where
  | pe32
  | pe32Plus
  deriving DecidableEq, Repr, Inhabited

namespace Format

/-- The signature of the optional header. -/
def signature : Format → Nat
  | pe32 => 0x10B
  | pe32Plus => 0x20B

/-- The number of bytes from the signature of the headers to the end of the fixed part of the
optional header. -/
def headerSize : Format → Nat
  | pe32 => 120
  | pe32Plus => 136

/-- The size of the pointers of a module in this format. -/
def width : Format → Memory.PointerWidth
  | pe32 => .bits32
  | pe32Plus => .bits64

/-- The format of an optional header with a given signature. -/
def ofSignature? (n : Nat) : Option Format :=
  if n = pe32Plus.signature then some pe32Plus
  else if n = pe32.signature then some pe32
  else none

end Format

/-- What the signature at the start of a file reads as, `MZ`. -/
def dosSignature : Nat := 0x5A4D

/-- What the signature of the headers reads as, `PE` and two null bytes. -/
def headersSignature : Nat := 0x4550

/-! ## Headers -/

/-- Where the headers start. -/
def headersOffset (file : File) : Nat := field file 0x3C 4

/-- Where the optional header starts. -/
def optionalOffset (file : File) : Nat := headersOffset file + 24

/-- The number of section headers. -/
def sectionCount (file : File) : Nat := field file (headersOffset file + 6) 2

/-- Where the section headers start. -/
def sectionTableOffset (file : File) : Nat :=
  optionalOffset file + field file (headersOffset file + 20) 2

/-- What a check found: the file is as the format demands, or its optional header is one of the
other format. -/
inductive Verdict where
  | accepted
  | otherFormat
  deriving DecidableEq, Repr, Inhabited

/-- Checks a file against a format.  The first demand that is not met decides. -/
def Format.check (format : Format) (file : File) : Except ImageFault Verdict :=
  let headers := headersOffset file
  let optional := optionalOffset file
  let fixedEnd := headers + format.headerSize
  let headerBytes := field file (optional + 60) 4
  let directories := field file (fixedEnd - 4) 4
  if file.size < 64 then .error .bounds
  else if field file 0 2 ≠ dosSignature then .error .magic
  else if headers % 4 ≠ 0 then .error .misaligned
  else if headers > 0x1000000 then .error .insane
  else if fixedEnd > file.size then .error .bounds
  else if field file headers 4 ≠ headersSignature then .error .magic
  else if (Format.ofSignature? (field file optional 2)).isNone then .error .magic
  else if headerBytes > file.size then .error .bounds
  else if headerBytes > field file (optional + 56) 4 then .error .insane
  else if field file optional 2 ≠ format.signature then .ok .otherFormat
  else if fixedEnd + 8 * min directories 16 > file.size then .error .bounds
  else if sectionCount file > 96 then .error .insane
  else if sectionTableOffset file + 40 * sectionCount file > file.size then .error .bounds
  else .ok .accepted

/-! ## Sections -/

/-- The base at which a module asks to be loaded. -/
def Format.imageBase (format : Format) (file : File) : Nat :=
  match format with
  | .pe32 => field file (optionalOffset file + 28) 4
  | .pe32Plus => field file (optionalOffset file + 24) 8

/-- The section that the header at an offset of a file describes, in a module loaded at `base`.
A section without bytes in the file, or without a place in the address space, is left out. -/
def sectionAt? (file : File) (base header : Nat) : Option Section :=
  let first := field file (header + 20) 4
  let last := (first + field file (header + 16) 4) % UInt32.size
  if first = 0 ∨ last < first ∨ file.size < last then none
  else
    (Memory.Address.ofNat? (base + field file (header + 12) 4)).map fun start =>
      ⟨start, file.extract first last⟩

/-- The image of an accepted file. -/
def Format.load (format : Format) (file : File) : Image where
  base := ⟨UInt64.ofNat (format.imageBase file)⟩
  width := format.width
  sections :=
    (List.range (sectionCount file)).filterMap fun i =>
      sectionAt? file (format.imageBase file) (sectionTableOffset file + 40 * i)

/-- The image of a file in the wider format, or else in the narrower one. -/
def ofFile (file : File) : Except ImageFault Image :=
  match Format.check .pe32Plus file with
  | .error fault => .error fault
  | .ok .accepted => .ok (Format.load .pe32Plus file)
  | .ok .otherFormat =>
    match Format.check .pe32 file with
    | .error fault => .error fault
    | .ok _ => .ok (Format.load .pe32 file)

/-! ## Recognition -/

/-- The number in `count` bytes of a file, if it has them. -/
def field? (file : File) (offset count : Nat) : Option Nat :=
  (bytes? file offset count).map Memory.Word.ofBytes

/-- Whether the file that starts with `start` is a 64-bit module, if `start` shows that it is a
module at all. -/
def is64Bit? (start : File) : Option Bool := do
  let dos ← field? start 0 2
  guard (dos = dosSignature)
  let headers ← field? start 0x3C 4
  let signature ← field? start headers 4
  guard (signature = headersSignature)
  let optional ← field? start (headers + 24) 2
  let format ← Format.ofSignature? optional
  return format = .pe32Plus

end RttiProbe.Image.PortableExecutable
