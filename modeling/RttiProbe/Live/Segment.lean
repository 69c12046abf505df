import RttiProbe.Image.PortableExecutable
/-!
# Segments

The file of a program lists segments.  Each loadable one says what part of the file goes where in
memory, what may be done with that memory, and how much more of it is wanted.
-/

set_option autoImplicit false

namespace RttiProbe.Live

/-- What may be done with memory. -/
structure Rights where
  readable : Bool
  writable : Bool
  executable : Bool
  deriving DecidableEq, Repr, Inhabited

/-- A loadable segment of a program. -/
structure Segment where
  rights : Rights
  /-- whether the memory beyond its part of the file is executable -/
  executableZeros : Bool
  /-- where its part of the file starts -/
  fileOffset : Nat
  fileSize : Nat
  /-- where it goes in memory -/
  start : Nat
  memorySize : Nat
  deriving DecidableEq, Repr, Inhabited

/-- Where the fields of a program's headers lie, which depends on the width of its addresses. -/
structure HeaderLayout where
  /-- whether readable memory is executable unless the program speaks of its stack -/
  lenient : Bool
  wordSize : Nat
  tableField : Nat
  entrySizeField : Nat
  countField : Nat
  flags : Nat
  fileOffset : Nat
  start : Nat
  fileSize : Nat
  memorySize : Nat

namespace HeaderLayout

/-- The headers of a 64-bit program. -/
def wide : HeaderLayout where
  lenient := false
  wordSize := 8
  tableField := 32
  entrySizeField := 54
  countField := 56
  flags := 4
  fileOffset := 8
  start := 16
  fileSize := 32
  memorySize := 40

/-- The headers of a 32-bit program. -/
def narrow : HeaderLayout where
  lenient := true
  wordSize := 4
  tableField := 28
  entrySizeField := 42
  countField := 44
  flags := 24
  fileOffset := 4
  start := 8
  fileSize := 16
  memorySize := 20

end HeaderLayout

namespace Segment

open Image.PortableExecutable (File field)

/-- The kind of the segments that are loaded. -/
def loadable : Nat := 1

/-- The kind of the segment that tells what the stack may be used for. -/
def stackNote : Nat := 0x6474E551

/-- The number of the processor whose programs have 64-bit headers. -/
def wideMachine : Nat := 62

/-- The segment that a header describes, if it is to be loaded.  With `readExecutes`, what may be
read may be executed. -/
def ofHeader? (layout : HeaderLayout) (readExecutes : Bool) (file : File) (header : Nat) :
    Option Segment :=
  let word (offset : Nat) : Nat := field file (header + offset) layout.wordSize
  let flags := field file (header + layout.flags) 4
  if field file header 4 = loadable then
    some {
      rights := {
        readable := flags / 4 % 2 = 1
        writable := flags / 2 % 2 = 1
        executable := flags % 2 = 1 || (readExecutes && flags / 4 % 2 = 1) }
      executableZeros := flags % 2 = 1 || readExecutes
      fileOffset := word layout.fileOffset
      fileSize := word layout.fileSize
      start := word layout.start
      memorySize := word layout.memorySize }
  else none

/-- The loadable segments of a program's file, in order.  The processor that the program is for
decides how its headers are read, not the width that the file states for itself. -/
def ofFile (file : File) : List Segment :=
  let layout := if field file 18 2 = wideMachine then HeaderLayout.wide else HeaderLayout.narrow
  let table := field file layout.tableField layout.wordSize
  let size := field file layout.entrySizeField 2
  let headers := (List.range (field file layout.countField 2)).map fun i => table + i * size
  let readExecutes := layout.lenient && headers.all fun header => field file header 4 ≠ stackNote
  headers.filterMap (ofHeader? layout readExecutes file)

end Segment

end RttiProbe.Live
