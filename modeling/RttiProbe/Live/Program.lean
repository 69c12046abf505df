import RttiProbe.Live.Area
import RttiProbe.Live.View
/-!
# Programs that run

How a static program at fixed addresses can be seen from outside while it runs: the map of its
areas, as the system writes it, its memory, and its file.
-/

set_option autoImplicit false

namespace RttiProbe.Live

open Memory (Address)

/-! ## Maps -/

/-- A number in lower-case hexadecimal, filled up with zeros to a width. -/
def paddedHex (width n : Nat) : Text :=
  let digits := (Text.Numeral.upperHex n).map Char.toLower
  List.replicate (width - digits.length) '0' ++ digits

/-- A line of a map, as the system writes it. -/
def mapLine (start stop : Nat) (rights : Text) (offset : Nat) (device : Text) (inode : Nat)
    (path : Option Text) : Text :=
  let head := paddedHex 8 start ++ '-' :: paddedHex 8 stop ++ ' ' :: rights ++ ' ' ::
    paddedHex 8 offset ++ ' ' :: device ++ ' ' :: Text.Numeral.decimal inode
  match path with
  | none => head
  | some path => head ++ List.replicate (72 - head.length) ' ' ++ ' ' :: path

/-- A path as it stands in a map: a line feed is written as its octal code. -/
def mapPath (path : Text) : Text :=
  path.flatMap fun c => if c = '\n' then "\\012".toList else [c]

/-- The line of an area, in the map of the program with a path. -/
def Area.line (path : Text) (a : Area) : Text :=
  let right (granted : Bool) (c : Char) : Char := if granted then c else '-'
  let rights := [right a.rights.readable 'r', right a.rights.writable 'w',
    right a.rights.executable 'x', 'p']
  let start := a.first * pageSize
  let stop := a.stop * pageSize
  match a.backing with
  | .zeros => mapLine start stop rights 0 "00:00".toList 0 none
  | .file offset => mapLine start stop rights offset "08:01".toList 1 (some (mapPath path))

/-! ## Running programs -/

/-- A program that runs. -/
structure Running where
  file : Array UInt8
  layout : Layout
  /-- the path of the file, as the system tells it -/
  path : Text
  deriving Repr, Inhabited

namespace Running

/-- The program in a file.  Once the file is removed, the system tells so after its path. -/
def start (file : Array UInt8) (path : Text) (removed : Bool) : Running where
  file := file
  layout := Layout.ofSegments (Segment.ofFile file)
  path := if removed then path ++ " (deleted)".toList else path

/-- The map of the program's memory. -/
def map (program : Running) : Text :=
  program.layout.areas.flatMap fun a => a.line program.path ++ ['\n']

/-- The bytes at an address.  Reading ends at once when the program no longer runs. -/
def memory (program : Running) (alive : Bool) (a : Address) (n : Nat) :
    Except SystemError (Option Bytes) :=
  if !alive then .ok none
  else
    match (List.range n).mapM fun i => program.layout.byte? program.file (a.toNat + i) with
    | some bs => .ok (some bs)
    | none => .error .inputOutput

/-- The first bytes of the program's file. -/
def fileStart (program : Running) (n : Nat) : Except SystemError Bytes :=
  if n ≤ program.file.size then .ok (program.file.extract 0 n).toList else .error .shortFile

/-- What can be seen of the program while it runs, and of its memory afterwards. -/
def view {m : Type → Type} [Monad m] (program : Running) (alive : Bool) : View m where
  attach := return if alive then .ok () else .error .notFound
  map := return if alive then .ok program.map else .error .notFound
  memory a n := return program.memory alive a n
  programStart n := return if alive then program.fileStart n else .error .notFound
  programPath := return if alive then some ⟨program.path⟩ else none

end Running

end RttiProbe.Live
