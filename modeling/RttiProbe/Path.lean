import RttiProbe.Text.Utf8
/-!
# Paths

A path is a text whose components are separated by slashes.  Empty components, and `.` after the
first place, say nothing, so two paths with equal components are one and the same path; the text is
kept as it was given because it is what gets printed.
-/

set_option autoImplicit false

namespace RttiProbe

/-- A path, as it was written. -/
structure Path where
  text : Text
  deriving DecidableEq, Repr, Inhabited

namespace Path

/-- What a path is made of. -/
inductive Component where
  /-- the slash that makes a path absolute -/
  | root
  /-- a leading `.` -/
  | here
  /-- the step up to the directory above -/
  | up
  /-- an entry of a directory -/
  | entry (name : Text)
  deriving DecidableEq, Repr, Inhabited

/-- Whether the path starts at the root of the file system. -/
def isAbsolute (p : Path) : Bool := p.text.head? = some '/'

/-- Adds `tail` below the path.  A separator is added where one is needed, that is, unless the path
is empty or ends in one; an absolute `tail` replaces the path. -/
def push (p : Path) (tail : Text) : Path :=
  if tail.head? = some '/' then ⟨tail⟩
  else if p.text.isEmpty || p.text.getLast? = some '/' then ⟨p.text ++ tail⟩
  else ⟨p.text ++ '/' :: tail⟩

/-- The path `tail` taken from the directory `p`. -/
def join (p tail : Path) : Path := p.push tail.text

/-- The pieces of a path between slashes. -/
def pieces (p : Path) : List Text := p.text.splitOn '/'

/-- The component that a piece other than the first stands for. -/
def Component.ofPiece? (piece : Text) : Option Component :=
  if piece = [] ∨ piece = ['.'] then none
  else if piece = ['.', '.'] then some .up
  else some (.entry piece)

/-- The components of a path. -/
def components (p : Path) : List Component :=
  let later := p.pieces.filterMap Component.ofPiece?
  if p.isAbsolute then .root :: later
  else if p.pieces.head? = some ['.'] then .here :: later
  else later

/-- The paths up to each of some pieces that is a component.  `before` is the text before them. -/
def stepsFrom (before : Text) : List Text → List Path
  | [] => []
  | piece :: rest =>
    let text := before ++ piece
    let later := stepsFrom (text ++ ['/']) rest
    if Component.ofPiece? piece = none then later else ⟨text⟩ :: later

/-- The paths that lead to a path, as it is written: one up to each component, shortest first. -/
def steps (p : Path) : List Path :=
  if p.isAbsolute then ⟨['/']⟩ :: stepsFrom ['/'] p.pieces.tail
  else if p.pieces.head? = some ['.'] then ⟨['.']⟩ :: stepsFrom ['.', '/'] p.pieces.tail
  else stepsFrom [] p.pieces

/-- The name of the entry that a path ends in. -/
def fileName (p : Path) : Option Text :=
  match p.components.getLast? with
  | some (.entry name) => some name
  | _ => none

/-- What follows the last dot of the entry a path ends in, unless that dot comes first. -/
def extension (p : Path) : Option Text :=
  p.fileName.bind fun name =>
    let after := name.reverse.takeWhile (· ≠ '.')
    if after.length + 1 < name.length then some after.reverse else none

end Path

end RttiProbe
