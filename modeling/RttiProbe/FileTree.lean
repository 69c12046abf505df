import RttiProbe.Disk
import RttiProbe.Trie
/-!
# File trees

A file system as a value: what is at each place, and the directory that relative paths start from.
A place is the list of the names that lead to it from the root.  A path is resolved piece by piece:
each piece needs a directory to be looked up in, an empty piece or `.` stays there, and `..` goes
up.  There are no links, so a place has one path without `..`.
-/

set_option autoImplicit false

namespace RttiProbe

/-- What can be at a place of a file tree. -/
inductive FileNode where
  | file (contents : Bytes)
  | directory
  deriving DecidableEq, Repr, Inhabited

/-- A place: the names that lead to it from the root. -/
abbrev Place := List Text

/-- A file system as a value. -/
structure FileTree where
  /-- what is at each place but the root -/
  nodes : Trie Text FileNode
  /-- the directory that relative paths start from -/
  current : Place
  deriving Inhabited

namespace FileTree

/-! ## Places -/

/-- What is at a place. -/
def node? (t : FileTree) (place : Place) : Option FileNode :=
  if place = [] then some .directory else t.nodes.get? place

/-- The tree with `node` at a place. -/
def put (t : FileTree) (place : Place) (node : FileNode) : FileTree :=
  { t with nodes := t.nodes.insert node place }

/-- The tree that has nothing but one directory below the root, which is the current one. -/
def ofCurrent (name : Text) : FileTree := put ⟨.empty, [name]⟩ [name] .directory

theorem node?_nil (t : FileTree) : t.node? [] = some .directory := rfl

theorem node?_put_self {t : FileTree} {place : Place} {node : FileNode} (h : place ≠ []) :
    (t.put place node).node? place = some node := by
  rw [node?, if_neg h]
  exact Trie.get?_insert_self _ _ _

theorem node?_put_of_ne {t : FileTree} {place other : Place} {node : FileNode}
    (h : other ≠ place) : (t.put place node).node? other = t.node? other := by
  unfold node?
  rw [put, Trie.get?_insert_of_ne _ _ h]

/-! ## Paths -/

/-- The most bytes that a name can have. -/
def maxNameBytes : Nat := 255

/-- The most bytes that a path can have. -/
def maxPathBytes : Nat := 4095

/-- The place that pieces lead to from a place, which need not be taken. -/
def walk (t : FileTree) (place : Place) : List Text → Except SystemError Place
  | [] => .ok place
  | piece :: rest =>
    match t.node? place with
    | none => .error .notFound
    | some (.file _) => .error .notDirectory
    | some .directory =>
      if piece = [] ∨ piece = ['.'] then t.walk place rest
      else if piece = ['.', '.'] then t.walk place.dropLast rest
      else if maxNameBytes < (Text.Utf8.encode piece).length then .error .nameTooLong
      else t.walk (place ++ [piece]) rest

/-- The place that a path leads to. -/
def resolve (t : FileTree) (path : Path) : Except SystemError Place :=
  if path.text.contains '\x00' then .error .nullInPath
  else if path.text = [] then .error .notFound
  else if maxPathBytes < (Text.Utf8.encode path.text).length then .error .nameTooLong
  else t.walk (if path.isAbsolute then [] else t.current) path.pieces

/-- What a path leads to. -/
def find? (t : FileTree) (path : Path) : Option FileNode :=
  match t.resolve path with
  | .ok place => t.node? place
  | .error _ => none

/-! ## Changes -/

/-- Whether there is a directory at a path. -/
def isDirectory (t : FileTree) (path : Path) : Bool := t.find? path == some .directory

/-- Makes a directory. -/
def makeDirectory (t : FileTree) (path : Path) : Except SystemError FileTree := do
  let place ← t.resolve path
  match t.node? place with
  | some _ => throw .alreadyPresent
  | none => return t.put place .directory

/-- Writes a file, replacing what it held. -/
def replace (t : FileTree) (path : Path) (contents : Bytes) : Except SystemError FileTree := do
  let place ← t.resolve path
  match t.node? place with
  | some .directory => throw .isDirectory
  | _ => return t.put place (.file contents)

/-- Writes a file that must not be there. -/
def create (t : FileTree) (path : Path) (contents : Bytes) : Except SystemError FileTree := do
  let place ← t.resolve path
  match t.node? place with
  | some _ => throw .alreadyPresent
  | none => return t.put place (.file contents)

/-- The content of a file. -/
def load (t : FileTree) (path : Path) : Except SystemError Bytes := do
  match t.node? (← t.resolve path) with
  | some (.file contents) => return contents
  | some .directory => throw .isDirectory
  | none => throw .notFound

/-! ## As a disk -/

/-- Keeps the tree as it is where a change fails. -/
def change (f : FileTree → Except SystemError FileTree) :
    StateM FileTree (Except SystemError Unit) := fun t =>
  match f t with
  | .ok t => (.ok (), t)
  | .error e => (.error e, t)

/-- The disk whose state is a file tree. -/
def disk : Disk (StateM FileTree) where
  isPresent path := return ((← get).find? path).isSome
  isDirectory path := return (← get).isDirectory path
  makeDirectory path := change (·.makeDirectory path)
  replace path contents := change (·.replace path contents)
  create path contents := change (·.create path contents)
  load path := return (← get).load path

/-- What lies below the current directory: relative places, and what is at each. -/
def listing (t : FileTree) : List (Place × FileNode) :=
  (t.nodes.descend t.current).toList.filter (·.1 ≠ [])

end FileTree

end RttiProbe
