import RttiProbe.Disk
import RttiProbe.Header.Render
import RttiProbe.Journal
import RttiProbe.Text.Quoted
/-!
# Exporting headers

The headers of a class, and of all classes it derives from, written below one directory.  What is to
be written is planned first: the classes in pre-order, each path once, the first class with a path
being the one whose header goes there.  Unless headers may be replaced, an export that would run
into an existing file stops before it has changed anything.
-/

set_option autoImplicit false

namespace RttiProbe

namespace Class

mutual

/-- A class and all its bases, each before the classes it derives from. -/
def preorder : Class → List Class
  | ⟨name, namespaces, arguments, bases, descriptor, isArgument⟩ =>
    ⟨name, namespaces, arguments, bases, descriptor, isArgument⟩ :: preorders bases

/-- The classes of several trees, one tree after another. -/
def preorders : List Class → List Class
  | [] => []
  | c :: rest => preorder c ++ preorders rest

end

theorem preorders_eq_flatMap (cs : List Class) : preorders cs = cs.flatMap preorder := by
  induction cs with
  | nil => rfl
  | cons c rest ih => rw [preorders, ih, List.flatMap_cons]

theorem preorder_eq (c : Class) : c.preorder = c :: c.bases.flatMap preorder := by
  cases c; rw [preorder, preorders_eq_flatMap]

end Class

namespace Export

/-! ## Plans -/

/-- A header to be written. -/
structure Item where
  path : Path
  subject : Class
  deriving Repr, Inhabited

/-- The classes of an export: the class alone, or with all its bases. -/
def selection (c : Class) (withBases : Bool) : List Class := if withBases then c.preorder else [c]

/-- Where the header of a class goes below `root`. -/
def destination (root : Path) (c : Class) : Path := root.join (Header.path c)

/-- The headers to be written for classes, when there is one for each path in `seen` already. -/
def itemsAfter (root : Path) (seen : List (List Path.Component)) : List Class → List Item
  | [] => []
  | c :: rest =>
    let path := destination root c
    if seen.contains path.components then itemsAfter root seen rest
    else ⟨path, c⟩ :: itemsAfter root (path.components :: seen) rest

/-- The paths of classes that are passed over, when there is a header for each path in `seen`. -/
def repeatsAfter (root : Path) (seen : List (List Path.Component)) : List Class → List Path
  | [] => []
  | c :: rest =>
    let path := destination root c
    if seen.contains path.components then path :: repeatsAfter root seen rest
    else repeatsAfter root (path.components :: seen) rest

/-- The headers of an export, in the order in which they are written. -/
def plan (c : Class) (root : Path) (withBases : Bool) : List Item :=
  itemsAfter root [] (selection c withBases)

/-- What planning has to tell. -/
def planMessages (c : Class) (root : Path) (withBases : Bool) : List Message :=
  (repeatsAfter root [] (selection c withBases)).map fun path =>
    ⟨.debug, "skipping ".toList ++ Text.quote path.text ++ ", it was already exported".toList⟩

/-! ## Writing -/

variable {m : Type → Type} [Monad m]

/-- Writes the header of one class. -/
def writeItem (disk : Disk m) (overwrite : Bool) (item : Item) : m (Except Error Unit) := do
  match ← disk.makeDirectories item.path.steps.dropLast.reverse with
  | .error e => return .error (.system e)
  | .ok () =>
    let contents := Text.Utf8.encode (Header.render item.subject)
    if overwrite then
      return (← disk.replace item.path contents).mapError .system
    else
      return (← disk.create item.path contents).mapError fun e =>
        if e = .alreadyPresent then .alreadyExists item.path else .system e

/-- What is told of a header that has been written. -/
def Item.message (item : Item) : Message :=
  ⟨.info, "exported ".toList ++ item.subject.qualifiedName ++ " to ".toList
    ++ Text.quote item.path.text⟩

/-- Writes headers until one cannot be written.  The result holds the paths written if all are. -/
def writeItems (disk : Disk m) (overwrite : Bool) :
    List Item → m (List Message × Except Error (List Path))
  | [] => return ([], .ok [])
  | item :: rest => do
    match ← writeItem disk overwrite item with
    | .error e => return ([], .error e)
    | .ok () =>
      let (messages, written) ← writeItems disk overwrite rest
      return (item.message :: messages, written.map (item.path :: ·))

/-- The first path of a plan where there is something already. -/
def firstPresent? (disk : Disk m) : List Item → m (Option Path)
  | [] => return none
  | item :: rest => do
    if ← disk.isPresent item.path then return some item.path else firstPresent? disk rest

/-- Exports a class below `root`, with its bases if asked to. -/
def run (disk : Disk m) (c : Class) (root : Path) (withBases overwrite : Bool) :
    m (List Message × Except Error (List Path)) := do
  let items := plan c root withBases
  let planned := planMessages c root withBases
  match ← if overwrite then pure none else firstPresent? disk items with
  | some path => return (planned, .error (.alreadyExists path))
  | none =>
    let (messages, written) ← writeItems disk overwrite items
    return (planned ++ messages, written)

end Export

end RttiProbe
