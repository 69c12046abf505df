import RttiProbe.Class.Basic
import RttiProbe.Path
/-!
# Names in headers

A class name from a target may hold anything, so each use in a header has a form of its own: a file
name without separators, an identifier, the name by which one class refers to another.  A namespace
may also have no name at all, and its members are then reached through the scope around it.
-/

set_option autoImplicit false

namespace RttiProbe.Header

/-! ## Characters -/

/-- How a namespace without a name is spelled. -/
def anonymousNamespace : Text := "`anonymous namespace'".toList

/-- A character that is left out of file names. -/
def isDropped (c : Char) : Bool := c = ' ' || c = '\x60' || c = '\x27'

/-- A character that an underscore stands for in file names. -/
def isReplaced (c : Char) : Bool := ("<>,:()*&/\\|?\x22".toList).contains c

/-- A name made fit to be part of a file name. -/
def sanitize (name : Text) : Text :=
  (name.filter (!isDropped ·)).map fun c => if isReplaced c then '_' else c

/-- A letter or digit in ASCII. -/
def isWordChar (c : Char) : Bool :=
  (0x30 ≤ c.toNat && c.toNat ≤ 0x39) || (0x41 ≤ c.toNat && c.toNat ≤ 0x5A)
    || (0x61 ≤ c.toNat && c.toNat ≤ 0x7A)

/-- A digit in ASCII. -/
def isDigit (c : Char) : Bool := 0x30 ≤ c.toNat && c.toNat ≤ 0x39

/-- A name made into an identifier. -/
def identifier (name : Text) : Text :=
  let word := (sanitize name).map fun c => if isWordChar c then c else '_'
  match word with
  | [] => ['_']
  | c :: _ => if isDigit c then '_' :: word else word

/-! ## Scopes -/

/-- The scope that a namespace declares, none standing for one without a name. -/
def scopeOf (scope : Text) : Option Text :=
  if scope = anonymousNamespace then none else some (identifier scope)

/-- The scopes that namespaces declare, outermost first. -/
def scopes (namespaces : List Text) : List (Option Text) := namespaces.map scopeOf

/-- The named ones of the scopes that namespaces declare. -/
def namedScopes (namespaces : List Text) : List Text := namespaces.filterMap scopeOf

/-! ## References -/

mutual

/-- A class as it is named outside of all scopes.  The names of template arguments are kept as they
are, since they may be built-in types. -/
def declaredName : Class → Text
  | ⟨name, namespaces, arguments, _, _, isArgument⟩ =>
    Class.scopeText (namedScopes namespaces)
      ++ (if isArgument then name else identifier name)
      ++ Class.argumentText (declaredNames arguments)

/-- Each class of a list as it is named outside of all scopes. -/
def declaredNames : List Class → List Text
  | [] => []
  | c :: rest => declaredName c :: declaredNames rest

end

theorem declaredNames_eq_map (cs : List Class) : declaredNames cs = cs.map declaredName := by
  induction cs with
  | nil => rfl
  | cons c rest ih => rw [declaredNames, ih, List.map_cons]

theorem declaredName_eq (c : Class) :
    declaredName c
      = Class.scopeText (namedScopes c.namespaces)
        ++ (if c.isArgument then c.name else identifier c.name)
        ++ Class.argumentText (c.arguments.map declaredName) := by
  cases c; rw [declaredName, declaredNames_eq_map]

/-- The name by which the header of a class refers to one of its bases.  The namespaces of the base
are left out if those of the class start with them. -/
def baseName (c base : Class) : Text :=
  if base.namespaces.isPrefixOf c.namespaces then declaredName { base with namespaces := [] }
  else declaredName base

/-! ## Files -/

/-- The name of the file that declares a class, without the directories above it. -/
def fileName (c : Class) : Text := sanitize c.name ++ ".h".toList

/-- Where the header of a class goes, relative to the directory of an export: one directory for each
namespace. -/
def path (c : Class) : Path :=
  ((c.namespaces.map sanitize).foldl Path.push ⟨[]⟩).push (fileName c)

end RttiProbe.Header
