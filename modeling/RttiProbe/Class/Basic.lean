import RttiProbe.Record.Basic
/-!
# Classes

A class as it is declared: a name within namespaces, with the arguments of its template, and the
classes it derives from directly.  The bases make a class the root of a tree; `size` counts the
tree below it, `qualifiedName` writes the class out, and `outline` draws the tree with one class a
line.
-/

set_option autoImplicit false

namespace RttiProbe

/-- A class, with the tree of its bases. -/
structure Class where
  /-- the declared name, without namespaces and template arguments -/
  name : Text
  /-- the scopes around it, outermost first -/
  namespaces : List Text
  /-- the arguments of its template -/
  arguments : List Class
  /-- the direct bases, in the order of declaration -/
  bases : List Class
  /-- the record it was rebuilt from, if it was -/
  descriptor : Option Record.BaseDescriptor
  /-- whether it stands as an argument of a template -/
  isArgument : Bool
  deriving Repr, Inhabited

namespace Class

/-- A class of which only the name is known. -/
def ofName (name : Text) : Class := ⟨name, [], [], [], none, false⟩

/-! ## Counting -/

mutual

/-- The number of classes that a class derives from, directly or not. -/
def baseCount : Class → Nat
  | ⟨_, _, _, bases, _, _⟩ => totalCount bases

/-- The number of classes in a list of trees. -/
def totalCount : List Class → Nat
  | [] => 0
  | c :: rest => 1 + c.baseCount + totalCount rest

end

theorem baseCount_eq (c : Class) : c.baseCount = totalCount c.bases := by
  cases c; rw [baseCount]

/-- Whether the class was rebuilt from a record of a hierarchy. -/
def isRebuilt (c : Class) : Bool := c.descriptor.isSome

/-! ## Writing -/

/-- The namespaces, each with its separator. -/
def scopeText (namespaces : List Text) : Text :=
  namespaces.flatMap fun scope => scope ++ [':', ':']

/-- Arguments between angle brackets, nothing if there are none. -/
def argumentText (arguments : List Text) : Text :=
  if arguments.isEmpty then [] else '<' :: [',', ' '].intercalate arguments ++ ['>']

mutual

/-- The class written out: its namespaces, its name, its arguments. -/
def qualifiedName : Class → Text
  | ⟨name, namespaces, arguments, _, _, _⟩ =>
    scopeText namespaces ++ name ++ argumentText (qualifiedNames arguments)

/-- Each class of a list written out. -/
def qualifiedNames : List Class → List Text
  | [] => []
  | c :: rest => c.qualifiedName :: qualifiedNames rest

end

theorem qualifiedNames_eq_map (cs : List Class) : qualifiedNames cs = cs.map qualifiedName := by
  induction cs with
  | nil => rfl
  | cons c rest ih => rw [qualifiedNames, ih, List.map_cons]

theorem qualifiedName_eq (c : Class) :
    c.qualifiedName
      = scopeText c.namespaces ++ c.name ++ argumentText (c.arguments.map qualifiedName) := by
  cases c; rw [qualifiedName, qualifiedNames_eq_map]

/-- The class as it is shown: as written out, or as the title of its record. -/
def display (c : Class) : Text :=
  match c.descriptor with
  | none => c.qualifiedName
  | some d => d.title c.qualifiedName

mutual

/-- The lines that draw the tree of a class which stands `depth` levels down. -/
def outlineLines (depth : Nat) : Class → List Text
  | ⟨name, namespaces, arguments, bases, descriptor, isArgument⟩ =>
    (List.replicate (2 * depth) ' '
        ++ display ⟨name, namespaces, arguments, bases, descriptor, isArgument⟩)
      :: outlinesLines (depth + 1) bases

/-- The lines that draw several trees one after another. -/
def outlinesLines (depth : Nat) : List Class → List Text
  | [] => []
  | c :: rest => outlineLines depth c ++ outlinesLines depth rest

end

theorem outlinesLines_eq_flatMap (depth : Nat) (cs : List Class) :
    outlinesLines depth cs = cs.flatMap (outlineLines depth) := by
  induction cs with
  | nil => rfl
  | cons c rest ih => rw [outlinesLines, ih, List.flatMap_cons]

theorem outlineLines_eq (depth : Nat) (c : Class) :
    outlineLines depth c
      = (List.replicate (2 * depth) ' ' ++ c.display)
        :: c.bases.flatMap (outlineLines (depth + 1)) := by
  cases c; rw [outlineLines, outlinesLines_eq_flatMap]

/-- The tree of a class, one class a line, each base indented below the class it belongs to. -/
def outline (c : Class) : Text := (c.outlineLines 0).flatMap (· ++ ['\n'])

end Class

end RttiProbe
