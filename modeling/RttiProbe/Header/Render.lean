import RttiProbe.Header.Identifier
/-!
# Headers

The header that declares a class: the headers of its direct bases, the namespaces around it, and the
class itself.  Named namespaces that follow one another share a block; one without a name has a
block of its own.
-/

set_option autoImplicit false

namespace RttiProbe.Header

/-- The indentation of a line inside `depth` blocks. -/
def indent (depth : Nat) : Text := List.replicate (4 * depth) ' '

/-! ## Blocks -/

/-- The blocks that scopes are opened in: runs of named scopes, and single ones without a name. -/
def blocks : List (Option Text) → List (Option (List Text))
  | [] => []
  | none :: rest => none :: blocks rest
  | some name :: rest =>
    match blocks rest with
    | some names :: others => some (name :: names) :: others
    | others => some [name] :: others

/-- The line that announces a block. -/
def blockTitle : Option (List Text) → Text
  | none => "namespace".toList
  | some names => "namespace ".toList ++ [':', ':'].intercalate names

/-- The lines that open blocks, the first of which lies inside `depth` others. -/
def openingLines (depth : Nat) : List (Option (List Text)) → List Text
  | [] => []
  | block :: inner =>
    (indent depth ++ blockTitle block) :: (indent depth ++ ['\x7b'])
      :: openingLines (depth + 1) inner

/-- The lines that close `count` blocks, innermost first. -/
def closingLines : (count : Nat) → List Text
  | 0 => []
  | count + 1 => (indent count ++ ['\x7d']) :: closingLines count

/-! ## Lines -/

/-- The lines that include the headers of the direct bases. -/
def includeLines (c : Class) : List Text :=
  if c.bases.isEmpty then []
  else c.bases.map (fun base => "#include <".toList ++ (path base).text ++ ['>']) ++ [[]]

/-- The parameters of a template with a given number of arguments. -/
def templateParameters : (count : Nat) → List Text
  | 1 => ["typename T".toList]
  | count => (List.range count).map fun i => "typename T".toList ++ Text.Numeral.decimal i

/-- The line that announces a template, if the class is one. -/
def templateLines (tab : Text) (c : Class) : List Text :=
  if c.arguments.isEmpty then []
  else
    [tab ++ "template<".toList
      ++ [',', ' '].intercalate (templateParameters c.arguments.length) ++ ['>']]

/-- The line that names the class and its bases. -/
def classLine (tab : Text) (c : Class) : Text :=
  let bases := c.bases.map fun base => "public ".toList ++ baseName c base
  tab ++ "class ".toList ++ identifier c.name
    ++ (if bases.isEmpty then [] else " : ".toList ++ [',', ' '].intercalate bases)

/-- The lines of the header of a class. -/
def lines (c : Class) : List Text :=
  let around := blocks (scopes c.namespaces)
  let tab := indent around.length
  ["#pragma once".toList, []] ++ includeLines c ++ openingLines 0 around ++ templateLines tab c
    ++ [classLine tab c, tab ++ ['\x7b'], [], tab ++ "\x7d;".toList]
    ++ closingLines around.length

/-- The header of a class. -/
def render (c : Class) : Text := (lines c).flatMap (· ++ ['\n'])

end RttiProbe.Header
