import RttiProbe.Hierarchy
/-!
# Looking up the class of an object

The first member of an object points at its virtual function table, and the pointer before that
table at the locator of its class.  This module follows that trail and answers questions about the
class found at its end.
-/

set_option autoImplicit false

namespace RttiProbe.Lookup

open Memory (Address)
open Record

/-! ## The trail -/

/-- The virtual function table of an object. -/
def vftable (frame : Frame) (object : Address) : Decode (Option Address) :=
  Decode.pointer frame object

/-- Where the locator that belongs to a virtual function table is. -/
def locatorAddress (frame : Frame) (vftable : Address) : Decode (Option Address) :=
  if vftable.isNull then return none
  else
    match vftable.sub? frame.width.bytes with
    | none => return none
    | some slot => do
      if !(← Decode.readable slot) then return none
      Decode.pointer frame slot

/-- The locator that belongs to a virtual function table. -/
def ofVftable (frame : Frame) (demangler : Demangler) (vftable : Address) :
    Decode (Option Locator) := do
  match ← locatorAddress frame vftable with
  | none =>
    Decode.log .debug ("no complete object locator before vftable ".toList ++ vftable.display)
    return none
  | some a => Locator.decode frame demangler a

/-- The locator of the class of an object. -/
def ofObject (frame : Frame) (demangler : Demangler) (object : Address) :
    Decode (Option Locator) := do
  match ← vftable frame object with
  | none =>
    Decode.log .debug ("object at ".toList ++ object.display ++ " is not readable".toList)
    return none
  | some v => ofVftable frame demangler v

/-! ## Names -/

/-- The name of the type that a locator describes, empty if it cannot be read. -/
def typeName (frame : Frame) (demangler : Demangler) (l : Locator) (demangle : Bool)
    (flags : Flags) : Decode Text := do
  match ← l.type frame with
  | none => return []
  | some d => d.name demangler false demangle flags

/-- The name of the class of an object, empty if there is none. -/
def className (frame : Frame) (demangler : Demangler) (object : Address) (demangle : Bool)
    (flags : Flags) : Decode Text := do
  match ← ofObject frame demangler object with
  | none => return []
  | some l => typeName frame demangler l demangle flags

/-- The parts of a text between separators of two colons. -/
def splitScopes : Text → List Text
  | ':' :: ':' :: rest => [] :: splitScopes rest
  | c :: rest =>
    match splitScopes rest with
    | [] => [[c]]
    | part :: others => (c :: part) :: others
  | [] => [[]]

/-- The parts of the name of the class of an object that two colons separate, outermost first. -/
def classNamespaces (frame : Frame) (demangler : Demangler) (object : Address) :
    Decode (List Text) := do
  let name ← className frame demangler object true .standard
  return (splitScopes name).filter (!·.isEmpty)

/-! ## Reports -/

/-- The records of the class that a locator describes, and the tree of its bases. -/
def report (frame : Frame) (demangler : Demangler) (l : Locator) : Decode Text := do
  let name ← typeName frame demangler l true .standard
  let records : List Text :=
    [Locator.title name,
      "  ".toList ++ TypeDescriptor.title name,
      "    ".toList ++ HierarchyDescriptor.title name,
      "      ".toList ++ HierarchyDescriptor.arrayTitle name]
  let tree := match ← Hierarchy.ofLocator frame demangler l with
    | none => []
    | some c => (Text.lines c.outline).map ("        ".toList ++ ·)
  return (records ++ tree).flatMap (· ++ ['\n'])

end RttiProbe.Lookup
