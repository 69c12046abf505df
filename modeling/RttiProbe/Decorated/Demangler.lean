import RttiProbe.Decorated.Grammar
/-!
# Demanglers

A demangler turns a decorated name into the text it is shown as, or tells that it cannot.  The
demangler of this module prints a name as the grammar of decorated names says, unless that would
be too long, and takes off the blanks around it and the keyword before it.
-/

set_option autoImplicit false

namespace RttiProbe

/-- Wishes about the text of a demangled name, as a set of bits. -/
structure Flags where
  bits : UInt16
  deriving DecidableEq, Repr, Inhabited

namespace Flags

/-- The set of the bits that mean something. -/
def ofBits (bits : UInt16) : Flags := ⟨bits &&& 0x3FF⟩

/-- Print the name of a type and nothing else. -/
def nameOnly : Flags := ⟨0x200⟩

/-- Leave out the kind of a type. -/
def withoutTags : Flags := ⟨0x002⟩

/-- The flags that are used where none are given. -/
def standard : Flags := nameOnly

/-- Whether the set has all bits of another. -/
def has (flags wish : Flags) : Bool := flags.bits &&& wish.bits == wish.bits

end Flags

/-- A way to show decorated names. -/
abbrev Demangler := Bytes → Flags → Option Text

namespace Decorated

/-- What a name is followed by if more than the name is wanted. -/
def descriptorSuffix : Printed := .ofString "`RTTI Type Descriptor Name'"

/-- Whether a blank keeps a following word apart from a text that ends in this character. -/
def needsBlank (c : Char) : Bool := c.isAlphanum || c = '>'

/-- The text that a name is printed as. -/
def print (limits : Limits) (name : Bytes) (flags : Flags) : Option Text := do
  let tags := !(flags.has .nameOnly || flags.has .withoutTags)
  let type ← undecorate ⟨tags, limits⟩ name
  let text ← (type.write? limits.bytes).map String.toList
  if flags.has .nameOnly then return text
  else
    let blank := if text.getLast?.any needsBlank then " " else ""
    ((type ++ .ofString blank ++ descriptorSuffix).write? limits.bytes).map String.toList

/-- The keywords that may stand before the name of a type. -/
def keywords : List Text :=
  ["class ".toList, "struct ".toList, "union ".toList, "enum ".toList]

/-- The text without the first keyword it starts with. -/
def dropKeyword (s : Text) : Text :=
  match keywords.find? (·.isPrefixOf s) with
  | some keyword => s.drop keyword.length
  | none => s

/-- Shows decorated names as the types they stand for, within limits. -/
def demanglerWithin (limits : Limits) : Demangler := fun name flags => do
  let printed ← print limits name flags
  let text := Text.trim (dropKeyword (Text.trim printed))
  if text.isEmpty then none else some text

/-- Shows decorated names as the types they stand for. -/
def demangler : Demangler := demanglerWithin .standard

end Decorated

end RttiProbe
