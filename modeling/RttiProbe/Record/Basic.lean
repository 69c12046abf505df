import RttiProbe.Memory.Address
/-!
# Run-time type records

The records a compiler leaves beside a class so that its type can be found at run time.  A
*complete object locator* stands before the virtual function table; it refers to the *type
descriptor* of the class, which holds its decorated name, and to its *hierarchy descriptor*, whose
array lists the class and all its bases in pre-order, one *base class descriptor* each.  Every
record keeps the address it was found at.
-/

set_option autoImplicit false

namespace RttiProbe.Record

open Memory (Address Offset)

/-- The descriptor of a type. -/
structure TypeDescriptor where
  location : Address
  vftable : Address
  runtimeRef : Address
  decoratedName : List UInt8
  deriving DecidableEq, Repr, Inhabited

/-- The descriptor of a class hierarchy. -/
structure HierarchyDescriptor where
  location : Address
  signature : UInt32
  attributes : UInt32
  /-- the number of slots of the array, the class itself included -/
  baseCount : UInt32
  baseArray : Offset
  deriving DecidableEq, Repr, Inhabited

/-- The descriptor of one class of a hierarchy. -/
structure BaseDescriptor where
  location : Address
  typeDescriptor : Offset
  /-- how many of the slots after this one hold bases of this class -/
  subElementCount : UInt32
  memberDisplacement : Int32
  vftableDisplacement : Int32
  displacementWithinVftable : Int32
  attributes : UInt32
  hierarchyDescriptor : Offset
  deriving DecidableEq, Repr, Inhabited

/-- The locator of a complete object. -/
structure Locator where
  location : Address
  signature : UInt32
  vftableOffset : UInt32
  constructorDisplacement : UInt32
  typeDescriptor : Offset
  hierarchyDescriptor : Offset
  deriving DecidableEq, Repr, Inhabited

/-! ## Titles

How each record of a class is titled, given the name of the class. -/

/-- The title of a type descriptor. -/
def TypeDescriptor.title (name : Text) : Text :=
  "class ".toList ++ name ++ " `RTTI Type Descriptor'".toList

/-- The title of a hierarchy descriptor. -/
def HierarchyDescriptor.title (name : Text) : Text :=
  name ++ "::`RTTI Class Hierarchy Descriptor'".toList

/-- The title of the array of a hierarchy descriptor. -/
def HierarchyDescriptor.arrayTitle (name : Text) : Text :=
  name ++ "::`RTTI Base Class Array'".toList

/-- The title of a base class descriptor, which tells where the base lies in the object. -/
def BaseDescriptor.title (d : BaseDescriptor) (name : Text) : Text :=
  let numbers : List Text :=
    [Text.Numeral.signedDecimal d.memberDisplacement.toInt,
      Text.Numeral.signedDecimal d.vftableDisplacement.toInt,
      Text.Numeral.signedDecimal d.displacementWithinVftable.toInt,
      Text.Numeral.decimal d.attributes.toNat]
  name ++ "::`RTTI Base Class Descriptor at (".toList ++ [',', ' '].intercalate numbers
    ++ ")'".toList

/-- The title of a locator. -/
def Locator.title (name : Text) : Text :=
  "const ".toList ++ name ++ "::`RTTI Complete Object Locator'".toList

end RttiProbe.Record
