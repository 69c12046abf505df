import RttiProbe.Record.Read
/-!
# Rebuilding class hierarchies

A hierarchy is stored flat: the array of a class lists the class itself and then its bases in
pre-order, so that a direct base is followed by all of its own bases.  Each base is rebuilt from its
own array, and the walk along the enclosing array then passes over as many slots as there are
classes below the base.

The walk never goes past what the descriptors announce, and never deeper than `maxDepth`, so it ends
whatever the memory holds.  Where it has to stop early it keeps what it has and records a cut.
-/

set_option autoImplicit false

namespace RttiProbe

open Record

namespace Hierarchy

/-- The depth below which no bases are followed. -/
def maxDepth : Nat := 64

/-- The last slot that may hold a base of the class with descriptor `d`. -/
def lastSlot (d : BaseDescriptor) (h : HierarchyDescriptor) : Nat :=
  min d.subElementCount.toNat (h.baseCount.toNat - 1)

/-- The warning that a class lies too deep for its bases to be followed. -/
def tooDeep (name : Text) (d : BaseDescriptor) : Text :=
  "stopped following the bases of '".toList ++ name ++ "' at ".toList ++ d.location.display
    ++ ", the hierarchy is nested too deeply".toList

/-- The warning that the hierarchy descriptor of a class cannot be read. -/
def noHierarchy (name : Text) (d : BaseDescriptor) : Text :=
  "failed to read the class hierarchy descriptor of '".toList ++ name ++ "' at ".toList
    ++ d.location.display

/-- The warning that a slot of the array of a class cannot be read. -/
def noSlot (name : Text) (slot : Nat) : Text :=
  "failed to read base class \x7b".toList ++ Text.Numeral.decimal slot ++ "\x7d of '".toList ++ name
    ++ ['\x27']

/-- Walks along the array of the class `name` from slot `cursor` to slot `last`, rebuilding the base
in each slot it visits.  `before` holds the bases found so far, in reverse. -/
def walk (frame : Frame) (rebuild : BaseDescriptor → Decode Class) (h : HierarchyDescriptor)
    (name : Text) (last cursor : Nat) (before : List Class) : Decode (List Class) :=
  if _h : cursor ≤ last then do
    match ← h.base frame cursor with
    | none =>
      Decode.cut (noSlot name cursor)
      return before.reverse
    | some d =>
      let base ← rebuild d
      walk frame rebuild h name last (cursor + 1 + base.baseCount) (base :: before)
  else return before.reverse
termination_by last + 1 - cursor

/-- Rebuilds the class that `d` describes, following bases through at most `depth` levels. -/
def build (frame : Frame) (demangler : Demangler) : (depth : Nat) → BaseDescriptor → Decode Class
  | depth, d => do
    let name ← nameOf demangler (← d.type frame)
    let leaf : Class := { Class.parse name with descriptor := some d }
    if d.subElementCount = 0 then return leaf
    match depth with
    | 0 =>
      Decode.cut (tooDeep name d)
      return leaf
    | depth + 1 =>
      match ← d.hierarchy frame with
      | none =>
        Decode.cut (noHierarchy name d)
        return leaf
      | some h =>
        let bases ← walk frame (build frame demangler depth) h name (lastSlot d h) 1 []
        return { leaf with bases }

/-- Rebuilds the class that `d` describes, with the tree of its bases. -/
def ofBase (frame : Frame) (demangler : Demangler) (d : BaseDescriptor) : Decode Class := do
  let c ← build frame demangler maxDepth d
  Decode.note .rebuilt (.done c)

/-- Rebuilds the class that a locator describes: that of the first slot of its array. -/
def ofLocator (frame : Frame) (demangler : Demangler) (l : Locator) : Decode (Option Class) := do
  let some h ← l.hierarchy frame | return none
  let some d ← h.base frame 0 | return none
  return some (← ofBase frame demangler d)

end Hierarchy

end RttiProbe
