import RttiProbe.Lookup
import RttiProbe.Proofs.Hierarchy.Operations
/-!
# Operations that look up the class of an object

The trail from an object to its class, and the questions answered at its end.  Every part of the
trail can be missing without an error, and every read along it can end the lookup with one.
-/

set_option autoImplicit false

namespace RttiProbe.Operation

open Memory (Address)
open Record

variable {σ : Type} {target : BufferedAccessor σ} {demangler : Demangler}

/-! ## The trail -/

/-- Where the locator that belongs to a virtual function table is. -/
def locatorAddress (target : BufferedAccessor σ) (vftable : Address) :
    Operation σ (Option Address) := do
  if vftable.isNull then return none
  match vftable.sub? target.frame.width.bytes with
  | none => return none
  | some slot =>
    if !(← isReadable target slot) then return none
    readPointer target slot

/-- The locator that belongs to a virtual function table. -/
def ofVftable (target : BufferedAccessor σ) (demangler : Demangler) (vftable : Address) :
    Operation σ (Option Locator) := do
  match ← locatorAddress target vftable with
  | none =>
    log .debug ("no complete object locator before vftable ".toList ++ vftable.display)
    return none
  | some a => validLocator target demangler a

/-- The locator of the class of an object, whose virtual function table its first member is. -/
def ofObject (target : BufferedAccessor σ) (demangler : Demangler) (object : Address) :
    Operation σ (Option Locator) := do
  match ← readPointer target object with
  | some vftable => ofVftable target demangler vftable
  | none =>
    log .debug ("object at ".toList ++ object.display ++ " is not readable".toList)
    return none

/-! ## Names and reports -/

/-- The name of the type that a locator describes, empty if it cannot be read. -/
def typeName (target : BufferedAccessor σ) (demangler : Demangler) (l : Locator) (demangle : Bool)
    (flags : Flags) : Operation σ Text := do
  nameOf demangler (← typeAt target l.typeDescriptor) demangle flags

/-- The name of the class of an object, empty if there is none. -/
def className (target : BufferedAccessor σ) (demangler : Demangler) (object : Address)
    (demangle : Bool) (flags : Flags) : Operation σ Text := do
  let some l ← ofObject target demangler object | return []
  typeName target demangler l demangle flags

/-- The parts of the name of the class of an object that two colons separate, outermost first. -/
def classNamespaces (target : BufferedAccessor σ) (demangler : Demangler) (object : Address) :
    Operation σ (List Text) := do
  return (Lookup.splitScopes (← className target demangler object true .standard)).filter
    (!·.isEmpty)

/-- The records of the class that a locator describes, and the tree of its bases. -/
def report (target : BufferedAccessor σ) (demangler : Demangler) (l : Locator) :
    Operation σ Text := do
  let name ← typeName target demangler l true .standard
  let titles : List Text :=
    [Locator.title name,
      "  ".toList ++ TypeDescriptor.title name,
      "    ".toList ++ HierarchyDescriptor.title name,
      "      ".toList ++ HierarchyDescriptor.arrayTitle name]
  let result := titles.flatMap (· ++ ['\n'])
  match ← rebuildLocated target demangler l with
  | none => return result
  | some c =>
    return result ++ (Text.lines c.outline).flatMap fun line => "        ".toList ++ line ++ ['\n']

/-! ## Classes are looked up as decoded -/

namespace Performs

theorem locatorAddress (vftable : Address) :
    Performs target (Operation.locatorAddress target vftable)
      (Lookup.locatorAddress target.frame vftable) := by
  unfold Operation.locatorAddress Lookup.locatorAddress
  split
  · exact .pure none
  · cases vftable.sub? target.frame.width.bytes with
    | none => exact .pure none
    | some slot =>
        refine .isReadable fun answer => ?_
        cases answer with
        | false => exact .pure none
        | true => exact readPointer slot

theorem ofVftable (vftable : Address) :
    Performs target (Operation.ofVftable target demangler vftable)
      (Lookup.ofVftable target.frame demangler vftable) := by
  refine (locatorAddress vftable).bind fun a => ?_
  cases a with
  | none => exact (Performs.pure none).note _
  | some a => exact validLocator a

theorem ofObject (object : Address) :
    Performs target (Operation.ofObject target demangler object)
      (Lookup.ofObject target.frame demangler object) := by
  refine (readPointer object).bind fun vftable => ?_
  cases vftable with
  | none => exact (Performs.pure none).note _
  | some vftable => exact ofVftable vftable

theorem typeName (l : Locator) (demangle : Bool) (flags : Flags) :
    Performs target (Operation.typeName target demangler l demangle flags)
      (Lookup.typeName target.frame demangler l demangle flags) := by
  refine (typeAt l.typeDescriptor).bind fun type => ?_
  cases type with
  | none => exact .pure []
  | some d => exact name d false demangle flags

theorem className (object : Address) (demangle : Bool) (flags : Flags) :
    Performs target (Operation.className target demangler object demangle flags)
      (Lookup.className target.frame demangler object demangle flags) := by
  refine (ofObject object).bind fun l => ?_
  cases l with
  | none => exact .pure []
  | some l => exact typeName l demangle flags

theorem classNamespaces (object : Address) :
    Performs target (Operation.classNamespaces target demangler object)
      (Lookup.classNamespaces target.frame demangler object) :=
  (className object true .standard).bind fun _ => .pure _

theorem report (l : Locator) :
    Performs target (Operation.report target demangler l)
      (Lookup.report target.frame demangler l) := by
  refine (typeName l true .standard).bind fun name => (rebuildLocated l).bind fun c => ?_
  cases c with
  | none =>
      dsimp only
      rw [List.append_nil]
      exact .pure _
  | some c =>
      dsimp only
      rw [List.flatMap_append, List.flatMap_map]
      exact .pure _

end Performs

end RttiProbe.Operation
