import RttiProbe.Proofs.Memory.Operations
import RttiProbe.Record.Read
/-!
# Operations that read records

Each record is read as one value, and each reference is followed to the next one.  An operation goes
on with a value that is there, says for itself what a missing one means, and leaves every error to
its caller.
-/

set_option autoImplicit false

namespace RttiProbe.Operation

open Memory (Address Offset)
open Record

variable {σ α : Type} {target : BufferedAccessor σ} {demangler : Demangler}

/-! ## References -/

/-- Goes on with the record that an offset refers to. -/
def follow (target : BufferedAccessor σ) (offset : Offset)
    (read : Address → Operation σ (Option α)) : Operation σ (Option α) :=
  match target.frame.resolve offset with
  | some a => read a
  | none => return none

/-! ## Type descriptors -/

/-- Reads the type descriptor at an address. -/
def typeDescriptor (target : BufferedAccessor σ) (a : Address) :
    Operation σ (Option TypeDescriptor) := do
  let size := target.frame.width.bytes
  match a.add? 0, a.add? size, a.add? (2 * size) with
  | some first, some second, some third =>
    let some vftable ← readPointer target first | return none
    let some runtimeRef ← readPointer target second | return none
    let some decoratedName ← readString target .narrow third | return none
    return some ⟨a, vftable, runtimeRef, decoratedName⟩
  | _, _, _ => return none

/-- Follows a reference to a type descriptor. -/
def typeAt (target : BufferedAccessor σ) (offset : Offset) : Operation σ (Option TypeDescriptor) :=
  follow target offset (typeDescriptor target)

/-- The name of a type, empty if it cannot be told. -/
def name (d : TypeDescriptor) (demangler : Demangler) (nameOnly demangle : Bool) (flags : Flags) :
    Operation σ Text := do
  if d.decoratedName.isEmpty then return []
  if !demangle then return Text.Utf8.decodeLossy d.decoratedName
  match demangler d.decoratedName flags with
  | none =>
    log .debug
      ("failed to demangle type descriptor at ".toList ++ d.location.display ++ ": ".toList
        ++ Text.Utf8.decodeLossy d.decoratedName)
    return []
  | some name => return if nameOnly then (Class.parse name).name else name

/-- The name of a type that may be missing. -/
def nameOf (demangler : Demangler) (type : Option TypeDescriptor) (demangle : Bool)
    (flags : Flags) : Operation σ Text :=
  match type with
  | some d => name d demangler false demangle flags
  | none => return []

/-! ## Hierarchy descriptors -/

/-- Reads the base class descriptor at an address. -/
def baseDescriptor (target : BufferedAccessor σ) (a : Address) :
    Operation σ (Option BaseDescriptor) :=
  readValue target a fun (buffer : List.Vector UInt8 28) => .ofFields a buffer.toList

/-- Reads the hierarchy descriptor at an address. -/
def hierarchyDescriptor (target : BufferedAccessor σ) (a : Address) :
    Operation σ (Option HierarchyDescriptor) :=
  readValue target a fun (buffer : List.Vector UInt8 16) => .ofFields a buffer.toList

/-- Follows a reference to a hierarchy descriptor. -/
def hierarchyAt (target : BufferedAccessor σ) (offset : Offset) :
    Operation σ (Option HierarchyDescriptor) :=
  follow target offset (hierarchyDescriptor target)

/-- The base class descriptor that a slot of the array of a class refers to. -/
def baseClass (target : BufferedAccessor σ) (h : HierarchyDescriptor) (index : UInt32) :
    Operation σ (Option BaseDescriptor) := do
  if h.baseCount ≤ index then return none
  match (target.frame.resolve h.baseArray).bind fun array => array.add? (index.toNat * 4) with
  | none => return none
  | some entry =>
    let some offset ← readValue target entry fun (buffer : List.Vector UInt8 4) =>
      offsetField buffer.toList 0 | return none
    follow target offset (baseDescriptor target)

theorem toNat_add_one_of_lt {index count : UInt32} (h : index < count) :
    (index + 1).toNat = index.toNat + 1 := by
  have hlt : index.toNat < count.toNat := UInt32.lt_iff_toNat_lt.1 h
  have hcount := count.toNat_lt
  rw [UInt32.toNat_add, UInt32.toNat_one]
  exact Nat.mod_eq_of_lt (by omega)

/-- The base class descriptors from a slot on, after those in `result`. -/
def baseClassesFrom (target : BufferedAccessor σ) (h : HierarchyDescriptor) (index : UInt32)
    (result : List BaseDescriptor) : Operation σ (List BaseDescriptor) := do
  if _h : index < h.baseCount then
    match ← baseClass target h index with
    | some d => baseClassesFrom target h (index + 1) (result ++ [d])
    | none => return result
  else return result
termination_by h.baseCount.toNat - index.toNat
decreasing_by
  have hlt : index.toNat < h.baseCount.toNat := UInt32.lt_iff_toNat_lt.1 ‹_›
  rw [toNat_add_one_of_lt ‹_›]
  omega

/-- The base class descriptors of the array of a class, up to the first that is not there. -/
def baseClasses (target : BufferedAccessor σ) (h : HierarchyDescriptor) :
    Operation σ (List BaseDescriptor) :=
  baseClassesFrom target h 0 []

/-! ## Locators -/

/-- Reads the locator at an address. -/
def locator (target : BufferedAccessor σ) (a : Address) : Operation σ (Option Locator) :=
  readValue target a fun (buffer : List.Vector UInt8 20) => .ofFields a buffer.toList

/-- Whether a locator leads to a type whose name is not blank. -/
def isValid (target : BufferedAccessor σ) (demangler : Demangler) (l : Locator) :
    Operation σ Bool := do
  match ← typeAt target l.typeDescriptor with
  | some d => return !(Text.trim (← name d demangler false true .standard)).isEmpty
  | none => return false

/-- Reads the locator at an address if there is a valid one. -/
def validLocator (target : BufferedAccessor σ) (demangler : Demangler) (a : Address) :
    Operation σ (Option Locator) := do
  if !(← isReadable target a) then return none
  let some l ← locator target a | return none
  if ← isValid target demangler l then return some l
  log .debug ("rejected complete object locator at ".toList ++ a.display)
  return none

/-! ## Records are read as they are decoded -/

namespace Performs

theorem follow {read : Address → Operation σ (Option α)} {decode : Address → Decode (Option α)}
    (hread : ∀ a, Performs target (read a) (decode a)) (offset : Offset) :
    Performs target (Operation.follow target offset read)
      (Record.follow target.frame offset decode) := by
  unfold Operation.follow Record.follow
  cases target.frame.resolve offset with
  | none => exact .pure none
  | some a => exact hread a

theorem typeDescriptor (a : Address) :
    Performs target (Operation.typeDescriptor target a) (TypeDescriptor.read target.frame a) := by
  have hself : a.add? 0 = some a := Address.ofNat?_toNat a
  unfold Operation.typeDescriptor TypeDescriptor.read
  dsimp only
  rw [hself]
  cases a.add? target.frame.width.bytes with
  | none => exact .pure none
  | some second =>
      cases a.add? (2 * target.frame.width.bytes) with
      | none => exact .pure none
      | some third =>
          refine (readPointer a).bind fun vftable => ?_
          cases vftable with
          | none => exact .pure none
          | some vftable =>
              refine (readPointer second).bind fun runtimeRef => ?_
              cases runtimeRef with
              | none => exact .pure none
              | some runtimeRef =>
                  refine (readString .narrow third).bind fun name => ?_
                  cases name <;> exact .pure _

theorem typeAt (offset : Offset) :
    Performs target (Operation.typeAt target offset)
      (Record.follow target.frame offset (TypeDescriptor.read target.frame)) :=
  follow typeDescriptor offset

theorem name (d : TypeDescriptor) (nameOnly demangle : Bool) (flags : Flags) :
    Performs target (Operation.name d demangler nameOnly demangle flags)
      (d.name demangler nameOnly demangle flags) := by
  unfold Operation.name TypeDescriptor.name
  split
  · exact .pure []
  · split
    · exact .pure _
    · cases demangler d.decoratedName flags with
      | none => exact (Performs.pure []).note _
      | some name => exact .pure _

theorem nameOf (type : Option TypeDescriptor) :
    Performs target (Operation.nameOf demangler type true .standard)
      (Record.nameOf demangler type) := by
  cases type with
  | none => exact .pure []
  | some d => exact name d false true .standard

theorem baseDescriptor (a : Address) :
    Performs target (Operation.baseDescriptor target a) (BaseDescriptor.read a) :=
  .readValue rfl fun _ => rfl

theorem hierarchyDescriptor (a : Address) :
    Performs target (Operation.hierarchyDescriptor target a) (HierarchyDescriptor.read a) :=
  .readValue rfl fun _ => rfl

theorem hierarchyAt (offset : Offset) :
    Performs target (Operation.hierarchyAt target offset)
      (Record.follow target.frame offset HierarchyDescriptor.read) :=
  follow hierarchyDescriptor offset

theorem baseClass (h : HierarchyDescriptor) (index : UInt32) :
    Performs target (Operation.baseClass target h index) (h.base target.frame index.toNat) := by
  unfold Operation.baseClass HierarchyDescriptor.base HierarchyDescriptor.slotAddress
  rw [Nat.mul_comm 4]
  simp only [UInt32.le_iff_toNat_le]
  split
  · exact .pure none
  · cases (target.frame.resolve h.baseArray).bind fun array => array.add? (index.toNat * 4) with
    | none => exact .pure none
    | some entry =>
        exact .value (.pure none) fun buffer => follow baseDescriptor (offsetField buffer.toList 0)

/-- A loop over the slots does what the decoder does with the slots that are left. -/
theorem baseClassesFrom (h : HierarchyDescriptor) {room : Nat} {index : UInt32}
    (result : List BaseDescriptor) (hroom : index.toNat + room = h.baseCount.toNat) :
    Performs target (Operation.baseClassesFrom target h index result)
      (h.basesFrom target.frame room index.toNat result.reverse) := by
  induction room generalizing index result with
  | zero =>
      have hend : ¬ index < h.baseCount := by
        rw [UInt32.lt_iff_toNat_lt]
        omega
      rw [Operation.baseClassesFrom, HierarchyDescriptor.basesFrom, dif_neg hend,
        List.reverse_reverse]
      exact .pure result
  | succ room ih =>
      have hlt : index < h.baseCount := by
        rw [UInt32.lt_iff_toNat_lt]
        omega
      have hnext := toNat_add_one_of_lt hlt
      rw [Operation.baseClassesFrom, HierarchyDescriptor.basesFrom, dif_pos hlt,
        List.reverse_reverse]
      refine (baseClass h index).bind fun d => ?_
      cases d with
      | none => exact .pure result
      | some d =>
          have hrest := ih (result ++ [d]) (by rw [hnext]; omega)
          rw [hnext, List.reverse_append] at hrest
          exact hrest

theorem baseClasses (h : HierarchyDescriptor) :
    Performs target (Operation.baseClasses target h) (h.bases target.frame) :=
  baseClassesFrom h [] (Nat.zero_add _)

theorem locator (a : Address) :
    Performs target (Operation.locator target a) (Locator.read a) :=
  .readValue rfl fun _ => rfl

theorem isValid (l : Locator) :
    Performs target (Operation.isValid target demangler l) (l.isValid target.frame demangler) := by
  refine (typeAt l.typeDescriptor).bind fun type => ?_
  cases type with
  | none => exact .pure false
  | some d => exact (name d false true .standard).bind fun text => .pure _

theorem validLocator (a : Address) :
    Performs target (Operation.validLocator target demangler a)
      (Locator.decode target.frame demangler a) := by
  refine .isReadable fun answer => ?_
  cases answer with
  | false => exact .pure none
  | true =>
      refine (locator a).bind fun l => ?_
      cases l with
      | none => exact .pure none
      | some l =>
          refine (isValid l).bind fun valid => ?_
          cases valid with
          | false => exact (Performs.pure none).note _
          | true => exact .pure (some l)

end Performs

end RttiProbe.Operation
