import RttiProbe.Proofs.Decode.Failures
import RttiProbe.Proofs.Hierarchy.Encoding
import RttiProbe.Proofs.Image.Reads
import RttiProbe.Proofs.Lookup.Operations
/-!
# Queries

All that a user of the library can ask about a target.  Each query has an operation, which reads
through the accessor and sees its errors, and a decoder, which is told of none.  The operation
performs the decoder, so a query fails exactly if one of its reads does for more than a lack of
access, whatever the accessor answers and however often it changes its mind.
-/

set_option autoImplicit false

namespace RttiProbe

open Memory (Address)
open Record

/-! ## Accessors -/

namespace BufferedAccessor

variable {σ : Type}

/-- The same accessor, which keeps a record of its calls beside its own state. -/
def recorded (target : BufferedAccessor σ) : BufferedAccessor (σ × List Call) where
  width := target.width
  moduleBase := target.moduleBase
  readable a := fun (state, calls) =>
    let (answer, state) := target.readable a state
    (answer, state, calls ++ [.readable a answer])
  fill a n := fun (state, calls) =>
    let (answer, state) := target.fill a n state
    (answer, state, calls ++ [.read a n (answer.map List.Vector.toList)])

theorem accessor_recorded (target : BufferedAccessor σ) :
    target.recorded.accessor = target.accessor.recorded := rfl

theorem read_eq_error_iff {target : BufferedAccessor σ} {a : Address} {n : Nat} {state : σ}
    {e : Error} :
    (target.accessor.read a n state).1 = .error e ↔ (target.fill a n state).1 = .error e := by
  show (target.fill a n state).1.map List.Vector.toList = .error e ↔ _
  cases (target.fill a n state).1 with
  | ok buffer => exact ⟨nofun, nofun⟩
  | error other =>
      constructor
      · rintro ⟨⟩
        rfl
      · rintro ⟨⟩
        rfl

/-- An accessor whose reads give as many bytes as they are asked for reads into buffers. -/
def ofAccessor (accessor : Accessor (StateM σ))
    (hlength : ∀ a n state bs, (accessor.read a n state).1 = .ok bs → bs.length = n) :
    BufferedAccessor σ where
  width := accessor.width
  moduleBase := accessor.moduleBase
  readable := accessor.readable
  fill a n := fun state =>
    (match h : (accessor.read a n state).1 with
      | .ok bs => .ok ⟨bs, hlength a n state bs h⟩
      | .error e => .error e, (accessor.read a n state).2)

theorem accessor_ofAccessor (accessor : Accessor (StateM σ))
    (hlength : ∀ a n state bs, (accessor.read a n state).1 = .ok bs → bs.length = n) :
    (ofAccessor accessor hlength).accessor = accessor := by
  have hread : (ofAccessor accessor hlength).accessor.read = accessor.read := by
    funext a n state
    refine Prod.ext ?_ rfl
    show Except.map List.Vector.toList (match h : (accessor.read a n state).1 with
      | .ok bs => .ok ⟨bs, hlength a n state bs h⟩
      | .error e => .error e) = _
    split
    · exact Eq.symm ‹_›
    · exact Eq.symm ‹_›
  show Accessor.mk _ _ _ (ofAccessor accessor hlength).accessor.read = accessor
  rw [hread]
  rfl

end BufferedAccessor

/-! ## Queries and their answers -/

/-- What a user of the library can ask about a target, with the kind of answer. -/
inductive Query : Type → Type where
  -- plain values
  | bytes (a : Address) (n : Nat) : Query (Option Bytes)
  | word (a : Address) (n : Nat) : Query (Option Nat)
  | pointer (a : Address) : Query (Option Address)
  | string (encoding : Memory.CString.Encoding) (a : Address) : Query (Option Bytes)
  -- records by their address
  | typeDescriptor (a : Address) : Query (Option TypeDescriptor)
  | hierarchyDescriptor (a : Address) : Query (Option HierarchyDescriptor)
  | baseDescriptor (a : Address) : Query (Option BaseDescriptor)
  | locator (a : Address) : Query (Option Locator)
  | validLocator (a : Address) : Query (Option Locator)
  -- what records refer to
  | slot (h : HierarchyDescriptor) (index : UInt32) : Query (Option BaseDescriptor)
  | slots (h : HierarchyDescriptor) : Query (List BaseDescriptor)
  | baseType (d : BaseDescriptor) : Query (Option TypeDescriptor)
  | baseHierarchy (d : BaseDescriptor) : Query (Option HierarchyDescriptor)
  | locatorType (l : Locator) : Query (Option TypeDescriptor)
  | locatorHierarchy (l : Locator) : Query (Option HierarchyDescriptor)
  | isValid (l : Locator) : Query Bool
  -- classes
  | rebuild (d : BaseDescriptor) : Query Class
  | rebuildLocated (l : Locator) : Query (Option Class)
  -- the class of an object
  | vftable (object : Address) : Query (Option Address)
  | locatorAddress (vftable : Address) : Query (Option Address)
  | locatorOfVftable (vftable : Address) : Query (Option Locator)
  | locatorOfObject (object : Address) : Query (Option Locator)
  | typeName (l : Locator) (demangle : Bool) (flags : Flags) : Query Text
  | className (object : Address) (demangle : Bool) (flags : Flags) : Query Text
  | classNamespaces (object : Address) : Query (List Text)
  | report (l : Locator) : Query Text

namespace Query

variable {σ α : Type}

/-- The decoder that finds the answer. -/
def decoder (frame : Frame) (demangler : Demangler) : {α : Type} → Query α → Decode α
  | _, .bytes a n => Decode.bytes a n
  | _, .word a n => Decode.word a n
  | _, .pointer a => Decode.pointer frame a
  | _, .string encoding a => Memory.CString.string encoding a
  | _, .typeDescriptor a => TypeDescriptor.read frame a
  | _, .hierarchyDescriptor a => HierarchyDescriptor.read a
  | _, .baseDescriptor a => BaseDescriptor.read a
  | _, .locator a => Locator.read a
  | _, .validLocator a => Locator.decode frame demangler a
  | _, .slot h index => h.base frame index.toNat
  | _, .slots h => h.bases frame
  | _, .baseType d => d.type frame
  | _, .baseHierarchy d => d.hierarchy frame
  | _, .locatorType l => l.type frame
  | _, .locatorHierarchy l => l.hierarchy frame
  | _, .isValid l => l.isValid frame demangler
  | _, .rebuild d => Hierarchy.ofBase frame demangler d
  | _, .rebuildLocated l => Hierarchy.ofLocator frame demangler l
  | _, .vftable object => Lookup.vftable frame object
  | _, .locatorAddress table => Lookup.locatorAddress frame table
  | _, .locatorOfVftable table => Lookup.ofVftable frame demangler table
  | _, .locatorOfObject object => Lookup.ofObject frame demangler object
  | _, .typeName l demangle flags => Lookup.typeName frame demangler l demangle flags
  | _, .className object demangle flags => Lookup.className frame demangler object demangle flags
  | _, .classNamespaces object => Lookup.classNamespaces frame demangler object
  | _, .report l => Lookup.report frame demangler l

/-- The operation that finds the answer. -/
def operation (target : BufferedAccessor σ) (demangler : Demangler) :
    {α : Type} → Query α → Operation σ α
  | _, .bytes a n => Operation.readValue target a fun (buffer : List.Vector UInt8 n) =>
      buffer.toList
  | _, .word a n => Operation.readValue target a fun (buffer : List.Vector UInt8 n) =>
      Operation.wordOf buffer
  | _, .pointer a => Operation.readPointer target a
  | _, .string encoding a => Operation.readString target encoding a
  | _, .typeDescriptor a => Operation.typeDescriptor target a
  | _, .hierarchyDescriptor a => Operation.hierarchyDescriptor target a
  | _, .baseDescriptor a => Operation.baseDescriptor target a
  | _, .locator a => Operation.locator target a
  | _, .validLocator a => Operation.validLocator target demangler a
  | _, .slot h index => Operation.baseClass target h index
  | _, .slots h => Operation.baseClasses target h
  | _, .baseType d => Operation.typeAt target d.typeDescriptor
  | _, .baseHierarchy d => Operation.hierarchyAt target d.hierarchyDescriptor
  | _, .locatorType l => Operation.typeAt target l.typeDescriptor
  | _, .locatorHierarchy l => Operation.hierarchyAt target l.hierarchyDescriptor
  | _, .isValid l => Operation.isValid target demangler l
  | _, .rebuild d => Operation.rebuild target demangler d
  | _, .rebuildLocated l => Operation.rebuildLocated target demangler l
  | _, .vftable object => Operation.readPointer target object
  | _, .locatorAddress table => Operation.locatorAddress target table
  | _, .locatorOfVftable table => Operation.ofVftable target demangler table
  | _, .locatorOfObject object => Operation.ofObject target demangler object
  | _, .typeName l demangle flags => Operation.typeName target demangler l demangle flags
  | _, .className object demangle flags =>
      Operation.className target demangler object demangle flags
  | _, .classNamespaces object => Operation.classNamespaces target demangler object
  | _, .report l => Operation.report target demangler l

/-- What the decoder of a query comes to, from a given state of the accessor. -/
def run (query : Query α) (accessor : Accessor (StateM σ)) (demangler : Demangler) (state : σ) :
    Decode.Outcome α × σ :=
  (query.decoder accessor.frame demangler).run accessor state

/-- What the operation of a query comes to, from a given state of the accessor. -/
def perform (query : Query α) (target : BufferedAccessor σ) (demangler : Demangler) (state : σ) :
    Decode.Outcome α × σ :=
  match (query.operation target demangler).run (state, []) with
  | (result, state, journal) => (⟨journal, result⟩, state)

/-- The operation of a query performs its decoder. -/
theorem performs (query : Query α) (target : BufferedAccessor σ) (demangler : Demangler) :
    Operation.Performs target (query.operation target demangler)
      (query.decoder target.frame demangler) := by
  cases query with
  | bytes a n => exact .readValue rfl fun _ => rfl
  | word a n => exact .readValue rfl fun _ => rfl
  | pointer a => exact .readPointer a
  | string encoding a => exact .readString encoding a
  | typeDescriptor a => exact .typeDescriptor a
  | hierarchyDescriptor a => exact .hierarchyDescriptor a
  | baseDescriptor a => exact .baseDescriptor a
  | locator a => exact .locator a
  | validLocator a => exact .validLocator a
  | slot h index => exact .baseClass h index
  | slots h => exact .baseClasses h
  | baseType d => exact .typeAt d.typeDescriptor
  | baseHierarchy d => exact .hierarchyAt d.hierarchyDescriptor
  | locatorType l => exact .typeAt l.typeDescriptor
  | locatorHierarchy l => exact .hierarchyAt l.hierarchyDescriptor
  | isValid l => exact .isValid l
  | rebuild d => exact .rebuild d
  | rebuildLocated l => exact .rebuildLocated l
  | vftable object => exact .readPointer object
  | locatorAddress table => exact .locatorAddress table
  | locatorOfVftable table => exact .ofVftable table
  | locatorOfObject object => exact .ofObject object
  | typeName l demangle flags => exact .typeName l demangle flags
  | className object demangle flags => exact .className object demangle flags
  | classNamespaces object => exact .classNamespaces object
  | report l => exact .report l

theorem perform_eq_run (query : Query α) (target : BufferedAccessor σ) (demangler : Demangler)
    (state : σ) :
    query.perform target demangler state = query.run target.accessor demangler state := by
  rw [perform, query.performs target demangler state []]
  rfl

end Query

/-! ## Failures -/

/-- An accessor that has no failure but a lack of access makes no call that fails. -/
theorem failure?_eq_none_of_gave {σ : Type} {accessor : Accessor (StateM σ)}
    (honly : ∀ a n state e, (accessor.read a n state).1 = .error e → e.isUnreadable = true)
    {call : Call} (h : accessor.Gave call) : call.failure? = none := by
  cases call with
  | readable a answer => rfl
  | read a n answer =>
      obtain ⟨state, hstate⟩ := h
      cases answer with
      | ok bs => rfl
      | error e => exact if_pos (honly a n state e hstate)

/-- Whatever an accessor does, and whatever is asked: the operation of a query does what its decoder
does; it is answered unless a read fails for more than a lack of access, it then fails for the
reason of the first read that does, and nothing is asked after that.  A lack of access never makes a
query fail, so over an accessor that knows no other failure every query is answered. -/
theorem query_faithful {σ α : Type} (target : BufferedAccessor σ) (demangler : Demangler)
    (query : Query α) (state : σ) :
    query.perform target demangler state = query.run target.accessor demangler state
      ∧ (∃ calls,
        query.perform target.recorded demangler (state, [])
            = ((query.perform target demangler state).1,
              (query.perform target demangler state).2, calls)
          ∧ Faithful calls (query.perform target demangler state).1.result)
      ∧ ((∀ a n other e, (target.fill a n other).1 = .error e → e.isUnreadable = true) →
          ∃ value, (query.perform target demangler state).1.result = .ok value) := by
  obtain ⟨calls, hrun, hcalls, hgave⟩ := Decode.run_recorded target.accessor
    (query.decoder target.frame demangler) state []
  have hperform := query.perform_eq_run target demangler state
  refine ⟨hperform, ⟨calls, ?_, ?_⟩, ?_⟩
  · rw [hperform, query.perform_eq_run target.recorded, target.accessor_recorded]
    exact hrun
  · rw [hperform]
    exact hcalls
  · intro honly
    rw [hperform]
    refine hcalls.ok_iff.2 fun call hcall => failure?_eq_none_of_gave ?_ (hgave call hcall)
    intro a n other e he
    exact honly a n other e (BufferedAccessor.read_eq_error_iff.1 he)

namespace Hierarchy

/-- The sample image, in which reads that start in one of the ranges fail. -/
def sampleAccessor (ranges : List (Address × Address)) : Accessor (StateM Unit) :=
  (Accessor.ofMemory sampleImage.memory).failingWithin ranges

theorem length_of_sampleAccessor_read {ranges : List (Address × Address)} {a : Address} {n : Nat}
    {state : Unit} {bs : Bytes} (h : ((sampleAccessor ranges).read a n state).1 = .ok bs) :
    bs.length = n := by
  unfold sampleAccessor Accessor.failingWithin at h
  dsimp only at h
  split at h
  · cases h
  · exact Image.length_of_readBytes h

/-- The sample image read into buffers. -/
def sampleTarget (ranges : List (Address × Address)) : BufferedAccessor Unit :=
  .ofAccessor (sampleAccessor ranges) fun _ _ _ _ h => length_of_sampleAccessor_read h

end Hierarchy

open Hierarchy (sampleImage sampleRoot plainDemangler sampleTarget)

/-- A lack of access is the only failure of the image, so the class of its root record is rebuilt.
Where the record of a base fails to be read, that is the first failure in the record of the calls,
and the rebuild ends with it. -/
theorem query_faithful_sample :
    (∀ a n other e, ((sampleTarget []).fill a n other).1 = .error e → e.isUnreadable = true)
      ∧ (∃ value, ((Query.rebuild sampleRoot).perform (sampleTarget []) plainDemangler ()).1.result
        = .ok value)
      ∧ ((Query.rebuild sampleRoot).perform (sampleTarget [(⟨0x1320⟩, ⟨0x1321⟩)]).recorded
          plainDemangler ((), [])).2.2.findSome? Call.failure?
        = some (.readFailure ⟨0x1320⟩ 28 .inputOutput)
      ∧ ((Query.rebuild sampleRoot).perform (sampleTarget [(⟨0x1320⟩, ⟨0x1321⟩)])
          plainDemangler ()).1.result = .error (.readFailure ⟨0x1320⟩ 28 .inputOutput) := by
  have honly : ∀ a n other e, ((sampleTarget []).fill a n other).1 = .error e →
      e.isUnreadable = true := by
    intro a n other e h
    rw [← BufferedAccessor.read_eq_error_iff, sampleTarget,
      BufferedAccessor.accessor_ofAccessor] at h
    change sampleImage.readBytes a n = .error e at h
    exact Image.isUnreadable_of_readBytes h
  have hfirst : ((Query.rebuild sampleRoot).perform (sampleTarget [(⟨0x1320⟩, ⟨0x1321⟩)]).recorded
      plainDemangler ((), [])).2.2.findSome? Call.failure?
        = some (.readFailure ⟨0x1320⟩ 28 .inputOutput) := by
    decide +kernel
  obtain ⟨-, ⟨calls, hrun, hcalls⟩, -⟩ := query_faithful (sampleTarget [(⟨0x1320⟩, ⟨0x1321⟩)])
    plainDemangler (.rebuild sampleRoot) ()
  refine ⟨honly, (query_faithful _ _ _ ()).2.2 honly, hfirst, (hcalls.error_iff _).2 ?_⟩
  rwa [hrun] at hfirst

end RttiProbe
