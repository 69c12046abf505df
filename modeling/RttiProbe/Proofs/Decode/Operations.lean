import Mathlib.Data.Vector.Defs
import RttiProbe.Decode
/-!
# Operations

A decoder has no say in what becomes of a failure.  An operation has: it is run against an accessor
step by step, its result is a value or an error, and it may catch an error or raise one of its own.
`readInto` is where a lack of access is turned into no value, and everything above it is written
with the errors in sight.

An operation performs a decoder if, from every state of the accessor, both come to the same result
or error, note the same, and leave the accessor in the same state.  There is one law for each step,
so that operations are followed through their decoders one step at a time.
-/

set_option autoImplicit false

namespace RttiProbe

open Memory (Address)

/-! ## Accessors that read into buffers -/

/-- An accessor that is given a buffer to read into: a read fills all of it, or fails. -/
structure BufferedAccessor (σ : Type) where
  /-- the size of the target's pointers -/
  width : Memory.PointerWidth
  /-- where the module under study is loaded -/
  moduleBase : Address
  /-- whether the byte at an address may be read -/
  readable : Address → StateM σ Bool
  /-- what a buffer of a given size holds after a read at an address -/
  fill : Address → (n : Nat) → StateM σ (Except Error (List.Vector UInt8 n))

namespace BufferedAccessor

variable {σ : Type}

/-- The same accessor, with the contents of its buffers for answers. -/
def accessor (target : BufferedAccessor σ) : Accessor (StateM σ) where
  width := target.width
  moduleBase := target.moduleBase
  readable := target.readable
  read a n := fun state =>
    let (answer, state) := target.fill a n state
    (answer.map List.Vector.toList, state)

/-- How the records of the module under study refer to memory. -/
def frame (target : BufferedAccessor σ) : Frame := target.accessor.frame

end BufferedAccessor

/-! ## Operations -/

/-- What is done with an accessor in a state and a journal: a result or an error, and what they are
afterwards. -/
abbrev Operation (σ : Type) : Type → Type := ExceptT Error (StateM (σ × List Event))

namespace Operation

variable {σ α β : Type} {target : BufferedAccessor σ}

/-- Puts an entry into the journal. -/
def note (event : Event) : Operation σ Unit :=
  ExceptT.mk fun (state, journal) => (.ok (), state, journal ++ [event])

/-- Puts a message into the journal. -/
def log (level : Level) (text : Text) : Operation σ Unit := note (.message ⟨level, text⟩)

/-- Records that a class of a hierarchy was cut short. -/
def cut (warning : Text) : Operation σ Unit := note (.cut warning)

/-- Asks whether the byte at an address may be read. -/
def isReadable (target : BufferedAccessor σ) (a : Address) : Operation σ Bool :=
  ExceptT.mk fun (state, journal) =>
    let (answer, state) := target.readable a state
    (.ok answer, state, journal)

/-- Reads into a buffer, and fails as the accessor does. -/
def readBytes (target : BufferedAccessor σ) (a : Address) (n : Nat) :
    Operation σ (List.Vector UInt8 n) :=
  ExceptT.mk fun (state, journal) =>
    let (answer, state) := target.fill a n state
    (answer, state, journal)

/-- Reads into a buffer.  Where memory is not accessible there is nothing; any other failure is
passed on. -/
def readInto (target : BufferedAccessor σ) (a : Address) (n : Nat) :
    Operation σ (Option (List.Vector UInt8 n)) :=
  tryCatch (do return some (← readBytes target a n)) fun
    | .unreadable _ => return none
    | e => throw e

/-! ## Performance -/

/-- Over an accessor in any state, and after any journal, the operation comes to what the decoder
comes to. -/
def Performs (target : BufferedAccessor σ) (x : Operation σ α) (d : Decode α) : Prop :=
  ∀ state journal, x.run (state, journal)
    = ((d.run target.accessor state).1.result, (d.run target.accessor state).2,
      journal ++ (d.run target.accessor state).1.journal)

theorem run_bind (x : Operation σ α) (f : α → Operation σ β) (s : σ × List Event) :
    (x >>= f).run s =
      match x.run s with
      | (.ok a, s') => (f a).run s'
      | (.error e, s') => (.error e, s') := by
  show (ExceptT.bindCont f (x.run s).1) (x.run s).2 = _
  rcases x.run s with ⟨result, s'⟩
  cases result with
  | ok a => rfl
  | error e => rfl

theorem run_tryCatch (x : Operation σ α) (handle : Error → Operation σ α) (s : σ × List Event) :
    (tryCatch x handle).run s =
      match x.run s with
      | (.ok a, s') => (.ok a, s')
      | (.error e, s') => (handle e).run s' := by
  simp only [tryCatch, tryCatchThe, MonadExceptOf.tryCatch, ExceptT.tryCatch, ExceptT.run,
    ExceptT.mk, bind, StateT.bind]
  rcases x s with ⟨result, s'⟩
  cases result <;> rfl

/-- What is read is what the accessor fills the buffer with, or nothing where memory is not
accessible. -/
theorem run_readInto {a : Address} {n : Nat} {state state' : σ} {journal : List Event}
    {answer : Except Error (List.Vector UInt8 n)} (h : target.fill a n state = (answer, state')) :
    (readInto target a n).run (state, journal) =
      (match answer with
        | .ok buffer => .ok (some buffer)
        | .error e => if e.isUnreadable then .ok none else .error e, state', journal) := by
  have hbytes : (readBytes target a n).run (state, journal) = (answer, state', journal) := by
    simp only [readBytes, ExceptT.run, ExceptT.mk, h]
  unfold readInto
  rw [run_tryCatch, run_bind, hbytes]
  cases answer with
  | ok buffer => rfl
  | error e => cases e <;> rfl

end Operation

/-- The run of a sequence, over an accessor with a state. -/
theorem Decode.run_bind_state {σ α β : Type} (accessor : Accessor (StateM σ)) (x : Decode α)
    (f : α → Decode β) (state : σ) :
    (x.bind f).run accessor state =
      match x.run accessor state with
      | (⟨journal, .ok a⟩, state') =>
        ({ ((f a).run accessor state').1 with
            journal := journal ++ ((f a).run accessor state').1.journal },
          ((f a).run accessor state').2)
      | (⟨journal, .error e⟩, state') => (⟨journal, .error e⟩, state') := by
  induction x generalizing state with
  | done a => rfl
  | note event next ih =>
      have hrun (y : Decode β) : (Decode.note event y).run accessor state
          = ((y.run accessor state).1.after event, (y.run accessor state).2) := rfl
      have hnext : (Decode.note event next).run accessor state
          = ((next.run accessor state).1.after event, (next.run accessor state).2) := rfl
      rw [Decode.bind, hrun, hnext, ih]
      rcases next.run accessor state with ⟨⟨journal, result⟩, state'⟩
      cases result <;> rfl
  | ask a next ih => exact ih (accessor.readable a state).1 (accessor.readable a state).2
  | read a n next ih =>
      obtain ⟨answer, state', hanswer⟩ :
          ∃ answer state', accessor.read a n state = (answer, state') := ⟨_, _, rfl⟩
      rw [Decode.bind, run, run]
      simp only [bind, StateT.bind, hanswer]
      cases answer with
      | ok bs => exact ih (some bs) state'
      | error e =>
          dsimp only
          split
          · exact ih none state'
          · rfl

namespace Operation

namespace Performs

variable {σ α β : Type} {target : BufferedAccessor σ}

protected theorem pure (a : α) : Performs target (pure a) (.done a) := by
  intro state journal
  show (Except.ok a, state, journal) = (Except.ok a, state, journal ++ [])
  rw [List.append_nil]

/-- In sequences the second parts are performed on the result of the first, unless that failed. -/
theorem bind {x : Operation σ α} {d : Decode α} {f : α → Operation σ β} {g : α → Decode β}
    (hx : Performs target x d) (hf : ∀ a, Performs target (f a) (g a)) :
    Performs target (x >>= f) (d.bind g) := by
  intro state journal
  rw [run_bind, hx state journal, Decode.run_bind_state]
  rcases d.run target.accessor state with ⟨⟨noted, result⟩, state'⟩
  cases result with
  | ok a =>
      dsimp only
      rw [hf a state' (journal ++ noted), List.append_assoc]
  | error e => rfl

theorem note {x : Operation σ α} {next : Decode α} (h : Performs target x next) (event : Event) :
    Performs target (do Operation.note event; x) (.note event next) := by
  intro state journal
  show x.run (state, journal ++ [event]) = (_, _, journal ++ event :: _)
  rw [h state (journal ++ [event]), List.append_assoc]
  rfl

theorem isReadable {f : Bool → Operation σ α} {next : Bool → Decode α} {a : Address}
    (h : ∀ answer, Performs target (f answer) (next answer)) :
    Performs target (do f (← Operation.isReadable target a)) (.ask a next) := by
  intro state journal
  exact h (target.readable a state).1 (target.readable a state).2 journal

/-- A read is answered by what is in the buffer or by nothing, or both runs end with its failure. -/
theorem readInto {a : Address} {n : Nat} {f : Option (List.Vector UInt8 n) → Operation σ α}
    {next : Option Bytes → Decode α} (hnone : Performs target (f none) (next none))
    (hsome : ∀ buffer, Performs target (f (some buffer)) (next (some buffer.toList))) :
    Performs target (do f (← Operation.readInto target a n)) (.read a n next) := by
  intro state journal
  obtain ⟨answer, state', hanswer⟩ :
      ∃ answer state', target.fill a n state = (answer, state') := ⟨_, _, rfl⟩
  have hread : target.accessor.read a n state = (answer.map List.Vector.toList, state') := by
    simp only [BufferedAccessor.accessor, hanswer]
  rw [run_bind, run_readInto hanswer, Decode.run]
  simp only [Bind.bind, StateT.bind, hread]
  cases answer with
  | ok buffer => exact hsome buffer state' journal
  | error e =>
      by_cases he : e.isUnreadable = true
      · simp only [Except.map, he, if_true]
        exact hnone state' journal
      · simp only [Except.map, he]
        show (Except.error e, state', journal) = (Except.error e, state', journal ++ [])
        rw [List.append_nil]

end Performs

end Operation

end RttiProbe
