import RttiProbe.Journal
import RttiProbe.Memory.Accessor
import RttiProbe.Memory.Word
/-!
# Decoders

A decoder is written down as the tree of questions it asks about memory: each node asks one, and
its children are what it does with each answer.  A decoder cannot fail of its own accord and cannot
see why a read failed: memory that is not accessible is the answer `none`, and any other failure
ends the run.  Both rules are laid down once, in `Decode.run`, for every decoder and every
accessor.
-/

set_option autoImplicit false

namespace RttiProbe

/-- A decoder with a result in `α`. -/
inductive Decode (α : Type) where
  /-- the result -/
  | done (result : α)
  /-- an entry for the journal -/
  | note (event : Event) (next : Decode α)
  /-- may the byte at the address be read? -/
  | ask (address : Memory.Address) (next : Bool → Decode α)
  /-- which bytes are at the address? -/
  | read (address : Memory.Address) (length : Nat) (next : Option Bytes → Decode α)

namespace Decode

variable {α β : Type}

/-! ## Sequence -/

/-- Runs a decoder on the result of another. -/
protected def bind : Decode α → (α → Decode β) → Decode β
  | done a, f => f a
  | note e next, f => note e (next.bind f)
  | ask a next, f => ask a fun answer => (next answer).bind f
  | read a n next, f => read a n fun answer => (next answer).bind f

instance : Monad Decode where
  pure := done
  bind := Decode.bind

@[simp] theorem pure_eq (a : α) : (pure a : Decode α) = done a := rfl

@[simp] theorem bind_eq (x : Decode α) (f : α → Decode β) : x >>= f = x.bind f := rfl

theorem bind_done (x : Decode α) : x.bind done = x := by
  induction x with
  | done => rfl
  | note e next ih => simp [Decode.bind, ih]
  | ask a next ih => simp [Decode.bind, ih]
  | read a n next ih => simp [Decode.bind, ih]

theorem bind_assoc {γ : Type} (x : Decode α) (f : α → Decode β) (g : β → Decode γ) :
    (x.bind f).bind g = x.bind fun a => (f a).bind g := by
  induction x with
  | done => rfl
  | note e next ih => simp [Decode.bind, ih]
  | ask a next ih => simp [Decode.bind, ih]
  | read a n next ih => simp [Decode.bind, ih]

instance : LawfulMonad Decode :=
  LawfulMonad.mk' Decode bind_done (fun _ _ => rfl) bind_assoc

/-! ## Steps -/

/-- Puts a message into the journal. -/
def log (level : Level) (text : Text) : Decode Unit := note (.message ⟨level, text⟩) (done ())

/-- Records that a class of a hierarchy was cut short. -/
def cut (warning : Text) : Decode Unit := note (.cut warning) (done ())

/-- Whether the byte at an address may be read. -/
def readable (a : Memory.Address) : Decode Bool := ask a done

/-- The bytes at an address, if they are accessible. -/
def bytes (a : Memory.Address) (n : Nat) : Decode (Option Bytes) := read a n done

/-- The little-endian number in `n` bytes at an address. -/
def word (a : Memory.Address) (n : Nat) : Decode (Option Nat) :=
  read a n fun answer => done (answer.map Memory.Word.ofBytes)

/-- A pointer of the target. -/
def pointer (frame : Frame) (a : Memory.Address) : Decode (Option Memory.Address) :=
  read a frame.width.bytes fun answer =>
    done (answer.bind fun bs => Memory.Address.ofNat? (Memory.Word.ofBytes bs))

/-! ## Runs -/

/-- What a run leaves behind: its journal, and its result or the failure that ended it. -/
structure Outcome (α : Type) where
  journal : List Event
  result : Except Error α

namespace Outcome

/-- The same run with an entry before all others. -/
def after (event : Event) (o : Outcome α) : Outcome α := { o with journal := event :: o.journal }

/-- What the run has to tell the user. -/
def messages (o : Outcome α) : List Message := Journal.messages o.journal

end Outcome

/-- Runs a decoder against an accessor.  A read of inaccessible memory is answered by `none`; the
first read that fails in any other way ends the run with its failure. -/
@[specialize]
def run {m : Type → Type} [Monad m] (accessor : Accessor m) : Decode α → m (Outcome α)
  | done a => pure ⟨[], .ok a⟩
  | note e next => do
    let outcome ← run accessor next
    pure (outcome.after e)
  | ask a next => do
    let answer ← accessor.readable a
    run accessor (next answer)
  | read a n next => do
    match ← accessor.read a n with
    | .ok bs => run accessor (next (some bs))
    | .error e =>
      if e.isUnreadable then run accessor (next none)
      else pure ⟨[], .error e⟩

end Decode

end RttiProbe
