import RttiProbe.Decode
/-!
# Results of decoders

A memory that answers each question the same way every time gives a decoder at most one result.
`Gives` says which, and the laws of this module open a decoder one step at a time: a decoder that
reads gives what its continuation gives for the answer of the memory, and a sequence gives what its
second part gives for the result of the first.  Proofs about decoders use these laws and never
unfold a run.
-/

set_option autoImplicit false

namespace RttiProbe

/-- A read of a memory is answered: by bytes, or by nothing where the memory is not accessible.  A
read that fails in any other way has no answer. -/
def Memory.Answers (memory : Memory) (a : Memory.Address) (n : Nat) (answer : Option Bytes) :
    Prop :=
  match memory.read a n with
  | .ok bs => answer = some bs
  | .error e => e.isUnreadable = true ∧ answer = none

namespace Decode

variable {α β : Type} {memory : Memory}

/-- A decoder ends with a result when it is run against a memory. -/
def Gives (memory : Memory) (x : Decode α) (a : α) : Prop :=
  (Id.run (x.run memory)).result = .ok a

instance [DecidableEq α] (x : Decode α) (a : α) : Decidable (Gives memory x a) :=
  match h : (Id.run (x.run memory)).result with
  | .ok b => decidable_of_iff (b = a) (by rw [Gives, h]; exact ⟨congrArg _, Except.ok.inj⟩)
  | .error _ => isFalse (by rw [Gives, h]; nofun)

/-! ## Steps -/

theorem run_read (address : Memory.Address) (n : Nat) (next : Option Bytes → Decode α) :
    Id.run ((read address n next).run memory) =
      match memory.read address n with
      | .ok bs => Id.run ((next (some bs)).run memory)
      | .error e =>
          if e.isUnreadable then Id.run ((next none).run memory) else ⟨[], .error e⟩ := by
  rw [run, Id.run_bind]
  cases hread : memory.read address n with
  | ok bs => rfl
  | error e =>
      show Id.run (if e.isUnreadable then (next none).run memory else _) = _
      split <;> simp_all

theorem gives_done {a b : α} : Gives memory (done a) b ↔ b = a := by
  constructor
  · intro h
    exact (Except.ok.inj h).symm
  · rintro rfl
    rfl

theorem gives_note {event : Event} {next : Decode α} {a : α} :
    Gives memory (note event next) a ↔ Gives memory next a := Iff.rfl

theorem gives_ask {address : Memory.Address} {next : Bool → Decode α} {a : α} :
    Gives memory (ask address next) a ↔ Gives memory (next (memory.readable address)) a := Iff.rfl

theorem gives_read {address : Memory.Address} {n : Nat} {next : Option Bytes → Decode α} {a : α} :
    Gives memory (read address n next) a ↔
      ∃ answer, memory.Answers address n answer ∧ Gives memory (next answer) a := by
  unfold Gives Memory.Answers
  rw [run_read]
  cases memory.read address n with
  | ok bs => simp only [exists_eq_left]
  | error e =>
      by_cases he : e.isUnreadable = true
      · simp only [he, if_true, true_and, exists_eq_left]
      · simp [he]

/-! ## Sequences -/

/-- A sequence gives what its second part gives for the result of the first. -/
theorem gives_bind {x : Decode α} {f : α → Decode β} {b : β} :
    Gives memory (x.bind f) b ↔ ∃ a, Gives memory x a ∧ Gives memory (f a) b := by
  induction x with
  | done a => simp only [Decode.bind, gives_done, exists_eq_left]
  | note event next ih => simpa only [Decode.bind, gives_note] using ih
  | ask address next ih => exact ih (memory.readable address)
  | read address n next ih =>
      simp only [Decode.bind, gives_read, ih]
      constructor
      · rintro ⟨answer, hanswer, a, ha, hb⟩
        exact ⟨a, ⟨answer, hanswer, ha⟩, hb⟩
      · rintro ⟨a, ⟨answer, hanswer, ha⟩, hb⟩
        exact ⟨answer, hanswer, a, ha, hb⟩

/-- A memory gives a decoder one result at most. -/
theorem Gives.unique {x : Decode α} {a b : α} (ha : Gives memory x a) (hb : Gives memory x b) :
    a = b := by
  unfold Gives at ha hb
  rw [ha] at hb
  exact Except.ok.inj hb

/-! ## Failures -/

/-- A decoder ends with a failure when it is run against a memory. -/
def Fails (memory : Memory) (x : Decode α) (e : Error) : Prop :=
  (Id.run (x.run memory)).result = .error e

theorem Gives.not_fails {x : Decode α} {a : α} (h : Gives memory x a) (e : Error) :
    ¬ Fails memory x e := by
  unfold Gives at h
  unfold Fails
  rw [h]
  nofun

theorem result_bind (x : Decode α) (f : α → Decode β) :
    (Id.run ((x.bind f).run memory)).result =
      match (Id.run (x.run memory)).result with
      | .ok a => (Id.run ((f a).run memory)).result
      | .error e => .error e := by
  induction x with
  | done a => rfl
  | note event next ih => exact ih
  | ask address next ih => exact ih (memory.readable address)
  | read address n next ih =>
      rw [Decode.bind, run_read, run_read]
      cases memory.read address n with
      | ok bs => exact ih (some bs)
      | error e =>
          dsimp only
          split
          · exact ih none
          · rfl

/-- A sequence fails where its first part does, or its second part for the result of the first. -/
theorem fails_bind {x : Decode α} {f : α → Decode β} {e : Error} :
    Fails memory (x.bind f) e ↔
      Fails memory x e ∨ ∃ a, Gives memory x a ∧ Fails memory (f a) e := by
  unfold Fails Gives
  rw [result_bind]
  cases (Id.run (x.run memory)).result with
  | ok a => simp
  | error e' => simp

end Decode

end RttiProbe
