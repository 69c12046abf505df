import Mathlib.Data.List.Forall2
import RttiProbe.Proofs.Decode.Results
/-!
# Parallel runs

Two decoders run against two memories, and neither run fails.  They are parallel if their journals
correspond entry by entry and their results correspond.  What it means to correspond is a parameter,
so the laws of this module carry any correspondence of what is read through decoders that read in
step: they take two decoders apart one step at a time, as long as both take the same kind of step.
Where the two decoders take different steps, `Quiet` tells what each of them comes to by itself.
-/

set_option autoImplicit false

namespace RttiProbe.Decode

variable {α β γ δ : Type} {memory memory' : Memory}

/-! ## Runs of sequences -/

/-- The run of a sequence is that of its first part and, if that has a result, that of its second
after it. -/
theorem run_bind (x : Decode α) (f : α → Decode β) :
    Id.run ((x.bind f).run memory)
      = match (Id.run (x.run memory)).result with
        | .ok a =>
          { Id.run ((f a).run memory) with
            journal := (Id.run (x.run memory)).journal ++ (Id.run ((f a).run memory)).journal }
        | .error e => ⟨(Id.run (x.run memory)).journal, .error e⟩ := by
  induction x with
  | done a => rfl
  | note event next ih =>
      show (Id.run ((next.bind f).run memory)).after event = _
      rw [ih]
      show _ = match (Id.run (next.run memory)).result with
        | .ok a => _
        | .error e => _
      cases (Id.run (next.run memory)).result <;> rfl
  | ask a next ih => exact ih (memory.readable a)
  | read a n next ih =>
      rw [Decode.bind, run_read, run_read]
      cases memory.read a n with
      | ok bs => exact ih (some bs)
      | error e =>
          by_cases he : e.isUnreadable = true
          · simp only [he, if_true]
            exact ih none
          · simp [he]

/-! ## Correspondence -/

/-- Two runs without failure that correspond in what they note and in what they give. -/
structure Parallel (memory memory' : Memory) (Entries : Event → Event → Prop)
    (Results : α → β → Prop) (x : Decode α) (y : Decode β) : Prop where
  journals : List.Forall₂ Entries (Id.run (x.run memory)).journal (Id.run (y.run memory')).journal
  results : ∃ a b, Gives memory x a ∧ Gives memory' y b ∧ Results a b

namespace Parallel

variable {Entries : Event → Event → Prop} {Results : α → β → Prop}

theorem done {a : α} {b : β} (h : Results a b) :
    Parallel memory memory' Entries Results (.done a) (.done b) where
  journals := .nil
  results := ⟨a, b, rfl, rfl, h⟩

theorem note {event event' : Event} {x : Decode α} {y : Decode β} (he : Entries event event')
    (h : Parallel memory memory' Entries Results x y) :
    Parallel memory memory' Entries Results (.note event x) (.note event' y) where
  journals := .cons he h.journals
  results := h.results

theorem ask {a b : Memory.Address} {next : Bool → Decode α} {next' : Bool → Decode β}
    (hask : memory.readable a = memory'.readable b)
    (h : ∀ answer, Parallel memory memory' Entries Results (next answer) (next' answer)) :
    Parallel memory memory' Entries Results (.ask a next) (.ask b next') := by
  obtain ⟨hjournals, hresults⟩ := h (memory.readable a)
  rw [hask] at hjournals hresults
  constructor
  · show List.Forall₂ _ (Id.run ((next (memory.readable a)).run memory)).journal _
    rw [hask]
    exact hjournals
  · obtain ⟨c, d, hc, hd, hcd⟩ := hresults
    refine ⟨c, d, ?_, hd, hcd⟩
    show Gives memory (next (memory.readable a)) c
    rw [hask]
    exact hc

theorem run_read_of_answers {a : Memory.Address} {n : Nat} {next : Option Bytes → Decode α}
    {answer : Option Bytes} (h : memory.Answers a n answer) :
    Id.run ((read a n next).run memory) = Id.run ((next answer).run memory) := by
  rw [run_read]
  unfold Memory.Answers at h
  cases hread : memory.read a n with
  | ok bs =>
      rw [hread] at h
      rw [h]
  | error e =>
      rw [hread] at h
      simp only [h.1, h.2, if_true]

/-- Two reads go in step if they are given the same answer. -/
theorem read {a b : Memory.Address} {n : Nat} {next : Option Bytes → Decode α}
    {next' : Option Bytes → Decode β} {answer : Option Bytes} (ha : memory.Answers a n answer)
    (hb : memory'.Answers b n answer)
    (h : Parallel memory memory' Entries Results (next answer) (next' answer)) :
    Parallel memory memory' Entries Results (.read a n next) (.read b n next') where
  journals := by
    rw [run_read_of_answers ha, run_read_of_answers hb]
    exact h.journals
  results := by
    obtain ⟨c, d, hc, hd, hcd⟩ := h.results
    exact ⟨c, d, gives_read.2 ⟨answer, ha, hc⟩, gives_read.2 ⟨answer, hb, hd⟩, hcd⟩

/-- In sequences the second parts are run in step, each with the result of its first part. -/
theorem bind {x : Decode α} {y : Decode β} {f : α → Decode γ} {g : β → Decode δ}
    {Finals : γ → δ → Prop} (h : Parallel memory memory' Entries Results x y)
    (hnext : ∀ a b, Results a b → Parallel memory memory' Entries Finals (f a) (g b)) :
    Parallel memory memory' Entries Finals (x.bind f) (y.bind g) := by
  obtain ⟨a, b, ha, hb, hab⟩ := h.results
  have hfirst := h.journals
  obtain ⟨hsecond, c, d, hc, hd, hcd⟩ := hnext a b hab
  have hx : (Id.run (x.run memory)).result = .ok a := ha
  have hy : (Id.run (y.run memory')).result = .ok b := hb
  constructor
  · rw [run_bind, run_bind, hx, hy]
    exact List.rel_append hfirst hsecond
  · exact ⟨c, d, gives_bind.2 ⟨a, ha, hc⟩, gives_bind.2 ⟨b, hb, hd⟩, hcd⟩

end Parallel

/-! ## Quiet runs -/

/-- A run ends with a result and leaves its journal empty. -/
def Quiet (memory : Memory) (x : Decode α) (a : α) : Prop := Id.run (x.run memory) = ⟨[], .ok a⟩

namespace Quiet

theorem done (a : α) : Quiet memory (.done a) a := rfl

theorem gives {x : Decode α} {a : α} (h : Quiet memory x a) : Gives memory x a := by
  unfold Gives
  rw [h]

theorem read {a : Memory.Address} {n : Nat} {next : Option Bytes → Decode α}
    {answer : Option Bytes} {b : α} (ha : memory.Answers a n answer)
    (h : Quiet memory (next answer) b) : Quiet memory (.read a n next) b := by
  unfold Quiet
  rw [Parallel.run_read_of_answers ha]
  exact h

theorem ask {a : Memory.Address} {next : Bool → Decode α} {b : α}
    (h : Quiet memory (next (memory.readable a)) b) : Quiet memory (.ask a next) b := h

theorem bind {x : Decode α} {f : α → Decode β} {a : α} {b : β} (hx : Quiet memory x a)
    (hf : Quiet memory (f a) b) : Quiet memory (x.bind f) b := by
  unfold Quiet at hx hf ⊢
  rw [run_bind, hx]
  dsimp only
  rw [hf]
  rfl

/-- Quiet runs are parallel if their results correspond. -/
theorem parallel {Entries : Event → Event → Prop} {Results : α → β → Prop} {x : Decode α}
    {y : Decode β} {a : α} {b : β} (hx : Quiet memory x a) (hy : Quiet memory' y b)
    (h : Results a b) : Parallel memory memory' Entries Results x y where
  journals := by
    unfold Quiet at hx hy
    rw [hx, hy]
    exact .nil
  results := ⟨a, b, hx.gives, hy.gives, h⟩

end Quiet

end RttiProbe.Decode
