import RttiProbe.Proofs.Decode.Results
import RttiProbe.Record.Read
/-!
# Steps of decoders

How long the run of a decoder against a memory is, and what it reads there: a run does not depend on
the rest of the memory.  Reads of records and strings take a number of steps that does not depend on
what the memory holds.  For a decoder whose length depends on what it finds, `Spends` says that a
budget is enough for it and how much of the budget a result leaves, so that the costs of a sequence
are those of its parts.
-/

set_option autoImplicit false

namespace RttiProbe

/-- The same memory, except that only some reads are answered. -/
def Memory.only (memory : Memory) (answered : Memory.Address → Nat → Bool) : Memory :=
  { memory with
    read := fun a n => if answered a n then memory.read a n else .error (.unreadable a) }

theorem Memory.Answers.of_only {memory : Memory} {answered : Memory.Address → Nat → Bool}
    {a : Memory.Address} {n : Nat} {bs : Bytes}
    (h : (memory.only answered).Answers a n (some bs)) :
    answered a n = true ∧ memory.Answers a n (some bs) := by
  unfold Memory.Answers at h ⊢
  have hread : (memory.only answered).read a n =
      if answered a n then memory.read a n else .error (.unreadable a) := rfl
  rw [hread] at h
  by_cases ha : answered a n = true
  · rw [if_pos ha] at h
    exact ⟨ha, h⟩
  · rw [if_neg ha] at h
    cases h.2

namespace Decode

variable {α β : Type} {memory : Memory}

/-- The number of steps of a run: the entries it makes, the questions it asks and the reads it
tries, up to a failure that ends it. -/
def steps (memory : Memory) : Decode α → Nat
  | done _ => 0
  | note _ next => 1 + steps memory next
  | ask a next => 1 + steps memory (next (memory.readable a))
  | read a n next =>
    1 + match memory.read a n with
      | .ok bs => steps memory (next (some bs))
      | .error e => if e.isUnreadable then steps memory (next none) else 0

theorem steps_read_le {a : Memory.Address} {n m : Nat} {next : Option Bytes → Decode α}
    (h : ∀ answer, steps memory (next answer) ≤ m) : steps memory (read a n next) ≤ 1 + m := by
  rw [steps]
  apply Nat.add_le_add_left
  split
  · exact h _
  · split
    · exact h none
    · exact Nat.zero_le m

/-- A sequence takes the steps of its first part and, if that has a result, those of its second. -/
theorem steps_bind (x : Decode α) (f : α → Decode β) :
    steps memory (x.bind f) = steps memory x
      + match (Id.run (x.run memory)).result with
        | .ok a => steps memory (f a)
        | .error _ => 0 := by
  induction x with
  | done a => exact (Nat.zero_add _).symm
  | note event next ih =>
      rw [Decode.bind, steps, steps, ih, Nat.add_assoc]
      rfl
  | ask a next ih =>
      rw [Decode.bind, steps, steps, ih, Nat.add_assoc]
      rfl
  | read a n next ih =>
      rw [Decode.bind, steps, steps, run_read, Nat.add_assoc]
      congr 1
      cases memory.read a n with
      | ok bs => exact ih (some bs)
      | error e =>
          by_cases he : e.isUnreadable = true
          · simp only [he, if_true]
            exact ih none
          · simp [he]

theorem steps_bind_le {x : Decode α} {f : α → Decode β} {m n : Nat} (hx : steps memory x ≤ m)
    (hf : ∀ a, steps memory (f a) ≤ n) : steps memory (x.bind f) ≤ m + n := by
  rw [steps_bind]
  apply Nat.add_le_add hx
  split
  · exact hf _
  · exact Nat.zero_le n

/-! ## Reads -/

/-- The reads that a run tries, by address and length. -/
def reads (memory : Memory) : Decode α → List (Memory.Address × Nat)
  | done _ => []
  | note _ next => reads memory next
  | ask a next => reads memory (next (memory.readable a))
  | read a n next =>
    (a, n) :: match memory.read a n with
      | .ok bs => reads memory (next (some bs))
      | .error e => if e.isUnreadable then reads memory (next none) else []

/-- A run does not depend on what it does not read. -/
theorem run_only {answered : Memory.Address → Nat → Bool} {x : Decode α}
    (h : ∀ r ∈ reads memory x, answered r.1 r.2 = true) :
    Id.run (x.run (memory.only answered)) = Id.run (x.run memory)
      ∧ steps (memory.only answered) x = steps memory x := by
  induction x with
  | done a => exact ⟨rfl, rfl⟩
  | note event next ih =>
      obtain ⟨hrun, hsteps⟩ := ih h
      exact ⟨congrArg (Outcome.after event) hrun, congrArg (1 + ·) hsteps⟩
  | ask a next ih =>
      obtain ⟨hrun, hsteps⟩ := ih (memory.readable a) h
      exact ⟨hrun, congrArg (1 + ·) hsteps⟩
  | read a n next ih =>
      rw [reads] at h
      have hread : (memory.only answered).read a n = memory.read a n :=
        if_pos (h (a, n) List.mem_cons_self)
      have hrest := fun r hr => h r (List.mem_cons_of_mem _ hr)
      rw [run_read, run_read, steps, steps, hread]
      cases hanswer : memory.read a n with
      | ok bs =>
          rw [hanswer] at hrest
          obtain ⟨hrun, hsteps⟩ := ih (some bs) hrest
          exact ⟨hrun, congrArg (1 + ·) hsteps⟩
      | error e =>
          rw [hanswer] at hrest
          by_cases he : e.isUnreadable = true
          · simp only [he, if_true] at hrest ⊢
            obtain ⟨hrun, hsteps⟩ := ih none hrest
            exact ⟨hrun, congrArg (1 + ·) hsteps⟩
          · simp [he]

/-! ## Budgets -/

/-- The budget is enough for a run, and if the run has a result `a`, at least `rest a` of the budget
is left. -/
structure Spends (memory : Memory) (x : Decode α) (budget : Nat) (rest : α → Nat) : Prop where
  within : steps memory x ≤ budget
  leaves : ∀ a, Gives memory x a → steps memory x + rest a ≤ budget

namespace Spends

theorem done {a : α} {budget : Nat} {rest : α → Nat} (h : rest a ≤ budget) :
    Spends memory (.done a) budget rest where
  within := Nat.zero_le budget
  leaves := by
    intro b hb
    obtain rfl := gives_done.1 hb
    rw [steps, Nat.zero_add]
    exact h

theorem note {event : Event} {next : Decode α} {budget : Nat} {rest : α → Nat}
    (h : Spends memory next budget rest) : Spends memory (.note event next) (1 + budget) rest where
  within := Nat.add_le_add_left h.within 1
  leaves := by
    intro a ha
    have := h.leaves a (gives_note.1 ha)
    rw [steps]
    omega

theorem cut {warning : Text} {next : Unit → Decode α} {budget : Nat} {rest : α → Nat}
    (h : Spends memory (next ()) budget rest) :
    Spends memory ((Decode.cut warning).bind next) (1 + budget) rest :=
  h.note

/-- What a run does not need of a larger budget is left. -/
theorem frame {x : Decode α} {budget : Nat} {rest : α → Nat} (h : Spends memory x budget rest)
    (extra : Nat) : Spends memory x (budget + extra) (fun a => rest a + extra) where
  within := Nat.le_add_right_of_le h.within
  leaves := by
    intro a ha
    have := h.leaves a ha
    omega

theorem mono {x : Decode α} {budget budget' : Nat} {rest rest' : α → Nat}
    (h : Spends memory x budget rest) (hbudget : budget ≤ budget')
    (hrest : ∀ a, Gives memory x a → rest' a ≤ rest a) : Spends memory x budget' rest' where
  within := Nat.le_trans h.within hbudget
  leaves := by
    intro a ha
    have hle := h.leaves a ha
    have := hrest a ha
    omega

/-- In a sequence, the second part is paid from what the first part leaves. -/
theorem bind {x : Decode α} {f : α → Decode β} {budget : Nat} {rest : α → Nat} {rest' : β → Nat}
    (hx : Spends memory x budget rest)
    (hf : ∀ a, Gives memory x a → Spends memory (f a) (rest a) rest') :
    Spends memory (x.bind f) budget rest' := by
  constructor
  · rw [steps_bind]
    split
    · rename_i a ha
      have hle := hx.leaves a ha
      have := (hf a ha).within
      omega
    · exact hx.within
  · intro b hb
    obtain ⟨a, ha, hb⟩ := gives_bind.1 hb
    have hle := hx.leaves a ha
    have := (hf a ha).leaves b hb
    have hresult : (Id.run (x.run memory)).result = .ok a := ha
    rw [steps_bind, hresult]
    dsimp only
    omega

/-- A first part with a known number of steps leaves the rest of the budget. -/
theorem bind_of_steps_le {x : Decode α} {f : α → Decode β} {n : Nat} {rest : β → Nat}
    (hx : steps memory x ≤ n) (budget : Nat)
    (hf : ∀ a, Gives memory x a → Spends memory (f a) budget rest) :
    Spends memory (x.bind f) (n + budget) rest := by
  have hfirst : Spends memory x (n + budget) fun _ => budget :=
    ⟨Nat.le_add_right_of_le hx, fun _ _ => Nat.add_le_add_right hx budget⟩
  exact hfirst.bind hf

end Spends

end Decode

/-! ## Strings -/

namespace Memory.CString

variable {memory : Memory}

theorem steps_narrowBytes_le (start : Address) (room : Nat) (before : Bytes) :
    Decode.steps memory (narrowBytes start room before) ≤ 1 + room := by
  induction room generalizing before with
  | zero =>
      rw [narrowBytes]
      split
      · exact Nat.zero_le _
      · apply Decode.steps_read_le
        intro answer
        cases answer with
        | none => exact Nat.le_refl 0
        | some bs =>
            dsimp only
            split <;> exact Nat.le_refl 0
  | succ room ih =>
      rw [narrowBytes]
      split
      · exact Nat.zero_le _
      · apply Decode.steps_read_le
        intro answer
        cases answer with
        | none => exact Nat.zero_le _
        | some bs =>
            dsimp only
            split
            · exact Nat.zero_le _
            · rw [Nat.add_comm]
              exact ih (before ++ bs)

theorem steps_narrowChunks_le (start : Address) (chunks : Nat) (before : Bytes) :
    Decode.steps memory (narrowChunks start chunks before) ≤ chunks + (1 + maxUnits) := by
  induction chunks generalizing before with
  | zero => exact Nat.zero_le _
  | succ chunks ih =>
      rw [narrowChunks]
      split
      · exact Nat.zero_le _
      · rw [Nat.add_comm chunks 1, Nat.add_assoc]
        apply Decode.steps_read_le
        intro answer
        cases answer with
        | none =>
            have hbytes : Decode.steps memory (narrowBytes start (maxUnits - before.length) before)
                ≤ 1 + (maxUnits - before.length) := steps_narrowBytes_le start _ before
            dsimp only
            omega
        | some chunk =>
            dsimp only
            split
            · exact Nat.zero_le _
            · exact ih (before ++ chunk)

/-- A string takes no more steps than it has chunks, one more for each of its bytes, and one. -/
theorem steps_narrow_le (start : Address) :
    Decode.steps memory (narrow start) ≤ maxUnits / chunkSize + (1 + maxUnits) :=
  steps_narrowChunks_le start (maxUnits / chunkSize) []

end Memory.CString

/-! ## Records -/

namespace Record

variable {memory : Memory} {frame : Frame}

open Memory.CString (maxUnits chunkSize steps_narrow_le)

theorem steps_readFields_le {α : Type} (a : Memory.Address) (fields : Nat) (build : Bytes → α) :
    Decode.steps memory (readFields a fields build) ≤ 1 :=
  Decode.steps_read_le (m := 0) fun _ => Nat.le_refl 0

theorem steps_follow_le {α : Type} {read : Memory.Address → Decode (Option α)} {n : Nat}
    (h : ∀ a, Decode.steps memory (read a) ≤ n) (offset : Memory.Offset) :
    Decode.steps memory (follow frame offset read) ≤ n := by
  rw [follow]
  split
  · exact Nat.zero_le n
  · exact h _

theorem steps_pointer_le (a : Memory.Address) :
    Decode.steps memory (Decode.pointer frame a) ≤ 1 :=
  Decode.steps_read_le (m := 0) fun _ => Nat.le_refl 0

/-- A type descriptor is read as two pointers and a string. -/
theorem TypeDescriptor.steps_read_le (a : Memory.Address) :
    Decode.steps memory (TypeDescriptor.read frame a)
      ≤ 1 + (1 + (maxUnits / chunkSize + (1 + maxUnits))) := by
  unfold TypeDescriptor.read
  dsimp only
  split
  · rename_i second third _ _
    apply Decode.steps_bind_le (steps_pointer_le a)
    intro vftable
    cases vftable with
    | none => exact Nat.zero_le _
    | some vftable =>
        apply Decode.steps_bind_le (steps_pointer_le second)
        intro runtimeRef
        cases runtimeRef with
        | none => exact Nat.zero_le _
        | some runtimeRef =>
            apply Nat.le_trans (Decode.steps_bind_le (n := 0) (steps_narrow_le third) ?_)
            · exact Nat.le_refl _
            · intro name
              cases name <;> exact Nat.le_refl 0
  · exact Nat.zero_le _

theorem BaseDescriptor.steps_type_le (d : BaseDescriptor) :
    Decode.steps memory (d.type frame) ≤ 1 + (1 + (maxUnits / chunkSize + (1 + maxUnits))) :=
  steps_follow_le TypeDescriptor.steps_read_le d.typeDescriptor

theorem steps_nameOf_le (demangler : Demangler) (type : Option TypeDescriptor) :
    Decode.steps memory (nameOf demangler type) ≤ 1 := by
  cases type with
  | none => exact Nat.zero_le 1
  | some type =>
      unfold nameOf TypeDescriptor.name
      dsimp only
      split
      · exact Nat.zero_le 1
      · split
        · exact Nat.zero_le 1
        · split
          · exact Nat.le_refl 1
          · exact Nat.zero_le 1

theorem BaseDescriptor.steps_hierarchy_le (d : BaseDescriptor) :
    Decode.steps memory (d.hierarchy frame) ≤ 1 :=
  steps_follow_le (fun a => steps_readFields_le a 4 _) d.hierarchyDescriptor

/-- A slot is read as the offset in it and the record that this refers to. -/
theorem HierarchyDescriptor.steps_base_le (h : HierarchyDescriptor) (slot : Nat) :
    Decode.steps memory (h.base frame slot) ≤ 1 + 1 := by
  unfold HierarchyDescriptor.base
  split
  · exact Nat.zero_le _
  · split
    · exact Nat.zero_le _
    · apply Decode.steps_bind_le (steps_readFields_le _ 1 _)
      intro offset
      cases offset with
      | none => exact Nat.zero_le 1
      | some offset => exact steps_follow_le (fun a => steps_readFields_le a 7 _) offset

end Record

end RttiProbe
