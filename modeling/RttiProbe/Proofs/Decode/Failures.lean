import RttiProbe.Decode
/-!
# Failures of reads

What becomes of the failures of an accessor that may behave in any way: it may answer the same
question differently each time, and it may fail with any error at any read.  `Accessor.recorded` is
the same accessor with a record of what it was asked and what it answered, and `Faithful` says how
the result of a run is determined by that record.  Memory that is not accessible never is a failure
of the run; any other failure of a read is, and the run stops there.

It holds of every decoder, since the failures of reads are dealt with where it is run.  An operation
deals with them itself, and it is by performing a decoder that it comes to share in this.
-/

set_option autoImplicit false

namespace RttiProbe

open Memory (Address)

/-! ## Records of calls -/

/-- A call of an accessor, with its answer. -/
inductive Call where
  /-- it was asked whether the byte at an address may be read -/
  | readable (address : Address) (answer : Bool)
  /-- it was asked for the bytes at an address -/
  | read (address : Address) (length : Nat) (answer : Except Error Bytes)
  deriving Repr, Inhabited

/-- The failure of a call, if it was more than memory that is not accessible. -/
def Call.failure? : Call → Option Error
  | .read _ _ (.error e) => if e.isUnreadable then none else some e
  | _ => none

/-- The same accessor, which keeps a record of its calls beside its own state. -/
def Accessor.recorded {σ : Type} (accessor : Accessor (StateM σ)) :
    Accessor (StateM (σ × List Call)) where
  width := accessor.width
  moduleBase := accessor.moduleBase
  readable a := fun (state, calls) =>
    let (answer, state) := accessor.readable a state
    (answer, state, calls ++ [.readable a answer])
  read a n := fun (state, calls) =>
    let (answer, state) := accessor.read a n state
    (answer, state, calls ++ [.read a n answer])

/-- An accessor gave the answer of a call, in one state or another. -/
def Accessor.Gave {σ : Type} (accessor : Accessor (StateM σ)) : Call → Prop
  | .readable a answer => ∃ state, (accessor.readable a state).1 = answer
  | .read a n answer => ∃ state, (accessor.read a n state).1 = answer

/-- The result of a run is what its calls make it. -/
structure Faithful {α : Type} (calls : List Call) (result : Except Error α) : Prop where
  /-- memory that is not accessible is not what a run fails for -/
  not_unreadable : ∀ e, result = .error e → e.isUnreadable = false
  /-- a run fails exactly if one of its reads did, and for the reason of the first that did -/
  error_iff : ∀ e, result = .error e ↔ calls.findSome? Call.failure? = some e
  /-- nothing is asked after a failure -/
  last : ∀ before call after, calls = before ++ call :: after → call.failure? ≠ none → after = []

namespace Faithful

variable {α : Type} {calls : List Call} {result : Except Error α}

/-- A run that asks nothing has a result. -/
theorem nil (a : α) : Faithful [] (.ok a) where
  not_unreadable := nofun
  error_iff := by simp
  last := by simp

/-- A call that does not fail may come first. -/
theorem cons {call : Call} (hcall : call.failure? = none) (h : Faithful calls result) :
    Faithful (call :: calls) result where
  not_unreadable := h.not_unreadable
  error_iff := by
    intro e
    rw [List.findSome?_cons, hcall]
    exact h.error_iff e
  last := by
    intro before other after hcalls hother
    cases before with
    | nil =>
        obtain ⟨rfl, -⟩ := List.cons.inj hcalls
        exact absurd hcall hother
    | cons first before =>
        obtain ⟨-, hrest⟩ := List.cons.inj hcalls
        exact h.last before other after hrest hother

/-- The run may end with a call that fails. -/
theorem failed {call : Call} {e : Error} (hcall : call.failure? = some e)
    (he : e.isUnreadable = false) : Faithful [call] (.error e : Except Error α) where
  not_unreadable := by
    intro other hother
    obtain rfl := Except.error.inj hother
    exact he
  error_iff := by
    intro other
    rw [List.findSome?_cons, hcall, Except.error.injEq, Option.some.injEq]
  last := by
    intro before other after hcalls _
    cases before with
    | nil => exact (List.cons.inj hcalls).2.symm
    | cons first before =>
        obtain ⟨-, hrest⟩ := List.cons.inj hcalls
        exact absurd hrest.symm (List.append_ne_nil_of_right_ne_nil before (List.cons_ne_nil _ _))

/-- A run has a result exactly if none of its reads failed. -/
theorem ok_iff (h : Faithful calls result) :
    (∃ a, result = .ok a) ↔ ∀ call ∈ calls, call.failure? = none := by
  rw [← List.findSome?_eq_none_iff]
  constructor
  · rintro ⟨a, rfl⟩
    cases hfind : calls.findSome? Call.failure? with
    | none => rfl
    | some e => cases (h.error_iff e).2 hfind
  · intro hnone
    cases hresult : result with
    | ok a => exact ⟨a, rfl⟩
    | error e =>
        rw [(h.error_iff e).1 hresult] at hnone
        cases hnone

end Faithful

/-! ## Runs -/

namespace Decode

variable {σ α : Type}

section Steps

variable {accessor : Accessor (StateM σ)} {a : Address} {n : Nat} {state state' : σ}

theorem run_ask_of_eq {next : Bool → Decode α} {answer : Bool}
    (h : accessor.readable a state = (answer, state')) :
    (ask a next).run accessor state = (next answer).run accessor state' := by
  rw [run]
  simp only [bind, StateT.bind, h]

variable {next : Option Bytes → Decode α}

theorem run_read_of_ok {bs : Bytes} (h : accessor.read a n state = (.ok bs, state')) :
    (read a n next).run accessor state = (next (some bs)).run accessor state' := by
  rw [run]
  simp only [bind, StateT.bind, h]

theorem run_read_of_unreadable {e : Error} (h : accessor.read a n state = (.error e, state'))
    (he : e.isUnreadable = true) :
    (read a n next).run accessor state = (next none).run accessor state' := by
  rw [run]
  simp only [bind, StateT.bind, h, he, if_true]

theorem run_read_of_failure {e : Error} (h : accessor.read a n state = (.error e, state'))
    (he : e.isUnreadable = false) :
    (read a n next).run accessor state = (⟨[], .error e⟩, state') := by
  rw [run]
  simp only [bind, StateT.bind, h, he, Bool.false_eq_true, if_false]
  rfl

end Steps

/-- A record of the calls does not change a run, and it determines the result. -/
theorem run_recorded (accessor : Accessor (StateM σ)) (x : Decode α) (state : σ)
    (before : List Call) :
    ∃ calls,
      x.run accessor.recorded (state, before)
          = ((x.run accessor state).1, (x.run accessor state).2, before ++ calls)
        ∧ Faithful calls (x.run accessor state).1.result ∧ ∀ call ∈ calls, accessor.Gave call := by
  induction x generalizing state before with
  | done a =>
      refine ⟨[], ?_, .nil a, nofun⟩
      rw [List.append_nil]
      rfl
  | note event next ih =>
      obtain ⟨calls, hrun, hcalls, hgave⟩ := ih state before
      refine ⟨calls, ?_, hcalls, hgave⟩
      show (fun r : Outcome α × σ × List Call => (r.1.after event, r.2))
        (next.run accessor.recorded (state, before)) = _
      rw [hrun]
      rfl
  | ask a next ih =>
      obtain ⟨answer, state', hanswer⟩ :
          ∃ answer state', accessor.readable a state = (answer, state') := ⟨_, _, rfl⟩
      have hrecorded : accessor.recorded.readable a (state, before)
          = (answer, state', before ++ [.readable a answer]) := by
        simp only [Accessor.recorded, hanswer]
      have hgave : accessor.Gave (.readable a answer) := ⟨state, by rw [hanswer]⟩
      obtain ⟨calls, hrun, hcalls, hrest⟩ := ih answer state' (before ++ [.readable a answer])
      rw [List.append_assoc] at hrun
      rw [run_ask_of_eq hanswer, run_ask_of_eq hrecorded]
      exact ⟨_, hrun, hcalls.cons rfl, List.forall_mem_cons.2 ⟨hgave, hrest⟩⟩
  | read a n next ih =>
      obtain ⟨answer, state', hanswer⟩ :
          ∃ answer state', accessor.read a n state = (answer, state') := ⟨_, _, rfl⟩
      have hrecorded : accessor.recorded.read a n (state, before)
          = (answer, state', before ++ [.read a n answer]) := by
        simp only [Accessor.recorded, hanswer]
      have hgave : accessor.Gave (.read a n answer) := ⟨state, by rw [hanswer]⟩
      cases answer with
      | ok bs =>
          obtain ⟨calls, hrun, hcalls, hrest⟩ := ih (some bs) state' (before ++ [.read a n (.ok bs)])
          rw [List.append_assoc] at hrun
          rw [run_read_of_ok hanswer, run_read_of_ok hrecorded]
          exact ⟨_, hrun, hcalls.cons rfl, List.forall_mem_cons.2 ⟨hgave, hrest⟩⟩
      | error e =>
          cases he : e.isUnreadable with
          | true =>
              obtain ⟨calls, hrun, hcalls, hrest⟩ := ih none state'
                (before ++ [.read a n (.error e)])
              rw [List.append_assoc] at hrun
              rw [run_read_of_unreadable hanswer he, run_read_of_unreadable hrecorded he]
              exact ⟨_, hrun, hcalls.cons (if_pos he), List.forall_mem_cons.2 ⟨hgave, hrest⟩⟩
          | false =>
              rw [run_read_of_failure hanswer he, run_read_of_failure hrecorded he]
              have hfailure : Call.failure? (.read a n (.error e)) = some e :=
                if_neg (by rw [he]; exact Bool.false_ne_true)
              exact ⟨_, rfl, .failed hfailure he, List.forall_mem_cons.2 ⟨hgave, nofun⟩⟩

end Decode

end RttiProbe
