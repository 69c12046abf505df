import RttiProbe.Proofs.Decode.Parallel
import RttiProbe.Record.Read
/-!
# Entries of journals

What decoders note while they run, and what becomes of it.  Which entries a decoder may make can be
told from the decoder alone, whatever the memory answers: reading strings and records notes nothing,
and telling the name of a type notes at most that the name cannot be demangled.  Cuts are not passed
on as they occur but reported after everything else.
-/

set_option autoImplicit false

namespace RttiProbe

/-! ## Journals -/

/-- The message that an entry is, if it is one. -/
def Event.message? : Event → Option Message
  | .message entry => some entry
  | _ => none

/-- The text of a cut. -/
def Event.cutText? : Event → Option Text
  | .cut warning => some warning
  | _ => none

namespace Journal

/-- The messages that are passed on as they come. -/
def passedOn (events : List Event) : List Message := events.filterMap Event.message?

/-- The texts of the cuts, in the order in which they occurred. -/
def cutTexts (events : List Event) : List Text := events.filterMap Event.cutText?

theorem cutTexts_append (events more : List Event) :
    cutTexts (events ++ more) = cutTexts events ++ cutTexts more := List.filterMap_append

/-- The cuts of a rebuild are reported after all messages, whether or not the end of the rebuild is
noted. -/
theorem messagesAfter_eq {events ending : List Event} (hrebuilt : .rebuilt ∉ events)
    (hending : ending = [] ∨ ending = [.rebuilt]) (cuts : List Text) :
    messagesAfter cuts (events ++ ending)
      = passedOn events ++ cutReport (cuts.reverse ++ cutTexts events) := by
  induction events generalizing cuts with
  | nil =>
      have hreport : cutReport (cuts.reverse ++ cutTexts []) = cutReport cuts.reverse :=
        congrArg cutReport (List.append_nil _)
      rw [hreport]
      rcases hending with rfl | rfl
      · rfl
      · exact List.append_nil _
  | cons event rest ih =>
      have hrest : .rebuilt ∉ rest := List.not_mem_of_not_mem_cons hrebuilt
      cases event with
      | rebuilt => exact absurd rfl (List.ne_of_not_mem_cons hrebuilt)
      | message entry => exact congrArg (entry :: ·) (ih hrest cuts)
      | cut warning =>
          have hcuts : cuts.reverse ++ cutTexts (.cut warning :: rest)
              = (warning :: cuts).reverse ++ cutTexts rest := by
            rw [List.reverse_cons, List.append_assoc]
            rfl
          rw [hcuts]
          exact ih hrest (warning :: cuts)

end Journal

/-! ## Runs -/

namespace Decode

variable {α β : Type} {memory : Memory} {journal more : List Event}

/-- A run leaves this journal and this result behind. -/
def Runs (memory : Memory) (x : Decode α) (journal : List Event) (result : Except Error α) : Prop :=
  Id.run (x.run memory) = ⟨journal, result⟩

namespace Runs

theorem done (a : α) : Runs memory (.done a) [] (.ok a) := rfl

theorem note {event : Event} {next : Decode α} {result : Except Error α}
    (h : Runs memory next journal result) :
    Runs memory (.note event next) (event :: journal) result := congrArg (Outcome.after event) h

theorem gives {x : Decode α} {a : α} (h : Runs memory x journal (.ok a)) : Gives memory x a := by
  unfold Gives
  rw [h]

theorem fails {x : Decode α} {e : Error} (h : Runs memory x journal (.error e)) :
    Fails memory x e := by
  unfold Fails
  rw [h]

theorem bind {x : Decode α} {f : α → Decode β} {a : α} {result : Except Error β}
    (hx : Runs memory x journal (.ok a)) (hf : Runs memory (f a) more result) :
    Runs memory (x.bind f) (journal ++ more) result := by
  unfold Runs at hx hf ⊢
  rw [run_bind, hx]
  dsimp only
  rw [hf]

theorem bind_error {x : Decode α} {e : Error} (hx : Runs memory x journal (.error e))
    (f : α → Decode β) : Runs memory (x.bind f) journal (.error e) := by
  unfold Runs at hx ⊢
  rw [run_bind, hx]

/-- What is done with a result notes nothing more. -/
theorem map {x : Decode α} {result : Except Error α} (hx : Runs memory x journal result)
    (f : α → β) : Runs memory (x.bind fun a => .done (f a)) journal (result.map f) := by
  cases result with
  | ok a =>
      have h : Runs memory (x.bind fun a => .done (f a)) (journal ++ []) (.ok (f a)) :=
        hx.bind (done (f a))
      rw [List.append_nil] at h
      exact h
  | error e => exact hx.bind_error _

end Runs

/-! ## What a decoder may note -/

/-- Whatever it is answered, a decoder notes only such entries. -/
def Notes (Entries : Event → Prop) : Decode α → Prop
  | done _ => True
  | note event next => Entries event ∧ Notes Entries next
  | ask _ next => ∀ answer, Notes Entries (next answer)
  | read _ _ next => ∀ answer, Notes Entries (next answer)

/-- A decoder that notes nothing. -/
abbrev Silent (x : Decode α) : Prop := x.Notes fun _ => False

section Notes

variable {Entries : Event → Prop}

theorem Notes.bind {x : Decode α} {f : α → Decode β} (hx : x.Notes Entries)
    (hf : ∀ a, (f a).Notes Entries) : (x.bind f).Notes Entries := by
  induction x with
  | done a => exact hf a
  | note event next ih => exact ⟨hx.1, ih hx.2⟩
  | ask a next ih => exact fun answer => ih answer (hx answer)
  | read a n next ih => exact fun answer => ih answer (hx answer)

theorem Notes.of_mem_journal {x : Decode α} (h : x.Notes Entries) :
    ∀ event ∈ (Id.run (x.run memory)).journal, Entries event := by
  induction x with
  | done a => exact nofun
  | note event next ih => exact List.forall_mem_cons.2 ⟨h.1, ih h.2⟩
  | ask a next ih => exact ih _ (h _)
  | read a n next ih =>
      rw [run_read]
      split
      · exact ih _ (h _)
      · split
        · exact ih _ (h _)
        · exact nofun

/-- The run of a decoder that notes nothing has a result or a failure, and nothing else. -/
theorem Notes.runs {x : Decode α} (h : x.Silent) (memory : Memory) :
    (∃ a, Runs memory x [] (.ok a)) ∨ ∃ e, Runs memory x [] (.error e) := by
  have hjournal : (Id.run (x.run memory)).journal = [] :=
    List.eq_nil_iff_forall_not_mem.2 fun event hevent => h.of_mem_journal event hevent
  have hrun : Runs memory x [] (Id.run (x.run memory)).result := by
    rw [← hjournal]
    rfl
  cases hresult : (Id.run (x.run memory)).result with
  | ok a => exact .inl ⟨a, hresult ▸ hrun⟩
  | error e => exact .inr ⟨e, hresult ▸ hrun⟩

end Notes

end Decode

/-! ## Strings and records -/

open Decode (Silent Runs)

theorem Memory.CString.silent_narrowBytes (start : Address) (room : Nat) (before : Bytes) :
    (narrowBytes start room before).Silent := by
  induction room generalizing before with
  | zero =>
      rw [narrowBytes]
      split
      · trivial
      · intro answer
        cases answer with
        | none => trivial
        | some bs =>
            dsimp only
            split <;> trivial
  | succ room ih =>
      rw [narrowBytes]
      split
      · trivial
      · intro answer
        cases answer with
        | none => trivial
        | some bs =>
            dsimp only
            split
            · trivial
            · exact ih (before ++ bs)

theorem Memory.CString.silent_narrowChunks (start : Address) (chunks : Nat) (before : Bytes) :
    (narrowChunks start chunks before).Silent := by
  induction chunks generalizing before with
  | zero => trivial
  | succ chunks ih =>
      rw [narrowChunks]
      split
      · trivial
      · intro answer
        cases answer with
        | none => exact silent_narrowBytes start _ before
        | some chunk =>
            dsimp only
            split
            · trivial
            · exact ih (before ++ chunk)

namespace Record

variable {frame : Frame}

theorem silent_readFields {α : Type} (a : Memory.Address) (fields : Nat) (build : Bytes → α) :
    (readFields a fields build).Silent := fun _ => trivial

theorem silent_follow {α : Type} {read : Memory.Address → Decode (Option α)}
    (h : ∀ a, (read a).Silent) (offset : Memory.Offset) : (follow frame offset read).Silent := by
  rw [follow]
  split
  · trivial
  · exact h _

theorem TypeDescriptor.silent_read (a : Memory.Address) : (TypeDescriptor.read frame a).Silent := by
  have hpointer (a : Memory.Address) : (Decode.pointer frame a).Silent := fun _ => trivial
  unfold TypeDescriptor.read
  dsimp only
  split
  · rename_i second third _ _
    refine (hpointer a).bind fun vftable => ?_
    cases vftable with
    | none => trivial
    | some vftable =>
        refine (hpointer second).bind fun runtimeRef => ?_
        cases runtimeRef with
        | none => trivial
        | some runtimeRef =>
            refine (Memory.CString.silent_narrowChunks third _ []).bind fun name => ?_
            cases name <;> trivial
  · trivial

theorem BaseDescriptor.silent_type (d : BaseDescriptor) : (d.type frame).Silent :=
  silent_follow TypeDescriptor.silent_read d.typeDescriptor

theorem BaseDescriptor.silent_hierarchy (d : BaseDescriptor) : (d.hierarchy frame).Silent :=
  silent_follow (fun a => silent_readFields a 4 _) d.hierarchyDescriptor

theorem Locator.silent_hierarchy (l : Locator) : (l.hierarchy frame).Silent :=
  silent_follow (fun a => silent_readFields a 4 _) l.hierarchyDescriptor

theorem HierarchyDescriptor.silent_base (h : HierarchyDescriptor) (slot : Nat) :
    (h.base frame slot).Silent := by
  rw [HierarchyDescriptor.base]
  split
  · trivial
  · split
    · trivial
    · refine (silent_readFields _ 1 _).bind fun offset => ?_
      cases offset with
      | none => trivial
      | some offset => exact silent_follow (fun a => silent_readFields a 7 _) offset

/-- The name of a type can always be told, and nothing but a message for debugging is noted. -/
theorem exists_runs_nameOf (memory : Memory) (demangler : Demangler)
    (type : Option TypeDescriptor) :
    ∃ name journal, Runs memory (nameOf demangler type) journal (.ok name)
      ∧ ∀ event ∈ journal, ∃ text, event = .message ⟨.debug, text⟩ := by
  cases type with
  | none => exact ⟨_, [], .done _, nofun⟩
  | some type =>
      unfold nameOf TypeDescriptor.name
      dsimp only
      split
      · exact ⟨_, [], .done _, nofun⟩
      · split
        · exact ⟨_, [], .done _, nofun⟩
        · split
          · exact ⟨_, _, .note (.done _), List.forall_mem_singleton.2 ⟨_, rfl⟩⟩
          · exact ⟨_, [], .done _, nofun⟩

end Record

end RttiProbe
