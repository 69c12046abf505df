import RttiProbe.Analysis
import RttiProbe.FileTree
import RttiProbe.Proofs.Hierarchy.Encoding
import RttiProbe.Proofs.Text.Numeral
/-!
# The two ways into an analysis

An analysis starts from an object, or from the virtual function table that the object points at.
From the table on there is one way only: the same locator is found or not, and what is reported and
exported is told by the locator.  So the two analyses of one class end alike: they tell the same
messages, leave the same files, and their reports differ in the first line, which says where the
analysis started.  Nothing is assumed of the disk that files are written to: it may answer and fail
in any way that its state makes it.
-/

set_option autoImplicit false

namespace RttiProbe

open Memory (Address)

/-- The probe of a virtual function table, which is otherwise the same. -/
def Probe.ofTable (probe : Probe) (table : Address) : Probe :=
  { probe with address := table, isVftable := true }

/-- In any monad, a memory answers a decoder as it does by itself. -/
theorem Decode.run_ofMemory {m : Type → Type} [Monad m] [LawfulMonad m] {α : Type}
    (memory : Memory) (x : Decode α) :
    x.run (Accessor.ofMemory memory : Accessor m) = pure (Id.run (x.run memory)) := by
  induction x with
  | done a => rfl
  | note event next ih =>
      rw [run, ih, pure_bind]
      rfl
  | ask a next ih =>
      rw [run]
      show (pure (memory.readable a) >>= fun answer => _) = _
      rw [pure_bind]
      exact ih (memory.readable a)
  | read a n next ih =>
      rw [run, run_read]
      show (pure (memory.read a n) >>= fun answer => _) = _
      rw [pure_bind]
      cases memory.read a n with
      | ok bs => exact ih (some bs)
      | error e =>
          dsimp only
          split
          · exact ih none
          · rfl

namespace Analysis

/-! ## Attempts -/

section Attempts

variable {σ α β : Type} {memory : Memory} {told : List Message} {t : σ}

/-- What an attempt comes to: its result, all messages told so far, and the state it leaves the disk
in. -/
def outcome (x : Attempt (StateM σ) α) (told : List Message) (t : σ) :
    (Except (List Reason) α × List Message) × σ :=
  x.run told t

/-- A sequence goes on from where its first part ends, unless that fails. -/
theorem outcome_bind (x : Attempt (StateM σ) α) (f : α → Attempt (StateM σ) β) :
    outcome (x >>= f) told t =
      match outcome x told t with
      | ((.ok a, messages), u) => outcome (f a) messages u
      | ((.error reasons, messages), u) => ((.error reasons, messages), u) := by
  obtain ⟨result, messages, u, hx⟩ :
      ∃ result messages u, outcome x told t = ((result, messages), u) := ⟨_, _, _, rfl⟩
  have hbind : outcome (x >>= f) told t
      = ExceptT.bindCont f (outcome x told t).1.1 (outcome x told t).1.2 (outcome x told t).2 := rfl
  rw [hbind, hx]
  cases result with
  | ok a => rfl
  | error reasons => rfl

/-- A decoder that is run against a memory leaves the disk alone. -/
theorem outcome_stage (doing : List Reason) (x : Decode α) :
    outcome (stage (Accessor.ofMemory memory) doing x) told t =
      match (Id.run (x.run memory)).result with
      | .ok a => ((.ok a, told ++ (Id.run (x.run memory)).messages), t)
      | .error e =>
          ((.error (doing ++ e.reasons), told ++ (Id.run (x.run memory)).messages), t) := by
  unfold stage
  rw [Decode.run_ofMemory]
  rcases Id.run (x.run memory) with ⟨journal, result⟩
  cases result with
  | ok a => rfl
  | error e => rfl

theorem outcome_require_some (missing : Text) (a : α) :
    outcome (require missing (some a)) told t = ((.ok a, told), t) := rfl

end Attempts

/-! ## From the table on -/

variable {σ : Type}

/-- What a report says after its first line, with what is exported along with it. -/
def details (memory : Memory) (disk : Disk (StateM σ)) (demangler : Demangler) (probe : Probe)
    (l : Record.Locator) : Attempt (StateM σ) Text := do
  let text ← body (Accessor.ofMemory memory) demangler probe l
  let exported ← match probe.exportRoot with
    | none => pure []
    | some root => exportTo (Accessor.ofMemory memory) disk demangler probe l root
  return text ++ exported

/-- An analysis once the table is found. -/
def fromTable (memory : Memory) (disk : Disk (StateM σ)) (demangler : Demangler) (probe : Probe)
    (table : Address) : Attempt (StateM σ) Text := do
  let l ← locatorOf (Accessor.ofMemory memory) demangler probe table
  let rest ← details memory disk demangler probe l
  return firstLine probe table ++ rest

variable {memory : Memory} {disk : Disk (StateM σ)} {demangler : Demangler} {probe : Probe}
  {table : Address} {told : List Message} {t : σ}

theorem attempt_eq :
    attempt (Accessor.ofMemory memory) disk demangler probe =
      vftableOf (Accessor.ofMemory memory) probe >>= fromTable memory disk demangler probe := by
  unfold attempt fromTable details
  cases probe.exportRoot with
  | none => simp only [bind_assoc, pure_bind, List.append_assoc]
  | some root => simp only [bind_assoc, pure_bind, List.append_assoc]

/-! ## Comparing two analyses -/

/-- Two analyses, of an object and of a table, end alike: with reports that agree after the first
line, or in failure, for the same reasons unless the reason is that no class is found where the
analysis starts. -/
inductive EndAlike (object table : Address) :
    Except (List Reason) Text → Except (List Reason) Text → Prop
  | reports {first first' : Text} (rest : Text) (hfirst : '\n' ∉ first) (hfirst' : '\n' ∉ first') :
      EndAlike object table (.ok (first ++ '\n' :: rest)) (.ok (first' ++ '\n' :: rest))
  | noClass : EndAlike object table (.error [.stated (Analysis.noClass object)])
      (.error [.stated (Analysis.noClass table)])
  | failures (reasons : List Reason) : EndAlike object table (.error reasons) (.error reasons)

theorem newline_not_mem_display (a : Address) : '\n' ∉ a.display := by
  have hdigits : ∀ d < 16, Text.Numeral.digitChar d ≠ '\n' := by decide
  intro h
  rcases List.mem_append.1 h with h | h
  · revert h
    decide
  · obtain ⟨d, hmem, hd⟩ := List.mem_map.1 h
    exact hdigits d (Text.Numeral.lt_of_mem_digits (by decide) a.toNat d hmem) hd

/-- The first line of a report is a line. -/
theorem exists_firstLine_eq (probe : Probe) (table : Address) :
    ∃ line, firstLine probe table = line ++ ['\n'] ∧ '\n' ∉ line := by
  have hdisplay : ∀ a : Address, '\n' ∉ a.display := newline_not_mem_display
  unfold firstLine
  split
  · refine ⟨"Vftable at ".toList ++ probe.address.display
      ++ " belongs to a class with RTTI.".toList, by simp, ?_⟩
    simp [hdisplay]
  · refine ⟨"Object at ".toList ++ probe.address.display ++ " is a class with a vftable at ".toList
      ++ table.display ++ ".".toList, by simp, ?_⟩
    simp [hdisplay]

theorem outcome_vftableOf (hobject : probe.isVftable = false)
    (htable : Decode.Gives memory (Lookup.vftable memory.frame probe.address) (some table)) :
    outcome (vftableOf (Accessor.ofMemory memory) probe) told t = ((.ok table, told), t) := by
  have hmessages : (Id.run ((Lookup.vftable memory.frame probe.address).run memory)).messages
      = [] := by
    unfold Lookup.vftable Decode.pointer
    rw [Decode.run_read]
    split
    · rfl
    · split <;> rfl
  have hresult : (Id.run ((Lookup.vftable memory.frame probe.address).run memory)).result
      = .ok (some table) := htable
  have hframe : (Accessor.ofMemory memory : Accessor (StateM σ)).frame = memory.frame := rfl
  unfold vftableOf
  rw [hobject, if_neg Bool.false_ne_true, hframe, outcome_bind, outcome_stage, hmessages, hresult,
    List.append_nil]
  rfl

theorem fromTable_ends_alike (memory : Memory) (disk : Disk (StateM σ)) (demangler : Demangler)
    (probe : Probe) (table : Address) (told : List Message) (t : σ) :
    ∃ messages result result' u,
      outcome (fromTable memory disk demangler probe table) told t = ((result, messages), u)
        ∧ outcome (fromTable memory disk demangler (probe.ofTable table) table) told t
            = ((result', messages), u)
        ∧ EndAlike probe.address table result result' := by
  have hframe : (Accessor.ofMemory memory : Accessor (StateM σ)).frame = memory.frame := rfl
  unfold fromTable locatorOf
  simp only [outcome_bind, outcome_stage, hframe]
  cases (Id.run ((Lookup.ofVftable memory.frame demangler table).run memory)).result with
  | error e => exact ⟨_, _, _, _, rfl, rfl, .failures _⟩
  | ok found =>
      cases found with
      | none => exact ⟨_, _, _, _, rfl, rfl, .noClass⟩
      | some l =>
          -- from the locator on, the start is not looked at
          have hdetails : details memory disk demangler (probe.ofTable table) l
              = details memory disk demangler probe l := rfl
          simp only [outcome_require_some, hdetails]
          rcases outcome (details memory disk demangler probe l) _ t with ⟨⟨result, messages⟩, u⟩
          cases result with
          | error reasons => exact ⟨_, _, _, _, rfl, rfl, .failures _⟩
          | ok rest =>
              obtain ⟨line, hline, hnot⟩ := exists_firstLine_eq probe table
              obtain ⟨line', hline', hnot'⟩ := exists_firstLine_eq (probe.ofTable table) table
              have hends : EndAlike probe.address table (.ok (line ++ '\n' :: rest))
                  (.ok (line' ++ '\n' :: rest)) := .reports rest hnot hnot'
              refine ⟨_, _, _, _, rfl, rfl, ?_⟩
              rw [hline, hline', List.append_assoc, List.append_assoc]
              exact hends

/-- Whatever the disk and the state it is in, the analysis of an object and that of the table it
points at end alike, and they leave the disk in the same state. -/
theorem starts_end_alike (memory : Memory) (disk : Disk (StateM σ)) (demangler : Demangler)
    (probe : Probe) (hobject : probe.isVftable = false) (table : Address)
    (htable : Decode.Gives memory (Lookup.vftable memory.frame probe.address) (some table))
    (t : σ) :
    ∃ messages result result' u,
      run (Accessor.ofMemory memory) disk demangler probe t = ((messages, result), u)
        ∧ run (Accessor.ofMemory memory) disk demangler (probe.ofTable table) t
            = ((messages, result'), u)
        ∧ EndAlike probe.address table result result' := by
  have hrun (p : Probe) : run (Accessor.ofMemory memory) disk demangler p t
      = (((outcome (attempt (Accessor.ofMemory memory) disk demangler p) [] t).1.2,
          (outcome (attempt (Accessor.ofMemory memory) disk demangler p) [] t).1.1),
        (outcome (attempt (Accessor.ofMemory memory) disk demangler p) [] t).2) := rfl
  obtain ⟨messages, result, result', u, hx, hy, hends⟩ :=
    fromTable_ends_alike memory disk demangler probe table [] t
  refine ⟨messages, result, result', u, ?_, ?_, hends⟩
  · rw [hrun, attempt_eq, outcome_bind, outcome_vftableOf hobject htable]
    dsimp only
    rw [hx]
  · have htable : outcome (vftableOf (Accessor.ofMemory memory) (probe.ofTable table)) [] t
        = ((.ok table, []), t) := rfl
    rw [hrun, attempt_eq, outcome_bind, htable]
    dsimp only
    rw [hy]

/-- An image with an object at its start, whose class is `A`. -/
def sampleObject : Image where
  base := .null
  width := .bits32
  sections := [⟨⟨0x1000⟩, Hierarchy.wordBytes
    [0x1008,
      0x100C, 0,
      0, 0, 0, 0x1020, 0x1030,
      0, 0, 0x56413F2E, 0x00404041,
      0, 0, 1, 0x1040,
      0x1044,
      0x1020, 0, 0, 0xFFFFFFFF, 0, 0x40, 0x1030]⟩]

/-- The object, with its decorated name, exported to `out`. -/
def sampleProbe : Probe := ⟨⟨0x1000⟩, false, true, some ⟨"out".toList⟩, true, false⟩

/-- Both probes succeed and leave the header of `A` behind. -/
theorem starts_end_alike_sample :
    sampleProbe.isVftable = false
      ∧ Decode.Gives sampleObject.memory
          (Lookup.vftable sampleObject.memory.frame sampleProbe.address) (some ⟨0x1008⟩)
      ∧ ∃ messages report report' u,
          run (Accessor.ofMemory sampleObject.memory) FileTree.disk Decorated.demangler sampleProbe
              (FileTree.ofCurrent "home".toList) = ((messages, .ok report), u)
            ∧ run (Accessor.ofMemory sampleObject.memory) FileTree.disk Decorated.demangler
                (sampleProbe.ofTable ⟨0x1008⟩) (FileTree.ofCurrent "home".toList)
                = ((messages, .ok report'), u)
            ∧ EndAlike ⟨0x1000⟩ ⟨0x1008⟩ (.ok report) (.ok report')
            ∧ u.find? ⟨"out/A.h".toList⟩ = some (.file (Text.Utf8.encode
                "#pragma once\n\nclass A\n\x7b\n\n\x7d;\n".toList)) := by
  have htable : Decode.Gives sampleObject.memory
      (Lookup.vftable sampleObject.memory.frame sampleProbe.address) (some ⟨0x1008⟩) := by
    decide +kernel
  -- the run is evaluated for its success and for the file, the theorem gives the rest
  have hrun : (run (Accessor.ofMemory sampleObject.memory) FileTree.disk Decorated.demangler
        sampleProbe (FileTree.ofCurrent "home".toList)).1.2.toBool = true
      ∧ (run (Accessor.ofMemory sampleObject.memory) FileTree.disk Decorated.demangler
          sampleProbe (FileTree.ofCurrent "home".toList)).2.find? ⟨"out/A.h".toList⟩
        = some (.file (Text.Utf8.encode
            "#pragma once\n\nclass A\n\x7b\n\n\x7d;\n".toList)) := by
    decide +kernel
  obtain ⟨messages, result, result', u, hobject, hvftable, hends⟩ :=
    starts_end_alike sampleObject.memory FileTree.disk Decorated.demangler sampleProbe rfl _ htable
      (FileTree.ofCurrent "home".toList)
  rw [hobject] at hrun
  cases hends with
  | reports rest hfirst hfirst' =>
      exact ⟨rfl, htable, messages, _, _, u, hobject, hvftable, .reports rest hfirst hfirst', hrun.2⟩
  | noClass => cases hrun.1
  | failures reasons => cases hrun.1

end Analysis

end RttiProbe
