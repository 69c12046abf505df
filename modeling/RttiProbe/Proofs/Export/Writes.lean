import RttiProbe.Export
/-!
# What an export writes

`Disk.recorded` is a disk that also keeps a record of the files it has written.  Recording changes
nothing else, whatever the disk does, and the record of an export is told by its plan: a successful
export writes the header of each item once and in order, and one that fails has written those of
the first few.
-/

set_option autoImplicit false

namespace RttiProbe

/-! ## Records -/

/-- A file that was written, and its new content. -/
structure Write where
  path : Path
  contents : Bytes
  deriving DecidableEq, Repr, Inhabited

namespace Disk

variable {σ : Type}

/-- An operation that writes no file, on a disk that keeps a record. -/
def unrecorded {α : Type} (x : StateM σ α) : StateM (σ × List Write) α := fun (state, writes) =>
  let (answer, state) := x state
  (answer, state, writes)

/-- An operation that writes a file if it succeeds, on a disk that keeps a record. -/
def recordedAs (write : Write) (x : StateM σ (Except SystemError Unit)) :
    StateM (σ × List Write) (Except SystemError Unit) := fun (state, writes) =>
  let (answer, state) := x state
  (answer, state, writes ++ if answer.isOk then [write] else [])

/-- The same disk, which keeps a record of the files it has written beside its own state. -/
def recorded (disk : Disk (StateM σ)) : Disk (StateM (σ × List Write)) where
  isPresent path := unrecorded (disk.isPresent path)
  isDirectory path := unrecorded (disk.isDirectory path)
  makeDirectory path := unrecorded (disk.makeDirectory path)
  replace path contents := recordedAs ⟨path, contents⟩ (disk.replace path contents)
  create path contents := recordedAs ⟨path, contents⟩ (disk.create path contents)
  load path := unrecorded (disk.load path)

end Disk

/-- An operation does the same on a disk and on one that keeps a record, and `Added` holds of what
it adds to the record and of its result. -/
def Records {σ α : Type} (Added : List Write → α → Prop) (x : StateM σ α)
    (y : StateM (σ × List Write) α) : Prop :=
  ∀ state writes, ∃ added,
    y (state, writes) = ((x state).1, (x state).2, writes ++ added) ∧ Added added (x state).1

/-- Nothing is added to the record. -/
def NoWrites {α : Type} (added : List Write) (_result : α) : Prop := added = []

namespace Records

variable {σ α β : Type} {x : StateM σ α} {y : StateM (σ × List Write) α}

theorem pure {Added : List Write → α → Prop} {a : α} (h : Added [] a) :
    Records Added (Pure.pure a : StateM σ α) (Pure.pure a) := by
  intro state writes
  exact ⟨[], by rw [List.append_nil]; rfl, h⟩

theorem unrecorded (x : StateM σ α) : Records NoWrites x (Disk.unrecorded x) := by
  intro state writes
  exact ⟨[], by rw [List.append_nil]; rfl, rfl⟩

theorem recordedAs (write : Write) (x : StateM σ (Except SystemError Unit)) :
    Records (fun added answer => added = if answer.isOk then [write] else []) x
      (Disk.recordedAs write x) :=
  fun _ _ => ⟨_, rfl, rfl⟩

/-- A sequence adds what its first part adds, and then what its second part does. -/
theorem bind {First : List Write → α → Prop} {Added : List Write → β → Prop}
    {f : α → StateM σ β} {g : α → StateM (σ × List Write) β} (hx : Records First x y)
    (hf : ∀ a, Records (fun added b => ∀ before, First before a → Added (before ++ added) b)
      (f a) (g a)) :
    Records Added (x >>= f) (y >>= g) := by
  intro state writes
  obtain ⟨before, hy, hbefore⟩ := hx state writes
  obtain ⟨added, hg, hadded⟩ := hf (x state).1 (x state).2 (writes ++ before)
  refine ⟨before ++ added, ?_, hadded before hbefore⟩
  show g (y (state, writes)).1 (y (state, writes)).2 = _
  rw [hy, ← List.append_assoc]
  exact hg

/-- A part that writes nothing may come first. -/
theorem bind_of_noWrites {Added : List Write → β → Prop} {f : α → StateM σ β}
    {g : α → StateM (σ × List Write) β} (hx : Records NoWrites x y)
    (hf : ∀ a, Records Added (f a) (g a)) : Records Added (x >>= f) (y >>= g) := by
  refine hx.bind fun a state writes => ?_
  obtain ⟨added, hg, hadded⟩ := hf a state writes
  refine ⟨added, hg, ?_⟩
  rintro _ rfl
  exact hadded

end Records

/-! ## Directories -/

namespace Disk

variable {σ : Type}

theorem records_settle (disk : Disk (StateM σ)) (path : Path) :
    Records NoWrites (disk.settle path) (disk.recorded.settle path) := by
  refine (Records.unrecorded _).bind_of_noWrites fun made => ?_
  cases made with
  | ok _ => exact .pure rfl
  | error e => exact (Records.unrecorded _).bind_of_noWrites fun _ => .pure rfl

/-- No file is written where directories are made. -/
theorem records_makeDirectories (disk : Disk (StateM σ)) (paths : List Path) :
    Records NoWrites (disk.makeDirectories paths) (disk.recorded.makeDirectories paths) := by
  induction paths with
  | nil => exact .pure rfl
  | cons inner outer ih =>
      refine (Records.unrecorded _).bind_of_noWrites fun made => ?_
      cases made with
      | ok _ => exact .pure rfl
      | error e =>
          dsimp only
          split
          · refine ih.bind_of_noWrites fun settled => ?_
            cases settled with
            | error e => exact .pure rfl
            | ok _ => exact records_settle disk inner
          · exact (Records.unrecorded _).bind_of_noWrites fun _ => .pure rfl

end Disk

/-! ## Headers -/

namespace Export

variable {σ : Type}

/-- What is written for an item of a plan. -/
def Item.write (item : Item) : Write := ⟨item.path, Text.Utf8.encode (Header.render item.subject)⟩

/-- One header is written if its export succeeds, otherwise none. -/
theorem records_writeItem (disk : Disk (StateM σ)) (overwrite : Bool) (item : Item) :
    Records (fun added result => added = if result.isOk then [item.write] else [])
      (writeItem disk overwrite item) (writeItem disk.recorded overwrite item) := by
  refine (disk.records_makeDirectories _).bind_of_noWrites fun made => ?_
  cases made with
  | error e => exact .pure rfl
  | ok _ =>
      dsimp only
      split
      all_goals
        refine (Records.recordedAs item.write _).bind fun answer => .pure ?_
        rintro _ rfl
        cases answer <;> rfl

/-- How much of a plan has been written when its export comes to a result. -/
structure Progress (items : List Item) (added : List Write) (result : Except Error (List Path)) :
    Prop where
  /-- the headers are written in the order of the plan -/
  inOrder : added <+: items.map Item.write
  /-- a success has written all of them, and gives their paths -/
  complete : ∀ written, result = .ok written →
    added = items.map Item.write ∧ written = items.map Item.path

theorem records_writeItems (disk : Disk (StateM σ)) (overwrite : Bool) (items : List Item) :
    Records (fun added out => Progress items added out.2) (writeItems disk overwrite items)
      (writeItems disk.recorded overwrite items) := by
  induction items with
  | nil =>
      refine .pure ⟨List.prefix_refl _, ?_⟩
      intro written hwritten
      exact ⟨rfl, (Except.ok.inj hwritten).symm⟩
  | cons item rest ih =>
      refine (records_writeItem disk overwrite item).bind fun result => ?_
      cases result with
      | error e =>
          refine .pure ?_
          rintro _ rfl
          exact ⟨List.nil_prefix, nofun⟩
      | ok _ =>
          refine ih.bind fun out => .pure ?_
          rintro before hbefore _ rfl
          refine ⟨List.cons_prefix_cons.2 ⟨rfl, by rw [List.append_nil]; exact hbefore.inOrder⟩, ?_⟩
          intro written hwritten
          obtain ⟨messages, result⟩ := out
          cases result with
          | error e => cases hwritten
          | ok later =>
              obtain rfl := Except.ok.inj hwritten
              obtain ⟨rfl, rfl⟩ := hbefore.complete later rfl
              exact ⟨by rw [List.append_nil]; rfl, rfl⟩

theorem records_firstPresent? (disk : Disk (StateM σ)) (items : List Item) :
    Records NoWrites (firstPresent? disk items) (firstPresent? disk.recorded items) := by
  induction items with
  | nil => exact .pure rfl
  | cons item rest ih =>
      refine (Records.unrecorded _).bind_of_noWrites fun present => ?_
      cases present with
      | true => exact .pure rfl
      | false => exact ih

/-- What an export comes to after it has looked for files in its way. -/
def finish {m : Type → Type} [Monad m] (disk : Disk m) (overwrite : Bool) (items : List Item)
    (planned : List Message) : Option Path → m (List Message × Except Error (List Path))
  | some path => return (planned, .error (.alreadyExists path))
  | none => do
    let (messages, written) ← writeItems disk overwrite items
    return (planned ++ messages, written)

theorem run_eq {m : Type → Type} [Monad m] (disk : Disk m) (c : Class) (root : Path)
    (withBases overwrite : Bool) :
    run disk c root withBases overwrite
      = (if overwrite then pure none else firstPresent? disk (plan c root withBases)) >>=
        finish disk overwrite (plan c root withBases) (planMessages c root withBases) := by
  cases overwrite <;> rfl

/-- An export writes the headers of its plan in order, all of them if it succeeds. -/
theorem records_run (disk : Disk (StateM σ)) (c : Class) (root : Path) (withBases overwrite : Bool) :
    Records (fun added out => Progress (plan c root withBases) added out.2)
      (run disk c root withBases overwrite) (run disk.recorded c root withBases overwrite) := by
  have hpresent : Records NoWrites
      (if overwrite then Pure.pure none else firstPresent? disk (plan c root withBases))
      (if overwrite then Pure.pure none
        else firstPresent? disk.recorded (plan c root withBases)) := by
    split
    · exact .pure rfl
    · exact records_firstPresent? disk _
  rw [run_eq, run_eq]
  refine hpresent.bind_of_noWrites fun present => ?_
  cases present with
  | some path => exact .pure ⟨List.nil_prefix, nofun⟩
  | none =>
      refine (records_writeItems disk overwrite _).bind fun out => .pure ?_
      intro before hbefore
      rw [List.append_nil]
      exact hbefore

/-- A successful export has written the plan. -/
theorem writes_of_run_eq_ok {disk : Disk (StateM σ)} {c : Class} {root : Path}
    {withBases overwrite : Bool} {state after : σ} {messages : List Message} {written : List Path}
    (h : run disk c root withBases overwrite state = ((messages, .ok written), after)) :
    run disk.recorded c root withBases overwrite (state, [])
        = ((messages, .ok written), after, (plan c root withBases).map Item.write)
      ∧ written = (plan c root withBases).map Item.path := by
  obtain ⟨added, hrun, hprogress⟩ := records_run disk c root withBases overwrite state []
  rw [h] at hrun hprogress
  obtain ⟨rfl, hwritten⟩ := hprogress.complete written rfl
  exact ⟨hrun, hwritten⟩

end Export

end RttiProbe
