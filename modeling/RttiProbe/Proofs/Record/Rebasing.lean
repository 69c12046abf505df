import RttiProbe.Proofs.Image.Rebasing
/-!
# Records of rebased images

Strings and records read in step from an image and from the same image at another base.  Either
both reads find the same bytes, so the records differ only in the address they were found at, or
both find nothing.  The entries in the journal differ at most in an address that is moved along.
-/

set_option autoImplicit false

namespace RttiProbe

open Memory (Address Offset)
open Decode (Parallel Quiet)

/-! ## What corresponds -/

/-- Two entries have the same text, but for an address in it that is moved. -/
inductive Event.Moved (delta : Int) : Event → Event → Prop
  | same (event : Event) : Moved delta event event
  | message (level : Level) (before after : Text) {a b : Address} (hab : a.Moved delta b) :
      Moved delta (.message ⟨level, before ++ a.display ++ after⟩)
        (.message ⟨level, before ++ b.display ++ after⟩)
  | cut (before after : Text) {a b : Address} (hab : a.Moved delta b) :
      Moved delta (.cut (before ++ a.display ++ after)) (.cut (before ++ b.display ++ after))

namespace Record

/-- A kind of record that keeps the address it was found at. -/
class Located (α : Type) where
  location : α → Address
  relocate : α → Address → α

instance : Located TypeDescriptor := ⟨(·.location), fun d a => { d with location := a }⟩
instance : Located HierarchyDescriptor := ⟨(·.location), fun h a => { h with location := a }⟩
instance : Located BaseDescriptor := ⟨(·.location), fun d a => { d with location := a }⟩
instance : Located Locator := ⟨(·.location), fun l a => { l with location := a }⟩

/-- Two records differ only in that the second was found `delta` bytes further up. -/
def Moved {α : Type} [Located α] (delta : Int) (x y : α) : Prop :=
  ∃ b, (Located.location x).Moved delta b ∧ y = Located.relocate x b

end Record

/-- A decoder against an image and another one against its rebased image, run in step. -/
abbrev Image.InStep {α β : Type} (delta : Int) (image image' : Image) (Results : α → β → Prop)
    (x : Decode α) (y : Decode β) : Prop :=
  Parallel image.memory image'.memory (Event.Moved delta) Results x y

namespace Image

variable {α β : Type} {delta : Int} {image image' : Image} {a b : Address}

theorem Rebased.inStep_read (h : Rebased delta image image') (hab : a.Moved delta b) {n : Nat}
    {Results : α → β → Prop} {next : Option Bytes → Decode α} {next' : Option Bytes → Decode β}
    (hnext : ∀ answer, InStep delta image image' Results (next answer) (next' answer)) :
    InStep delta image image' Results (.read a n next) (.read b n next') := by
  have hb : image'.memory.Answers b n (image.slice? a n) := h.slice?_eq hab n ▸ image'.answers b n
  exact Parallel.read (image.answers a n) hb (hnext _)

/-! ## Strings -/

section Strings

open Memory.CString

variable {start : Address} {before : Bytes}

/-- A string that has begun ends where it leads nowhere. -/
theorem quiet_narrowBytes (hbefore : before ≠ []) (hstart : image.Nowhere (start.add? before.length))
    (room : Nat) : Quiet image.memory (narrowBytes start room before) (some before) := by
  unfold narrowBytes
  split
  · exact .done _
  · rename_i cursor hcursor
    refine .read ((hstart cursor hcursor).unmapped.answers 1) ?_
    dsimp only
    rw [if_neg (by simpa using hbefore)]
    exact .done _

theorem quiet_narrowChunks (hbefore : before ≠ [])
    (hstart : image.Nowhere (start.add? before.length)) (chunks : Nat) :
    Quiet image.memory (narrowChunks start chunks before) (some before) := by
  cases chunks with
  | zero => exact .done _
  | succ chunks =>
      rw [narrowChunks]
      split
      · exact .done _
      · rename_i cursor hcursor
        refine .read ((hstart cursor hcursor).unmapped.answers chunkSize) ?_
        exact quiet_narrowBytes hbefore hstart _

/-- There is no string where nothing is mapped. -/
theorem quiet_narrow (hstart : image.Unmapped start) : Quiet image.memory (narrow start) none := by
  have hfirst : start.add? 0 = some start := Address.add?_eq_some_iff.2 rfl
  have hbytes : Quiet image.memory (narrowBytes start maxUnits []) none := by
    unfold narrowBytes
    rw [List.length_nil, hfirst]
    exact .read (hstart.answers 1) (.done none)
  have hchunks : Quiet image.memory (narrowChunks start (0x3F + 1) []) none := by
    rw [narrowChunks, List.length_nil, hfirst]
    exact .read (hstart.answers chunkSize) hbytes
  exact hchunks

theorem Rebased.inStep_narrowBytes (h : Rebased delta image image') (hab : a.Moved delta b)
    (room : Nat) (before : Bytes) :
    InStep delta image image' Eq (narrowBytes a room before) (narrowBytes b room before) := by
  induction room generalizing before with
  | zero =>
      rcases h.add_cases hab before.length with ⟨c, d, hc, hd, hcd⟩ | ⟨hne, hc, hd⟩
      · rw [narrowBytes, narrowBytes, hc, hd]
        refine h.inStep_read hcd fun answer => ?_
        cases answer with
        | none => exact .done rfl
        | some bs =>
            dsimp only
            split <;> exact .done rfl
      · have hbefore : before ≠ [] := List.length_pos_iff.1 (Nat.pos_of_ne_zero hne)
        exact (quiet_narrowBytes hbefore hc 0).parallel (quiet_narrowBytes hbefore hd 0) rfl
  | succ room ih =>
      rcases h.add_cases hab before.length with ⟨c, d, hc, hd, hcd⟩ | ⟨hne, hc, hd⟩
      · rw [narrowBytes, narrowBytes, hc, hd]
        refine h.inStep_read hcd fun answer => ?_
        cases answer with
        | none => exact .done rfl
        | some bs =>
            dsimp only
            split
            · exact .done rfl
            · exact ih (before ++ bs)
      · have hbefore : before ≠ [] := List.length_pos_iff.1 (Nat.pos_of_ne_zero hne)
        exact (quiet_narrowBytes hbefore hc _).parallel (quiet_narrowBytes hbefore hd _) rfl

theorem Rebased.inStep_narrowChunks (h : Rebased delta image image') (hab : a.Moved delta b)
    (chunks : Nat) (before : Bytes) :
    InStep delta image image' Eq (narrowChunks a chunks before) (narrowChunks b chunks before) := by
  induction chunks generalizing before with
  | zero => exact .done rfl
  | succ chunks ih =>
      rcases h.add_cases hab before.length with ⟨c, d, hc, hd, hcd⟩ | ⟨hne, hc, hd⟩
      · rw [narrowChunks, narrowChunks, hc, hd]
        refine h.inStep_read hcd fun answer => ?_
        cases answer with
        | none => exact h.inStep_narrowBytes hab _ before
        | some chunk =>
            dsimp only
            split
            · exact .done rfl
            · exact ih (before ++ chunk)
      · have hbefore : before ≠ [] := List.length_pos_iff.1 (Nat.pos_of_ne_zero hne)
        exact (quiet_narrowChunks hbefore hc _).parallel (quiet_narrowChunks hbefore hd _) rfl

/-- The same string is read at corresponding addresses. -/
theorem Rebased.inStep_narrow (h : Rebased delta image image') (hab : a.Moved delta b) :
    InStep delta image image' Eq (narrow a) (narrow b) := h.inStep_narrowChunks hab _ []

end Strings

/-! ## Records -/

open Record

/-- Whatever a pointer holds, it is read without an entry in the journal. -/
theorem exists_quiet_pointer (image : Image) (frame : Frame) (a : Address) :
    ∃ answer, Quiet image.memory (Decode.pointer frame a) answer :=
  ⟨_, .read (image.answers a frame.width.bytes) (.done _)⟩

theorem Rebased.inStep_pointer (h : Rebased delta image image') (hab : a.Moved delta b)
    {frame frame' : Frame} (hwidth : frame.width = frame'.width) :
    InStep delta image image' Eq (Decode.pointer frame a) (Decode.pointer frame' b) := by
  unfold Decode.pointer
  rw [hwidth]
  exact h.inStep_read hab fun _ => .done rfl

theorem quiet_readFields {build : Bytes → α} (ha : image.Unmapped a) (fields : Nat) :
    Quiet image.memory (readFields a fields build) none := .read (ha.answers _) (.done none)

theorem Rebased.inStep_readFields (h : Rebased delta image image') (hab : a.Moved delta b)
    {fields : Nat} {Results : α → β → Prop} {build : Bytes → α} {build' : Bytes → β}
    (hbuild : ∀ bs, Results (build bs) (build' bs)) :
    InStep delta image image' (Option.Rel Results) (readFields a fields build)
      (readFields b fields build') := by
  refine h.inStep_read hab fun answer => .done ?_
  cases answer with
  | none => exact .none
  | some bs => exact .some (hbuild bs)

/-- A record is read at corresponding places, or not found at either of them. -/
theorem SamePlace.inStep {Results : α → β → Prop} {p q : Option Address}
    (hpq : SamePlace delta image image' p q) {read : Address → Decode (Option α)}
    {read' : Address → Decode (Option β)}
    (hmoved : ∀ a b, a.Moved delta b →
      InStep delta image image' (Option.Rel Results) (read a) (read' b))
    (hread : ∀ a, image.PastEnd a → Quiet image.memory (read a) none)
    (hread' : ∀ b, image'.PastEnd b → Quiet image'.memory (read' b) none) :
    InStep delta image image' (Option.Rel Results) (p.elim (.done none) read)
      (q.elim (.done none) read') := by
  cases hpq with
  | moved hab => exact hmoved _ _ hab
  | nowhere hp hq =>
      have hx : Quiet image.memory (p.elim (.done none) read) none := by
        cases p with
        | none => exact .done none
        | some a => exact hread a (hp a rfl)
      have hy : Quiet image'.memory (q.elim (.done none) read') none := by
        cases q with
        | none => exact .done none
        | some b => exact hread' b (hq b rfl)
      exact hx.parallel hy .none

theorem follow_eq_elim (frame : Frame) (offset : Offset) (read : Address → Decode (Option α)) :
    follow frame offset read = (frame.resolve offset).elim (.done none) read := by
  unfold follow
  cases frame.resolve offset <;> rfl

theorem Rebased.inStep_follow (h : Rebased delta image image') {Results : α → β → Prop}
    {read : Address → Decode (Option α)} {read' : Address → Decode (Option β)}
    (hmoved : ∀ a b, a.Moved delta b →
      InStep delta image image' (Option.Rel Results) (read a) (read' b))
    (hread : ∀ a, image.PastEnd a → Quiet image.memory (read a) none)
    (hread' : ∀ b, image'.PastEnd b → Quiet image'.memory (read' b) none) (offset : Offset) :
    InStep delta image image' (Option.Rel Results) (follow image.memory.frame offset read)
      (follow image'.memory.frame offset read') := by
  rw [follow_eq_elim, follow_eq_elim]
  exact (h.samePlace_resolve offset).inStep hmoved hread hread'

/-! ## Type descriptors -/

/-- There is no type descriptor where there is no name of one. -/
theorem quiet_readType {frame : Frame} (hname : image.Nowhere (a.add? (2 * frame.width.bytes))) :
    Quiet image.memory (TypeDescriptor.read frame a) none := by
  unfold TypeDescriptor.read
  dsimp only
  split
  · rename_i second third _ hthird
    obtain ⟨vftable, hvftable⟩ := exists_quiet_pointer image frame a
    refine .bind hvftable ?_
    cases vftable with
    | none => exact .done none
    | some vftable =>
        obtain ⟨runtimeRef, hruntimeRef⟩ := exists_quiet_pointer image frame second
        refine .bind hruntimeRef ?_
        cases runtimeRef with
        | none => exact .done none
        | some runtimeRef =>
            exact .bind (quiet_narrow (hname third hthird).unmapped) (.done none)
  · exact .done none

theorem PastEnd.nowhere_add (ha : image.PastEnd a) (n : Nat) : image.Nowhere (a.add? n) := by
  have hplace : image.Nowhere (some a) := by
    intro b hb
    obtain rfl := Option.some.inj hb
    exact ha
  exact hplace.add n

theorem Rebased.inStep_readType (h : Rebased delta image image') (hab : a.Moved delta b) :
    InStep delta image image' (Option.Rel (Record.Moved delta))
      (TypeDescriptor.read image.memory.frame a) (TypeDescriptor.read image'.memory.frame b) := by
  have hwidth : image.memory.frame.width = image'.memory.frame.width := by
    rw [frame_eq h.width, frame_eq h.width']
  rcases h.add_cases hab (2 * image.memory.frame.width.bytes) with
    ⟨third, third', hthird, hthird', hmoved⟩ | ⟨-, hthird, hthird'⟩
  · obtain ⟨second, hsecond⟩ := Address.exists_add?_of_le hthird
      (Nat.le_mul_of_pos_left image.memory.frame.width.bytes Nat.two_pos)
    obtain ⟨second', hsecond'⟩ := Address.exists_add?_of_le hthird'
      (Nat.le_mul_of_pos_left image.memory.frame.width.bytes Nat.two_pos)
    unfold TypeDescriptor.read
    dsimp only
    rw [← hwidth, hsecond, hsecond', hthird, hthird']
    refine (h.inStep_pointer hab hwidth).bind ?_
    rintro vftable _ rfl
    cases vftable with
    | none => exact .done .none
    | some vftable =>
        refine (h.inStep_pointer (hab.add hsecond hsecond') hwidth).bind ?_
        rintro runtimeRef _ rfl
        cases runtimeRef with
        | none => exact .done .none
        | some runtimeRef =>
            refine (h.inStep_narrow hmoved).bind ?_
            rintro name _ rfl
            cases name with
            | none => exact .done .none
            | some name => exact .done (.some ⟨b, hab, rfl⟩)
  · exact (quiet_readType hthird).parallel (quiet_readType (hwidth ▸ hthird')) .none

theorem quiet_readType_of_pastEnd (frame : Frame) (ha : image.PastEnd a) :
    Quiet image.memory (TypeDescriptor.read frame a) none := quiet_readType (ha.nowhere_add _)

/-- The name of a type does not depend on where the type is, only what is noted does. -/
theorem inStep_name {d d' : TypeDescriptor} (hd : Record.Moved delta d d') (demangler : Demangler)
    (nameOnly demangle : Bool) (flags : Flags) :
    InStep delta image image' Eq (d.name demangler nameOnly demangle flags)
      (d'.name demangler nameOnly demangle flags) := by
  obtain ⟨b, hab, rfl⟩ := hd
  unfold TypeDescriptor.name
  dsimp only [Located.relocate]
  split
  · exact .done rfl
  · split
    · exact .done rfl
    · split
      · rw [List.append_assoc, List.append_assoc _ ": ".toList]
        exact .note (.message .debug _ _ hab) (.done rfl)
      · exact .done rfl

theorem inStep_nameOf {type type' : Option TypeDescriptor}
    (htype : Option.Rel (Record.Moved delta) type type') (demangler : Demangler) :
    InStep delta image image' Eq (nameOf demangler type) (nameOf demangler type') := by
  cases htype with
  | none => exact .done rfl
  | some hd => exact inStep_name hd demangler false true .standard

/-! ## References -/

theorem Rebased.inStep_followType (h : Rebased delta image image') (offset : Offset) :
    InStep delta image image' (Option.Rel (Record.Moved delta))
      (follow image.memory.frame offset (TypeDescriptor.read image.memory.frame))
      (follow image'.memory.frame offset (TypeDescriptor.read image'.memory.frame)) :=
  h.inStep_follow (fun _ _ => h.inStep_readType) (fun _ => quiet_readType_of_pastEnd _)
    (fun _ => quiet_readType_of_pastEnd _) offset

/-- Records of a fixed size are found in step. -/
theorem Rebased.inStep_followFields (h : Rebased delta image image') {γ : Type} [Located γ]
    (fields : Nat) {build : Address → Bytes → γ}
    (hbuild : ∀ a b bs, a.Moved delta b → Record.Moved delta (build a bs) (build b bs))
    (offset : Offset) :
    InStep delta image image' (Option.Rel (Record.Moved delta))
      (follow image.memory.frame offset fun a => readFields a fields (build a))
      (follow image'.memory.frame offset fun b => readFields b fields (build b)) :=
  h.inStep_follow
    (fun a b hab => h.inStep_readFields hab fun bs => hbuild a b bs hab)
    (fun _ ha => quiet_readFields ha.unmapped fields)
    (fun _ hb => quiet_readFields hb.unmapped fields) offset

theorem Rebased.inStep_followHierarchy (h : Rebased delta image image') (offset : Offset) :
    InStep delta image image' (Option.Rel (Record.Moved delta))
      (follow image.memory.frame offset HierarchyDescriptor.read)
      (follow image'.memory.frame offset HierarchyDescriptor.read) :=
  h.inStep_followFields 4 (fun _ b _ hab => ⟨b, hab, rfl⟩) offset

/-- The descriptor that the reference at an address leads to. -/
def slotAt (frame : Frame) (slot : Address) : Decode (Option BaseDescriptor) := do
  let some offset ← readFields slot 1 (offsetField · 0) | return none
  follow frame offset BaseDescriptor.read

theorem base_eq_elim (frame : Frame) (d : HierarchyDescriptor) (index : Nat) :
    d.base frame index
      = if d.baseCount.toNat ≤ index then .done none
        else (d.slotAddress frame index).elim (.done none) (slotAt frame) := by
  unfold HierarchyDescriptor.base
  split
  · rfl
  · cases d.slotAddress frame index <;> rfl

theorem quiet_slotAt (frame : Frame) (ha : image.Unmapped a) :
    Quiet image.memory (slotAt frame a) none := .bind (quiet_readFields ha 1) (.done none)

section References

variable (h : Rebased delta image image')
include h

theorem Rebased.inStep_slotAt (hab : a.Moved delta b) :
    InStep delta image image' (Option.Rel (Record.Moved delta)) (slotAt image.memory.frame a)
      (slotAt image'.memory.frame b) := by
  have hslot : InStep delta image image' (Option.Rel Eq) (readFields a 1 (offsetField · 0))
      (readFields b 1 (offsetField · 0)) := h.inStep_readFields hab fun _ => rfl
  refine hslot.bind fun offset offset' hoffset => ?_
  cases hoffset with
  | none => exact .done .none
  | some hoffset =>
      obtain rfl := hoffset
      exact h.inStep_followFields 7 (fun _ b _ hab => ⟨b, hab, rfl⟩) _

theorem Rebased.inStep_baseType {d d' : BaseDescriptor} (hd : Record.Moved delta d d') :
    InStep delta image image' (Option.Rel (Record.Moved delta)) (d.type image.memory.frame)
      (d'.type image'.memory.frame) := by
  obtain ⟨b, -, rfl⟩ := hd
  exact h.inStep_followType d.typeDescriptor

theorem Rebased.inStep_baseHierarchy {d d' : BaseDescriptor} (hd : Record.Moved delta d d') :
    InStep delta image image' (Option.Rel (Record.Moved delta)) (d.hierarchy image.memory.frame)
      (d'.hierarchy image'.memory.frame) := by
  obtain ⟨b, -, rfl⟩ := hd
  exact h.inStep_followHierarchy d.hierarchyDescriptor

/-- A slot of an array leads to corresponding descriptors, or to none in both images. -/
theorem Rebased.inStep_slot {d d' : HierarchyDescriptor} (hd : Record.Moved delta d d')
    (index : Nat) :
    InStep delta image image' (Option.Rel (Record.Moved delta)) (d.base image.memory.frame index)
      (d'.base image'.memory.frame index) := by
  obtain ⟨b, -, rfl⟩ := hd
  rw [base_eq_elim, base_eq_elim]
  dsimp only [Located.relocate]
  split
  · exact .done .none
  · have hplace : SamePlace delta image image' (d.slotAddress image.memory.frame index)
        (d.slotAddress image'.memory.frame index) :=
      h.samePlace_bind_add (h.samePlace_resolve d.baseArray) (4 * index)
    exact hplace.inStep (fun _ _ => h.inStep_slotAt) (fun _ ha => quiet_slotAt _ ha.unmapped)
      (fun _ hb => quiet_slotAt _ hb.unmapped)

/-! ## Locators -/

theorem Rebased.inStep_locatorType {l l' : Locator} (hl : Record.Moved delta l l') :
    InStep delta image image' (Option.Rel (Record.Moved delta)) (l.type image.memory.frame)
      (l'.type image'.memory.frame) := by
  obtain ⟨b, -, rfl⟩ := hl
  exact h.inStep_followType l.typeDescriptor

theorem Rebased.inStep_locatorHierarchy {l l' : Locator} (hl : Record.Moved delta l l') :
    InStep delta image image' (Option.Rel (Record.Moved delta)) (l.hierarchy image.memory.frame)
      (l'.hierarchy image'.memory.frame) := by
  obtain ⟨b, -, rfl⟩ := hl
  exact h.inStep_followHierarchy l.hierarchyDescriptor

theorem Rebased.inStep_readLocator (hab : a.Moved delta b) :
    InStep delta image image' (Option.Rel (Record.Moved delta)) (Locator.read a)
      (Locator.read b) := h.inStep_readFields hab fun _ => ⟨b, hab, rfl⟩

theorem Rebased.inStep_isValid {l l' : Locator} (hl : Record.Moved delta l l')
    (demangler : Demangler) :
    InStep delta image image' Eq (l.isValid image.memory.frame demangler)
      (l'.isValid image'.memory.frame demangler) := by
  refine (h.inStep_locatorType hl).bind fun type type' htype => ?_
  refine (inStep_nameOf htype demangler).bind ?_
  rintro name _ rfl
  exact .done rfl

theorem Rebased.inStep_decodeLocator (hab : a.Moved delta b) (demangler : Demangler) :
    InStep delta image image' (Option.Rel (Record.Moved delta))
      (Locator.decode image.memory.frame demangler a)
      (Locator.decode image'.memory.frame demangler b) := by
  refine .ask (h.readable_eq hab) fun answer => ?_
  cases answer with
  | false => exact .done .none
  | true =>
      refine (h.inStep_readLocator hab).bind fun l l' hl => ?_
      cases hl with
      | none => exact .done .none
      | some hl =>
          refine (h.inStep_isValid hl demangler).bind ?_
          rintro valid _ rfl
          cases valid with
          | true => exact .done (.some hl)
          | false =>
              refine .note ?_ (.done .none)
              have hentry := Event.Moved.message .debug
                "rejected complete object locator at ".toList [] hab
              rw [List.append_nil, List.append_nil] at hentry
              exact hentry

end References

end Image

end RttiProbe
