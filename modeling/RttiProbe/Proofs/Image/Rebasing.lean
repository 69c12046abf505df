import RttiProbe.Image.Section
import RttiProbe.Proofs.Decode.Parallel
import RttiProbe.Record.Read
/-!
# Rebased images

The same 64-bit module loaded at two places: its base and its sections are moved by some number of
bytes, up or down.  A reference of a record leads to corresponding places in both images.  Near the
end of the address space it may lead to an address in one image and to none in the other, but then
the address lies past the end of every section, so nothing can be read there either: this is
`SamePlace`, and it is all that decoders of strings and records need to run in step.
-/

set_option autoImplicit false

namespace RttiProbe

open Memory (Address)

/-! ## Moved addresses -/

/-- An address lies `delta` bytes above another, or below it if `delta` is negative. -/
def Memory.Address.Moved (delta : Int) (a b : Address) : Prop := (b.toNat : Int) = a.toNat + delta

theorem Memory.Address.Moved.symm {delta : Int} {a b : Address} (h : a.Moved delta b) :
    b.Moved (-delta) a := by
  unfold Address.Moved at h ⊢
  omega

theorem Memory.Address.add?_eq_some_iff {a b : Address} {n : Nat} :
    a.add? n = some b ↔ b.toNat = a.toNat + n := Address.ofNat?_eq_some_iff

theorem Memory.Address.ofNat?_eq_none_iff {n : Nat} :
    Address.ofNat? n = none ↔ UInt64.size ≤ n := by
  unfold Address.ofNat?
  split
  · rename_i h
    simp [h]
  · rename_i h
    simpa using h

theorem Memory.Address.add?_eq_none_iff {a : Address} {n : Nat} :
    a.add? n = none ↔ UInt64.size ≤ a.toNat + n := Address.ofNat?_eq_none_iff

/-- Where a sum fits into the address space, smaller ones do. -/
theorem Memory.Address.exists_add?_of_le {a b : Address} {m n : Nat} (h : a.add? n = some b)
    (hle : m ≤ n) : ∃ c, a.add? m = some c := by
  cases hm : a.add? m with
  | some c => exact ⟨c, rfl⟩
  | none =>
      have hoverflow := Address.add?_eq_none_iff.1 hm
      have hsum := Address.add?_eq_some_iff.1 h
      have hlt := b.toNat_lt
      omega

theorem Memory.Address.Moved.add {delta : Int} {a b c d : Address} (h : a.Moved delta b) {n : Nat}
    (hc : a.add? n = some c) (hd : b.add? n = some d) : c.Moved delta d := by
  have hsum := Address.add?_eq_some_iff.1 hc
  have hsum' := Address.add?_eq_some_iff.1 hd
  unfold Address.Moved at h ⊢
  omega

namespace Image

/-- A section has the bytes of another at a moved address. -/
structure Section.Moved (delta : Int) (s t : Section) : Prop where
  start : s.start.Moved delta t.start
  contents : t.contents = s.contents

/-- Where a section ends, as a number: the address after its last byte. -/
def Section.stop (s : Section) : Nat := s.start.toNat + s.contents.size

/-- A 64-bit image is another one loaded `delta` bytes further up.  Both lie within the address
space. -/
structure Rebased (delta : Int) (image image' : Image) : Prop where
  width : image.width = .bits64
  width' : image'.width = .bits64
  base : image.base.Moved delta image'.base
  sections : List.Forall₂ (Section.Moved delta) image.sections image'.sections
  fits : ∀ s ∈ image.sections, s.stop ≤ UInt64.size
  fits' : ∀ s ∈ image'.sections, s.stop ≤ UInt64.size

variable {delta : Int} {image image' : Image} {a b : Address}

/-! ## Reads -/

/-- An image answers each read by what it has at the address. -/
theorem answers (image : Image) (a : Address) (n : Nat) :
    image.memory.Answers a n (image.slice? a n) := by
  have hread : image.memory.read a n = image.readBytes a n := rfl
  unfold Memory.Answers
  rw [hread, readBytes]
  cases image.slice? a n with
  | none => exact ⟨rfl, rfl⟩
  | some bs => rfl

theorem Section.Moved.slice?_eq {s t : Section} (hs : s.Moved delta t) (hab : a.Moved delta b)
    (n : Nat) : t.slice? b n = s.slice? a n := by
  have hstart := hs.start
  unfold Address.Moved at hstart hab
  unfold Section.slice?
  rw [hs.contents]
  by_cases hle : s.start.toNat ≤ a.toNat
  · have hoffset : b.toNat - t.start.toNat = a.toNat - s.start.toNat := by omega
    have hle' : t.start.toNat ≤ b.toNat := by omega
    simp only [hoffset, hle, hle']
  · have hle' : ¬t.start.toNat ≤ b.toNat := by omega
    simp only [hle, hle', false_and, if_false]

theorem Rebased.slice?_eq (h : Rebased delta image image') (hab : a.Moved delta b) (n : Nat) :
    image'.slice? b n = image.slice? a n := by
  have hfind {ss ts : List Section} (hst : List.Forall₂ (Section.Moved delta) ss ts) :
      ts.findSome? (·.slice? b n) = ss.findSome? (·.slice? a n) := by
    induction hst with
    | nil => rfl
    | cons hs _ ih => rw [List.findSome?_cons, List.findSome?_cons, hs.slice?_eq hab, ih]
  exact hfind h.sections

theorem Rebased.readable_eq (h : Rebased delta image image') (hab : a.Moved delta b) :
    image.memory.readable a = image'.memory.readable b := by
  show (image.slice? a 1).isSome = (image'.slice? b 1).isSome
  rw [h.slice?_eq hab]

/-- No section of an image holds the byte at an address. -/
def Unmapped (image : Image) (a : Address) : Prop :=
  ∀ s ∈ image.sections, a.toNat < s.start.toNat ∨ s.stop ≤ a.toNat

theorem Unmapped.slice?_eq_none (h : image.Unmapped a) (n : Nat) : image.slice? a n = none := by
  unfold slice?
  rw [List.findSome?_eq_none_iff]
  intro s hs
  have hout := h s hs
  unfold Section.stop at hout
  unfold Section.slice?
  apply if_neg
  rintro ⟨hle, hlt, -⟩
  omega

theorem Unmapped.answers (h : image.Unmapped a) (n : Nat) : image.memory.Answers a n none :=
  h.slice?_eq_none n ▸ image.answers a n

/-! ## Places -/

/-- An address lies past the end of every section. -/
def PastEnd (image : Image) (a : Address) : Prop := ∀ s ∈ image.sections, s.stop ≤ a.toNat

theorem PastEnd.unmapped (h : image.PastEnd a) : image.Unmapped a := fun s hs => .inr (h s hs)

/-- A reference leads out of the address space, or past the end of every section. -/
def Nowhere (image : Image) (place : Option Address) : Prop := ∀ a, place = some a → image.PastEnd a

/-- What is further up than nowhere is nowhere. -/
theorem Nowhere.add {place : Option Address} (h : image.Nowhere place) (n : Nat) :
    image.Nowhere (place.bind (·.add? n)) := by
  intro b hb s hs
  obtain ⟨a, ha, hab⟩ := Option.bind_eq_some_iff.1 hb
  have hend := h a ha s hs
  have hsum := Address.add?_eq_some_iff.1 hab
  omega

/-- Two references lead to corresponding addresses, or both to nothing. -/
inductive SamePlace (delta : Int) (image image' : Image) :
    Option Address → Option Address → Prop
  | moved {a b : Address} (hab : a.Moved delta b) : SamePlace delta image image' (some a) (some b)
  | nowhere {p q : Option Address} (hp : image.Nowhere p) (hq : image'.Nowhere q) :
      SamePlace delta image image' p q

theorem Rebased.symm (h : Rebased delta image image') : Rebased (-delta) image' image where
  width := h.width'
  width' := h.width
  base := h.base.symm
  sections := by
    refine h.sections.flip.imp ?_
    intro t s hst
    exact ⟨hst.start.symm, hst.contents.symm⟩
  fits := h.fits'
  fits' := h.fits

/-- There is room above the sections of an image for what the other image has further up. -/
theorem Rebased.stop_le (h : Rebased delta image image') :
    ∀ t ∈ image'.sections, (t.stop : Int) ≤ UInt64.size + delta := by
  have hstop {ss ts : List Section} (hst : List.Forall₂ (Section.Moved delta) ss ts)
      (hfits : ∀ s ∈ ss, s.stop ≤ UInt64.size) :
      ∀ t ∈ ts, (t.stop : Int) ≤ UInt64.size + delta := by
    induction hst with
    | nil => exact nofun
    | cons hs _ ih =>
        obtain ⟨hfirst, hrest⟩ := List.forall_mem_cons.1 hfits
        refine List.forall_mem_cons.2 ⟨?_, ih hrest⟩
        have hstart := hs.start
        unfold Address.Moved at hstart
        unfold Section.stop at hfirst ⊢
        rw [hs.contents]
        omega
  exact hstop h.sections h.fits

theorem Rebased.le_start (h : Rebased delta image image') :
    ∀ s ∈ image.sections, 0 ≤ (s.start.toNat : Int) + delta := by
  have hstart {ss ts : List Section} (hst : List.Forall₂ (Section.Moved delta) ss ts) :
      ∀ s ∈ ss, 0 ≤ (s.start.toNat : Int) + delta := by
    induction hst with
    | nil => exact nofun
    | cons hs _ ih =>
        have hmoved := hs.start
        unfold Address.Moved at hmoved
        exact List.forall_mem_cons.2 ⟨by omega, ih⟩
  exact hstart h.sections

/-- An address that has no counterpart lies in no section. -/
theorem Rebased.unmapped_of_not_moved (h : Rebased delta image image')
    (ha : ∀ b, ¬a.Moved delta b) : image.Unmapped a := by
  intro s hs
  have hstop := h.symm.stop_le s hs
  have hstart := h.le_start s hs
  by_cases hsum : 0 ≤ (a.toNat : Int) + delta ∧ (a.toNat : Int) + delta < UInt64.size
  · -- the sum is an address, so it is the counterpart
    have hfits : ((a.toNat : Int) + delta).toNat < UInt64.size := by omega
    refine absurd ?_ (ha ⟨UInt64.ofNat ((a.toNat : Int) + delta).toNat⟩)
    have hvalue : (UInt64.ofNat ((a.toNat : Int) + delta).toNat).toNat
        = ((a.toNat : Int) + delta).toNat := UInt64.toNat_ofNat_of_lt' hfits
    show ((UInt64.ofNat ((a.toNat : Int) + delta).toNat).toNat : Int) = a.toNat + delta
    omega
  · omega

/-- Where a sum does not fit into the address space, the corresponding sum of the other image leads
nowhere: if it fits, it lies past the end of every section. -/
theorem Rebased.nowhere_add (h : Rebased delta image image') (hab : a.Moved delta b) {n : Nat}
    (ha : a.add? n = none) : image'.Nowhere (b.add? n) := by
  intro c hc t ht
  have hoverflow := Address.add?_eq_none_iff.1 ha
  have hsum := Address.add?_eq_some_iff.1 hc
  have hstop := h.stop_le t ht
  unfold Address.Moved at hab
  omega

/-- Sums correspond, or both lead nowhere; the latter only if something was added. -/
theorem Rebased.add_cases (h : Rebased delta image image') (hab : a.Moved delta b) (n : Nat) :
    (∃ c d, a.add? n = some c ∧ b.add? n = some d ∧ c.Moved delta d)
      ∨ n ≠ 0 ∧ image.Nowhere (a.add? n) ∧ image'.Nowhere (b.add? n) := by
  cases ha : a.add? n with
  | none =>
      have hoverflow := Address.add?_eq_none_iff.1 ha
      have hlt := a.toNat_lt
      exact .inr ⟨by omega, nofun, h.nowhere_add hab ha⟩
  | some c =>
      cases hb : b.add? n with
      | none =>
          have hoverflow := Address.add?_eq_none_iff.1 hb
          have hlt := b.toNat_lt
          exact .inr ⟨by omega, ha ▸ h.symm.nowhere_add hab.symm hb, nofun⟩
      | some d => exact .inl ⟨c, d, rfl, rfl, hab.add ha hb⟩

theorem Rebased.samePlace_add (h : Rebased delta image image') (hab : a.Moved delta b) (n : Nat) :
    SamePlace delta image image' (a.add? n) (b.add? n) := by
  rcases h.add_cases hab n with ⟨c, d, ha, hb, hcd⟩ | ⟨-, ha, hb⟩
  · rw [ha, hb]
    exact .moved hcd
  · exact .nowhere ha hb

theorem Rebased.samePlace_bind_add (h : Rebased delta image image') {p q : Option Address}
    (hpq : SamePlace delta image image' p q) (n : Nat) :
    SamePlace delta image image' (p.bind (·.add? n)) (q.bind (·.add? n)) := by
  cases hpq with
  | moved hab => exact h.samePlace_add hab n
  | nowhere hp hq => exact .nowhere (hp.add n) (hq.add n)

theorem frame_eq (hwidth : image.width = .bits64) : image.memory.frame = ⟨.bits64, image.base⟩ := by
  have hmemory : image.memory.width = .bits64 := hwidth
  unfold Accessor.frame
  rw [hmemory]
  rfl

/-- An offset of the module refers to corresponding places. -/
theorem Rebased.samePlace_resolve (h : Rebased delta image image') (offset : Memory.Offset) :
    SamePlace delta image image' (image.memory.frame.resolve offset)
      (image'.memory.frame.resolve offset) := by
  rw [frame_eq h.width, frame_eq h.width']
  exact h.samePlace_add h.base offset.toNat

end Image

end RttiProbe
