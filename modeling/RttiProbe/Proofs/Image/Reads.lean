import Mathlib.Data.List.Pairwise
import RttiProbe.Proofs.Image.Rebasing
/-!
# Reads of images

The first section that holds all of a read answers it.  If no two sections overlap then there is at
most one that can, so an image holds at an address what any of its sections holds there: the order
of the sections has no say in it, and a part of what was read is read at its own address.
-/

set_option autoImplicit false

namespace RttiProbe.Image

open Memory (Address)

variable {image : Image} {s t : Section} {a b : Address} {n : Nat} {bs : Bytes}

/-! ## Sections -/

/-- No address lies in both of two sections. -/
def Section.Disjoint (s t : Section) : Prop :=
  ∀ i, s.start.toNat ≤ i → i < s.stop → t.start.toNat ≤ i → i < t.stop → False

instance : Std.Symm Section.Disjoint where
  symm _ _ h i hs hs' ht ht' := h i ht ht' hs hs'

/-- One of two disjoint sections ends where the other starts or before it, or has no bytes. -/
theorem Section.disjoint_iff : s.Disjoint t ↔
    s.stop ≤ t.start.toNat ∨ t.stop ≤ s.start.toNat ∨ s.stop ≤ s.start.toNat
      ∨ t.stop ≤ t.start.toNat := by
  constructor
  · intro h
    by_contra hoverlap
    exact h (max s.start.toNat t.start.toNat) (by omega) (by omega) (by omega) (by omega)
  · intro h i hs hs' ht ht'
    omega

instance (s t : Section) : Decidable (s.Disjoint t) := decidable_of_iff _ Section.disjoint_iff.symm

theorem Section.slice?_eq_some_iff : s.slice? a n = some bs ↔
    s.start.toNat ≤ a.toNat ∧ a.toNat < s.stop ∧ a.toNat + n ≤ s.stop
      ∧ (s.contents.toList.drop (a.toNat - s.start.toNat)).take n = bs := by
  have hextract (i : Nat) : (s.contents.extract i (i + n)).toList
      = (s.contents.toList.drop i).take n := by
    rw [Array.toList_extract, List.extract_eq_take_drop, Nat.add_sub_cancel_left]
  unfold Section.slice? Section.stop
  dsimp only
  rw [hextract]
  constructor
  · intro h
    split at h
    · obtain rfl := Option.some.inj h
      exact ⟨by omega, by omega, by omega, rfl⟩
    · cases h
  · rintro ⟨hstart, hstop, hend, rfl⟩
    exact if_pos ⟨hstart, by omega, by omega⟩

theorem Section.length_of_slice? (h : s.slice? a n = some bs) : bs.length = n := by
  obtain ⟨hstart, hstop, hend, rfl⟩ := Section.slice?_eq_some_iff.1 h
  unfold Section.stop at hstop hend
  rw [List.length_take, List.length_drop, Array.length_toList]
  omega

/-- A part of a slice is a slice of its own, from the address where the part starts. -/
theorem Section.slice?_part (h : s.slice? a n = some bs) {i m : Nat} (hi : i < n) (hm : i + m ≤ n)
    (hb : b.toNat = a.toNat + i) : s.slice? b m = some ((bs.drop i).take m) := by
  obtain ⟨hstart, hstop, hend, rfl⟩ := Section.slice?_eq_some_iff.1 h
  have hoffset : b.toNat - s.start.toNat = a.toNat - s.start.toNat + i := by omega
  refine Section.slice?_eq_some_iff.2 ⟨by omega, by omega, by omega, ?_⟩
  rw [hoffset, List.drop_take, List.drop_drop, List.take_take, Nat.min_eq_left (by omega)]

/-- Each byte of a slice is one at its own address. -/
theorem Section.exists_slice?_one (hfits : s.stop ≤ UInt64.size) (h : s.slice? a n = some bs)
    {i : Nat} {x : UInt8} (hx : bs[i]? = some x) :
    ∃ c, a.add? i = some c ∧ s.slice? c 1 = some [x] := by
  obtain ⟨hlt, -⟩ := List.getElem?_eq_some_iff.1 hx
  rw [Section.length_of_slice? h] at hlt
  obtain ⟨-, -, hend, -⟩ := Section.slice?_eq_some_iff.1 h
  cases hc : a.add? i with
  | none =>
      have hoverflow := Address.add?_eq_none_iff.1 hc
      omega
  | some c =>
      refine ⟨c, rfl, ?_⟩
      rw [Section.slice?_part h hlt hlt (Address.add?_eq_some_iff.1 hc), List.take_one,
        List.head?_drop, hx]
      rfl

/-! ## Images -/

theorem length_of_readBytes (h : image.readBytes a n = .ok bs) : bs.length = n := by
  unfold readBytes at h
  split at h
  case h_1 found hfound =>
    obtain rfl := Except.ok.inj h
    obtain ⟨s, -, hslice⟩ := List.exists_of_findSome?_eq_some hfound
    exact s.length_of_slice? hslice
  case h_2 => cases h

/-- A lack of access is the only failure of an image. -/
theorem isUnreadable_of_readBytes {e : Error} (h : image.readBytes a n = .error e) :
    e.isUnreadable = true := by
  unfold readBytes at h
  split at h
  case h_1 => cases h
  case h_2 =>
    obtain rfl := Except.error.inj h
    rfl

/-! ## Images without overlaps -/

/-- Where sections do not overlap, an image holds at an address what any of its sections holds
there. -/
theorem slice?_eq_some_iff (h : image.sections.Pairwise Section.Disjoint) :
    image.slice? a n = some bs ↔ ∃ s ∈ image.sections, s.slice? a n = some bs := by
  constructor
  · exact List.exists_of_findSome?_eq_some
  · rintro ⟨s, hs, hslice⟩
    cases hfound : image.slice? a n with
    | none =>
        rw [List.findSome?_eq_none_iff.1 hfound s hs] at hslice
        cases hslice
    | some found =>
        obtain ⟨t, ht, hslice'⟩ := List.exists_of_findSome?_eq_some hfound
        obtain ⟨hstart, hstop, -, -⟩ := Section.slice?_eq_some_iff.1 hslice
        obtain ⟨hstart', hstop', -, -⟩ := Section.slice?_eq_some_iff.1 hslice'
        by_cases hst : s = t
        · rw [← hslice, ← hslice', hst]
        · exact (h.forall hs ht hst a.toNat hstart hstop hstart' hstop').elim

/-- The sections of an image have no address in common, and they end within the address space. -/
structure IsLaidOut (image : Image) : Prop where
  disjoint : image.sections.Pairwise Section.Disjoint
  fits : ∀ s ∈ image.sections, s.stop ≤ UInt64.size

/-- An image holds at an address what a section of it holds there. -/
theorem IsLaidOut.slice?_eq (h : image.IsLaidOut) (hs : s ∈ image.sections)
    (hslice : s.slice? a n = some bs) : image.slice? a n = some bs :=
  (slice?_eq_some_iff h.disjoint).2 ⟨s, hs, hslice⟩

/-- Images with the same sections, in whatever order, hold the same. -/
theorem slice?_eq_of_perm {image' : Image} (h : image.sections.Pairwise Section.Disjoint)
    (hperm : image'.sections.Perm image.sections) : image'.slice? a n = image.slice? a n := by
  have h' : image'.sections.Pairwise Section.Disjoint :=
    hperm.symm.pairwise h fun hst => Std.Symm.symm _ _ hst
  refine Option.ext fun bs => ?_
  rw [slice?_eq_some_iff h, slice?_eq_some_iff h']
  simp only [hperm.mem_iff]

/-! ## Answers -/

theorem readBytes_eq_ok_iff : image.readBytes a n = .ok bs ↔ image.slice? a n = some bs := by
  unfold readBytes
  cases image.slice? a n with
  | none => exact iff_of_false nofun nofun
  | some found =>
      exact ⟨fun h => congrArg some (Except.ok.inj h),
        fun h => congrArg Except.ok (Option.some.inj h)⟩

/-- A read that fails says at which address. -/
theorem eq_unreadable_of_readBytes_eq_error {e : Error} (h : image.readBytes a n = .error e) :
    e = .unreadable a := by
  unfold readBytes at h
  split at h
  · cases h
  · exact (Except.error.inj h).symm

theorem isReadable_iff : image.isReadable a = true ↔ ∃ bs, image.readBytes a 1 = .ok bs := by
  unfold isReadable
  rw [Option.isSome_iff_exists]
  simp only [readBytes_eq_ok_iff]

/-- The reads of an image agree with its sections and with one another. -/
structure ReadsAgree (image : Image) : Prop where
  /-- a read gives the bytes that a section has from the address on, if it has that many -/
  read_iff : ∀ a n bs, image.readBytes a n = .ok bs ↔ ∃ s ∈ image.sections,
    s.start.toNat ≤ a.toNat ∧ a.toNat < s.stop ∧ a.toNat + n ≤ s.stop
      ∧ (s.contents.toList.drop (a.toNat - s.start.toNat)).take n = bs
  /-- the order of the sections makes no difference -/
  reordered : ∀ sections : List Section, sections.Perm image.sections → ∀ a,
    { image with sections := sections }.isReadable a = image.isReadable a
      ∧ ∀ n, { image with sections := sections }.readBytes a n = image.readBytes a n
  /-- an address is readable exactly if a read of one byte succeeds -/
  readable_iff : ∀ a, image.isReadable a = true ↔ ∃ bs, image.readBytes a 1 = .ok bs
  /-- a part of what was read is read at the address where it starts -/
  part : ∀ a n bs, image.readBytes a n = .ok bs → ∀ i m, i < n → i + m ≤ n →
    ∀ b : Address, b.toNat = a.toNat + i → image.readBytes b m = .ok ((bs.drop i).take m)
  /-- a read that fails says no more than that its address is not readable -/
  refused : ∀ a n e, image.readBytes a n = .error e → e = .unreadable a

/-- Sections that do not overlap are read alike in any order, as a whole and in parts. -/
theorem reads_agree (image : Image) (h : image.sections.Pairwise Section.Disjoint) :
    image.ReadsAgree where
  read_iff a n bs := by
    rw [readBytes_eq_ok_iff, slice?_eq_some_iff h]
    simp only [Section.slice?_eq_some_iff]
  reordered sections hperm a := by
    have hslice (n : Nat) : { image with sections := sections }.slice? a n = image.slice? a n :=
      slice?_eq_of_perm h hperm
    refine ⟨?_, fun n => ?_⟩
    · unfold isReadable
      rw [hslice]
    · unfold readBytes
      rw [hslice]
  readable_iff _ := isReadable_iff
  part a n bs hread i m hi hm b hb := by
    obtain ⟨s, hs, hslice⟩ := (slice?_eq_some_iff h).1 (readBytes_eq_ok_iff.1 hread)
    have hpart := Section.slice?_part hslice hi hm hb
    exact readBytes_eq_ok_iff.2 ((slice?_eq_some_iff h).2 ⟨s, hs, hpart⟩)
  refused _ _ _ := eq_unreadable_of_readBytes_eq_error

/-- Sections in no order: one without bytes within another, and one that goes on past the end of the
address space. -/
def scatteredImage : Image where
  base := .null
  width := .bits64
  sections := [⟨⟨0xFFFFFFFFFFFFFFFE⟩, #[0x61, 0x62, 0x63]⟩, ⟨⟨0x2002⟩, #[]⟩,
    ⟨⟨0x2000⟩, #[0x64, 0x65, 0x66, 0x67]⟩, ⟨⟨0x1FFE⟩, #[0x68, 0x69]⟩]

theorem reads_agree_scattered : scatteredImage.sections.Pairwise Section.Disjoint
    ∧ scatteredImage.ReadsAgree
    ∧ scatteredImage.readBytes ⟨0xFFFFFFFFFFFFFFFE⟩ 3 = .ok [0x61, 0x62, 0x63] := by
  have hdisjoint : scatteredImage.sections.Pairwise Section.Disjoint := by decide
  exact ⟨hdisjoint, reads_agree scatteredImage hdisjoint, by decide +kernel⟩

end RttiProbe.Image
