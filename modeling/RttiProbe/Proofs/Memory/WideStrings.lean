import RttiProbe.Proofs.Record.Layout
import RttiProbe.Proofs.Text.Unicode
/-!
# Strings of UTF-16

A wide string is read unit by unit, up to a null unit, to where not both bytes of a unit can be
read, or to the limit.  So a text without null characters that an image holds in UTF-16 is read
back, whatever its length up to the limit, and comes out in UTF-8.  The one exception is a string of
no units where there is not even a null unit: there is nothing to be read, and no string.
-/

set_option autoImplicit false

namespace RttiProbe

open Memory (Address)

/-! ## Single units -/

/-- The unit at an address, if both its bytes can be read in one go. -/
def Memory.unit? (memory : Memory) (a : Address) : Option UInt16 :=
  match memory.read a 2 with
  | .ok bs => some (UInt16.ofNat (Memory.Word.ofBytes bs))
  | .error _ => none

/-- The unit `i` places above an address.  There is none past the end of the address space. -/
def Memory.unitAbove (memory : Memory) (start : Address) (i : Nat) : Option UInt16 :=
  (start.add? (2 * i)).bind memory.unit?

namespace Memory

variable {memory : Memory} {start cursor : Address}

theorem unitAbove_zero : memory.unitAbove start 0 = memory.unit? start := by
  unfold unitAbove
  rw [Nat.mul_zero, Address.add?_zero, Option.bind_some]

theorem unitAbove_of_add {i : Nat} (h : start.add? (2 * i) = some cursor) :
    memory.unitAbove start i = memory.unit? cursor := by
  unfold unitAbove
  rw [h, Option.bind_some]

/-- A read of two bytes is answered, and the answer tells the unit. -/
theorem Bytewise.exists_answer (h : memory.Bytewise) (a : Address) :
    ∃ answer, memory.Answers a 2 answer
      ∧ memory.unit? a = answer.map fun bs => UInt16.ofNat (Word.ofBytes bs) := by
  unfold Answers unit?
  cases hread : memory.read a 2 with
  | error e => exact ⟨none, ⟨h.failures a 2 e hread, rfl⟩, rfl⟩
  | ok bs => exact ⟨some bs, rfl, rfl⟩

/-- Where a unit can be read, each of its bytes can. -/
theorem Bytewise.exists_bytes (h : memory.Bytewise) {i : Nat} {u : UInt16}
    (hunit : memory.unitAbove start i = some u) :
    ∃ low high, memory.byteAbove start (2 * i) = some low
      ∧ memory.byteAbove start (2 * i + 1) = some high
      ∧ u = UInt16.ofNat (Word.ofBytes [low, high]) := by
  obtain ⟨cursor, hcursor, hread⟩ := Option.bind_eq_some_iff.1 hunit
  unfold unit? at hread
  split at hread
  · rename_i bs hok
    obtain ⟨low, high, rfl⟩ := List.length_eq_two.1 (h.lengths cursor 2 bs hok)
    have hlow := h.parts cursor 2 _ hok 0 low rfl
    have hhigh := h.parts cursor 2 _ hok 1 high rfl
    rw [← byteAbove_add hcursor] at hlow hhigh
    exact ⟨low, high, hlow, hhigh, (Option.some.inj hread).symm⟩
  · cases hread

end Memory

/-! ## Runs of units -/

namespace Memory.CString

open Decode (Gives gives_bind gives_done gives_read)

variable {memory : Memory} {start : Address}

/-- The units stand one after another, the first of them `count` places above an address. -/
def UnitsStand (memory : Memory) (start : Address) : (count : Nat) → List UInt16 → Prop
  | _, [] => True
  | count, u :: rest =>
    memory.unitAbove start count = some u ∧ UnitsStand memory start (count + 1) rest

/-- What stands above so many units for a string to end with them. -/
inductive WideEnds (memory : Memory) (start : Address) (count : Nat) : Prop
  /-- a null unit -/
  | null (low : memory.byteAbove start (2 * count) = some 0)
      (high : memory.byteAbove start (2 * count + 1) = some 0)
  /-- nothing that can be read, or a single byte -/
  | unreadable (missing : memory.byteAbove start (2 * count) = none
      ∨ memory.byteAbove start (2 * count + 1) = none)
  /-- anything, if there are as many units as there may be -/
  | limit (full : count = maxUnits)

/-- Below the limit, no unit but a null unit follows a string. -/
theorem WideEnds.eq_zero {count : Nat} (h : WideEnds memory start count) (hbytes : memory.Bytewise)
    (hroom : count < maxUnits) {u : UInt16} (hunit : memory.unitAbove start count = some u) :
    u = 0 := by
  obtain ⟨low, high, hlow, hhigh, rfl⟩ := hbytes.exists_bytes hunit
  cases h with
  | null low high =>
      obtain rfl := Option.some.inj (hlow.symm.trans low)
      obtain rfl := Option.some.inj (hhigh.symm.trans high)
      rfl
  | unreadable missing =>
      rcases missing with hnone | hnone
      · cases hlow.symm.trans hnone
      · cases hhigh.symm.trans hnone
  | limit full => exact absurd full (Nat.ne_of_lt hroom)

/-! ## Reading -/

/-- There is no string where not even its first unit can be read. -/
theorem gives_wideUnits_none (h : memory.Bytewise) {room : Nat} (hroom : 0 < room)
    (hunit : memory.unit? start = none) : Gives memory (wideUnits start room 0 []) none := by
  obtain ⟨room, rfl⟩ := Nat.exists_eq_succ_of_ne_zero (Nat.ne_of_gt hroom)
  obtain ⟨answer, hanswer, hanswered⟩ := h.exists_answer start
  rw [hunit] at hanswered
  obtain rfl : answer = none := Option.map_eq_none_iff.1 hanswered.symm
  rw [wideUnits, Nat.mul_zero, Address.add?_zero]
  exact gives_read.2 ⟨none, hanswer, gives_done.2 rfl⟩

/-- Reading ends where there is no more room, or where no unit follows but a null unit. -/
theorem gives_wideUnits_of_end (h : memory.Bytewise) {before : List UInt16} {room count : Nat}
    (hfirst : before = [] → memory.unitAbove start count ≠ none)
    (hend : 0 < room → ∀ u, memory.unitAbove start count = some u → u = 0) :
    Gives memory (wideUnits start room count before) (some before.reverse) := by
  cases room with
  | zero => exact gives_done.2 rfl
  | succ room =>
      rw [wideUnits]
      cases hcursor : start.add? (2 * count) with
      | none => exact gives_done.2 rfl
      | some cursor =>
          obtain ⟨answer, hanswer, hunit⟩ := h.exists_answer cursor
          rw [← unitAbove_of_add hcursor] at hunit
          refine gives_read.2 ⟨answer, hanswer, ?_⟩
          cases answer with
          | none =>
              have hbefore : before.isEmpty = false :=
                List.isEmpty_eq_false_iff.2 fun hnil => hfirst hnil hunit
              rw [hbefore]
              exact gives_done.2 rfl
          | some bs =>
              dsimp only
              rw [if_pos (hend (Nat.succ_pos room) _ hunit)]
              exact gives_done.2 rfl

/-- A unit that is not null is taken, if there is room for it. -/
theorem gives_wideUnits_of_unit (h : memory.Bytewise) {before : List UInt16} {room count : Nat}
    {u : UInt16} (hunit : memory.unitAbove start count = some u) (hu : u ≠ 0)
    {result : Option (List UInt16)}
    (hgives : Gives memory (wideUnits start room (count + 1) (u :: before)) result) :
    Gives memory (wideUnits start (room + 1) count before) result := by
  obtain ⟨cursor, hcursor, hread⟩ := Option.bind_eq_some_iff.1 hunit
  obtain ⟨answer, hanswer, hanswered⟩ := h.exists_answer cursor
  rw [hread] at hanswered
  obtain ⟨bs, rfl, rfl⟩ := Option.map_eq_some_iff.1 hanswered.symm
  rw [wideUnits, hcursor]
  refine gives_read.2 ⟨some bs, hanswer, ?_⟩
  dsimp only
  rw [if_neg hu]
  exact hgives

/-- Units that stand and are not null are read, up to what ends them. -/
theorem gives_wideUnits (h : memory.Bytewise) {units before : List UInt16} {room count : Nat}
    (hstand : UnitsStand memory start count units) (hnonzero : 0 ∉ units)
    (hroom : units.length ≤ room) (hfirst : before = [] → memory.unitAbove start count ≠ none)
    (hend : units.length < room →
      ∀ u, memory.unitAbove start (count + units.length) = some u → u = 0) :
    Gives memory (wideUnits start room count before) (some (before.reverse ++ units)) := by
  induction units generalizing room count before with
  | nil =>
      rw [List.append_nil]
      exact gives_wideUnits_of_end h hfirst hend
  | cons u rest ih =>
      obtain ⟨hunit, hrest⟩ := hstand
      obtain ⟨hu, hnonzero⟩ := not_or.1 (mt List.mem_cons.2 hnonzero)
      obtain ⟨room, rfl⟩ := Nat.exists_eq_succ_of_ne_zero (Nat.ne_of_gt (Nat.zero_lt_of_lt hroom))
      have hlength : count + (u :: rest).length = count + 1 + rest.length := by
        rw [List.length_cons]
        omega
      rw [hlength] at hend
      have hgives : Gives memory (wideUnits start room (count + 1) (u :: before))
          (some ((u :: before).reverse ++ rest)) :=
        ih hrest hnonzero (Nat.le_of_succ_le_succ hroom) nofun fun hlt =>
          hend (Nat.succ_lt_succ hlt)
      rw [List.reverse_cons, List.append_assoc, List.singleton_append] at hgives
      exact gives_wideUnits_of_unit h hunit (Ne.symm hu) hgives

/-- What is read as units comes out as the UTF-8 of their text. -/
theorem gives_string_wide {units : Option (List UInt16)}
    (h : Gives memory (wideUnits start maxUnits 0 []) units) :
    Gives memory (string .wide start)
      ((units.map Text.Utf16.decodeLossy).map Text.Utf8.encode) :=
  gives_bind.2 ⟨_, gives_bind.2 ⟨_, h, gives_done.2 rfl⟩, gives_done.2 rfl⟩

end Memory.CString

/-! ## Images -/

namespace Image

open Memory.CString (UnitsStand WideEnds maxUnits string wideUnits gives_wideUnits
  gives_wideUnits_none gives_string_wide)
open Decode (Gives)

variable {image : Image} {start : Address} {s : String}

/-- Units as they are laid out in memory. -/
def unitBytes (units : List UInt16) : Bytes := units.flatMap fun u => Memory.Word.toBytes 2 u.toNat

theorem unitBytes_cons (u : UInt16) (rest : List UInt16) :
    unitBytes (u :: rest) = Memory.Word.toBytes 2 u.toNat ++ unitBytes rest := List.flatMap_cons

theorem unitBytes_ne_nil {units : List UInt16} (h : units ≠ []) : unitBytes units ≠ [] := by
  obtain ⟨u, rest, rfl⟩ := List.exists_cons_of_ne_nil h
  rw [unitBytes_cons]
  exact List.cons_ne_nil _ _

/-- A unit is read from where it is held. -/
theorem Holds.unit?_eq (h : image.IsLaidOut) {a : Address} {u : UInt16}
    (hheld : image.Holds a (Memory.Word.toBytes 2 u.toNat)) : image.memory.unit? a = some u := by
  have hread : image.memory.read a 2 = .ok (Memory.Word.toBytes 2 u.toNat) :=
    hheld.read h (List.cons_ne_nil _ _)
  have hvalue : Memory.Word.ofBytes (Memory.Word.toBytes 2 u.toNat) = u.toNat :=
    Memory.Word.ofBytes_toBytes_of_lt u.toNat_lt
  unfold Memory.unit?
  rw [hread]
  dsimp only
  rw [hvalue, UInt16.ofNat_toNat]

/-- Units stand where they are held. -/
theorem unitsStand_of_holds (h : image.IsLaidOut) {units : List UInt16} {count : Nat}
    (hheld : units ≠ [] →
      ∃ a, start.add? (2 * count) = some a ∧ image.Holds a (unitBytes units)) :
    UnitsStand image.memory start count units := by
  induction units generalizing count with
  | nil => trivial
  | cons u rest ih =>
      obtain ⟨a, ha, hheld⟩ := hheld (List.cons_ne_nil u rest)
      rw [unitBytes_cons] at hheld
      refine ⟨(Memory.unitAbove_of_add ha).trans (hheld.left.unit?_eq h), ih fun hne => ?_⟩
      obtain ⟨b, hb, hrest⟩ := hheld.exists_add? h (unitBytes_ne_nil hne)
      rw [Memory.Word.length_toBytes] at hb
      refine ⟨b, ?_, hrest⟩
      have hsum := Address.add?_eq_some_iff.1 ha
      rw [Address.add?_eq_some_iff] at hb ⊢
      omega

/-- A string that is kept in an image, as UTF-16 from an address on. -/
structure KeepsWide (image : Image) (start : Address) (s : String) : Prop where
  /-- no character of it would end it -/
  nonnull : '\x00' ∉ s.toList
  bounded : (Text.Utf16.encode s.toList).length ≤ maxUnits
  /-- a section has all of its units, if there are any -/
  held : s ≠ "" → image.Holds start (unitBytes (Text.Utf16.encode s.toList))
  ends : WideEnds image.memory start (Text.Utf16.encode s.toList).length

theorem KeepsWide.unitsStand (h : image.IsLaidOut) (hs : image.KeepsWide start s) :
    UnitsStand image.memory start 0 (Text.Utf16.encode s.toList) := by
  refine unitsStand_of_holds h fun hne => ⟨start, Address.ofNat?_toNat start, hs.held ?_⟩
  rintro rfl
  exact hne rfl

/-- Unless the string is empty, its first unit can be read. -/
theorem KeepsWide.unitAbove_zero_ne_none (h : image.IsLaidOut) (hs : image.KeepsWide start s)
    (hfirst : ¬ (s = "" ∧ image.memory.unit? start = none)) :
    image.memory.unitAbove start 0 ≠ none := by
  have hstand := hs.unitsStand h
  cases hunits : Text.Utf16.encode s.toList with
  | nil =>
      have hempty : s = "" := String.toList_eq_nil_iff.1 (Text.Utf16.encode_eq_nil_iff.1 hunits)
      rw [Memory.unitAbove_zero]
      exact fun hnone => hfirst ⟨hempty, hnone⟩
  | cons u rest =>
      rw [hunits] at hstand
      rw [hstand.1]
      exact Option.some_ne_none u

/-- A wide string is read back from where it is kept, in UTF-8.  Only where it has no characters and
no unit can be read there is none. -/
theorem wide_reads_back (h : image.IsLaidOut) (hs : image.KeepsWide start s) :
    Gives image.memory (string .wide start)
      (if s = "" ∧ image.memory.unit? start = none then none else some s.toUTF8.data.toList) := by
  split
  · rename_i hnone
    exact gives_string_wide (gives_wideUnits_none h.bytewise (by decide) hnone.2)
  · rename_i hsome
    have hfirst := hs.unitAbove_zero_ne_none h hsome
    have hend : (Text.Utf16.encode s.toList).length < maxUnits → ∀ u,
        image.memory.unitAbove start (0 + (Text.Utf16.encode s.toList).length) = some u →
          u = 0 := by
      rw [Nat.zero_add]
      exact fun hroom u => hs.ends.eq_zero h.bytewise hroom
    have hunits : Gives image.memory (wideUnits start maxUnits 0 [])
        (some (Text.Utf16.encode s.toList)) :=
      gives_wideUnits h.bytewise (hs.unitsStand h) (Text.Utf16.zero_not_mem_encode hs.nonnull)
        hs.bounded (fun _ => hfirst) hend
    have hstring := gives_string_wide hunits
    rw [Option.map_some, Option.map_some, Text.Utf16.decodeLossy_encode,
      Text.Utf8.encode_toList] at hstring
    exact hstring

/-- A section at an odd address, with five units and a single byte after them, with which the address
space ends. -/
def oddImage : Image where
  base := .null
  width := .bits64
  sections := [⟨⟨0xFFFFFFFFFFFFFFF5⟩,
    #[0x41, 0x00, 0xE9, 0x00, 0xAC, 0x20, 0x3D, 0xD8, 0x00, 0xDE, 0x42]⟩]

/-- Characters of each length that there is in UTF-8, the last of them a pair of units, and no string
where only a single byte is left. -/
theorem wide_reads_back_odd :
    oddImage.IsLaidOut
      ∧ oddImage.KeepsWide ⟨0xFFFFFFFFFFFFFFF5⟩ "Aé€😀"
      ∧ Gives oddImage.memory (string .wide ⟨0xFFFFFFFFFFFFFFF5⟩)
          (some [0x41, 0xC3, 0xA9, 0xE2, 0x82, 0xAC, 0xF0, 0x9F, 0x98, 0x80])
      ∧ oddImage.KeepsWide ⟨0xFFFFFFFFFFFFFFFF⟩ ""
      ∧ Gives oddImage.memory (string .wide ⟨0xFFFFFFFFFFFFFFFF⟩) none := by
  have hlaid : oddImage.IsLaidOut := ⟨List.pairwise_singleton _ _, by decide⟩
  have hkeeps : oddImage.KeepsWide ⟨0xFFFFFFFFFFFFFFF5⟩ "Aé€😀" :=
    ⟨by decide, by decide, fun _ => by decide, .unreadable (.inr (by decide))⟩
  have hempty : oddImage.KeepsWide ⟨0xFFFFFFFFFFFFFFFF⟩ "" :=
    ⟨by decide, by decide, fun hne => absurd rfl hne, .unreadable (.inr (by decide))⟩
  exact ⟨hlaid, hkeeps, wide_reads_back hlaid hkeeps, hempty, wide_reads_back hlaid hempty⟩

end Image

end RttiProbe
