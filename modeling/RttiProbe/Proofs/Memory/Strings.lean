import RttiProbe.Proofs.Image.Reads
import RttiProbe.Proofs.Text.Lines
/-!
# Strings of bytes

A string of bytes is read in chunks as long as whole chunks can be read, and byte by byte after
that.  Which of the two is done where makes no difference: as long as what is read in one go could
have been read byte by byte, the string is the longest run of bytes that are not zero, cut off where
memory or the address space ends or where the limit is reached.  The memory of an image is of that
kind if no two of its sections overlap.
-/

set_option autoImplicit false

namespace RttiProbe

open Memory (Address)

/-! ## Single bytes -/

/-- The byte at an address, if it can be read by itself. -/
def Memory.byte? (memory : Memory) (a : Address) : Option UInt8 :=
  match memory.read a 1 with
  | .ok [b] => some b
  | _ => none

/-- The byte `i` places above an address.  There is none past the end of the address space. -/
def Memory.byteAbove (memory : Memory) (start : Address) (i : Nat) : Option UInt8 :=
  (start.add? i).bind memory.byte?

/-- In a memory of bytes, what can be read in one go can be read byte by byte, and nothing worse
happens than that memory is not accessible. -/
structure Memory.Bytewise (memory : Memory) : Prop where
  /-- no read fails in any other way -/
  failures : ∀ a n e, memory.read a n = .error e → e.isUnreadable = true
  /-- a read gives as many bytes as it was asked for -/
  lengths : ∀ a n bs, memory.read a n = .ok bs → bs.length = n
  /-- each of them is the one at its own address -/
  parts : ∀ a n bs, memory.read a n = .ok bs → ∀ i b, bs[i]? = some b →
    memory.byteAbove a i = some b

namespace Memory

variable {memory : Memory} {start cursor : Address}

theorem Address.add?_zero (a : Address) : a.add? 0 = some a := Address.ofNat?_toNat a

theorem byteAbove_zero : memory.byteAbove start 0 = memory.byte? start := by
  unfold byteAbove
  rw [Address.add?_zero, Option.bind_some]

theorem byteAbove_add {k : Nat} (h : start.add? k = some cursor) (i : Nat) :
    memory.byteAbove start (k + i) = memory.byteAbove cursor i := by
  have hsum : cursor.toNat = start.toNat + k := Address.add?_eq_some_iff.1 h
  have hadd : start.add? (k + i) = cursor.add? i := by
    unfold Address.add?
    rw [hsum, Nat.add_assoc]
  unfold byteAbove
  rw [hadd]

theorem byteAbove_of_add {k : Nat} (h : start.add? k = some cursor) :
    memory.byteAbove start k = memory.byte? cursor :=
  (byteAbove_add h 0).trans byteAbove_zero

theorem byteAbove_of_add_eq_none {k : Nat} (h : start.add? k = none) :
    memory.byteAbove start k = none := by
  unfold byteAbove
  rw [h, Option.bind_none]

/-- A read of one byte is answered by the byte at the address. -/
theorem Bytewise.answers_one (h : memory.Bytewise) (a : Address) :
    memory.Answers a 1 ((memory.byte? a).map ([·])) := by
  unfold Answers byte?
  cases hread : memory.read a 1 with
  | error e => exact ⟨h.failures a 1 e hread, rfl⟩
  | ok bs =>
      obtain ⟨b, rfl⟩ := List.length_eq_one_iff.1 (h.lengths a 1 bs hread)
      rfl

end Memory

/-! ## Runs of bytes -/

namespace Memory.CString

open Decode (Gives gives_done gives_read)

variable {memory : Memory} {start cursor : Address} {before bs : Bytes}

/-- The bytes stand one after another from an address on, and none of them is zero. -/
def Stands (memory : Memory) (start : Address) (bs : Bytes) : Prop :=
  ∀ i b, bs[i]? = some b → memory.byteAbove start i = some b ∧ b ≠ 0

/-- The longest run of bytes from an address on that are not zero, cut off at the limit. -/
structure IsRun (memory : Memory) (start : Address) (bs : Bytes) : Prop where
  stands : Stands memory start bs
  bounded : bs.length ≤ maxUnits
  /-- below the limit, what follows is a zero byte or nothing that can be read -/
  ends : bs.length < maxUnits → ∀ b, memory.byteAbove start bs.length = some b → b = 0

/-- What the string at an address is: nothing where not even one byte can be read. -/
def IsString (memory : Memory) (start : Address) : Option Bytes → Prop
  | none => memory.byte? start = none
  | some bs => memory.byte? start ≠ none ∧ IsRun memory start bs

theorem IsRun.length_le (h : IsRun memory start bs) {other : Bytes}
    (hother : IsRun memory start other) : other.length ≤ bs.length := by
  by_contra hlt
  have hlonger : bs.length < other.length := Nat.lt_of_not_le hlt
  obtain ⟨b, hb⟩ : ∃ b, other[bs.length]? = some b := ⟨_, List.getElem?_eq_getElem hlonger⟩
  obtain ⟨hbyte, hzero⟩ := hother.stands bs.length b hb
  exact hzero (h.ends (Nat.lt_of_lt_of_le hlonger hother.bounded) b hbyte)

theorem IsRun.unique (h : IsRun memory start bs) {other : Bytes}
    (hother : IsRun memory start other) : bs = other := by
  have hlength : bs.length = other.length :=
    Nat.le_antisymm (hother.length_le h) (h.length_le hother)
  apply List.ext_getElem? fun i => ?_
  cases hb : bs[i]? with
  | none =>
      have hout : other.length ≤ i := hlength ▸ List.getElem?_eq_none_iff.1 hb
      exact (List.getElem?_eq_none_iff.2 hout).symm
  | some b =>
      have hin : i < other.length := hlength ▸ (List.getElem?_eq_some_iff.1 hb).1
      have hc := List.getElem?_eq_getElem hin
      have hbyte := (h.stands i b hb).1.symm.trans (hother.stands i _ hc).1
      rw [hc, hbyte]

theorem IsString.unique {result other : Option Bytes} (h : IsString memory start result)
    (hother : IsString memory start other) : result = other := by
  cases result with
  | none =>
      cases other with
      | none => rfl
      | some bs => exact absurd h hother.1
  | some bs =>
      cases other with
      | none => exact absurd hother h.1
      | some other => exact congrArg some (h.2.unique hother.2)

theorem stands_nil : Stands memory start [] := nofun

/-- What stands where other bytes end goes on after them. -/
theorem Stands.append (hbefore : Stands memory start before)
    (hcursor : start.add? before.length = some cursor) (h : Stands memory cursor bs) :
    Stands memory start (before ++ bs) := by
  intro i b hb
  rw [List.getElem?_append] at hb
  split at hb
  · exact hbefore i b hb
  · rename_i hge
    obtain ⟨hbyte, hzero⟩ := h (i - before.length) b hb
    rw [← byteAbove_add hcursor, Nat.add_sub_cancel' (Nat.le_of_not_lt hge)] at hbyte
    exact ⟨hbyte, hzero⟩

theorem Stands.byte?_ne_none (h : Stands memory start bs) (hne : bs ≠ []) :
    memory.byte? start ≠ none := by
  obtain ⟨b, rest, rfl⟩ := List.exists_cons_of_ne_nil hne
  rw [← byteAbove_zero, (h 0 b rfl).1]
  exact Option.some_ne_none b

/-- Bytes of a chunk without a zero stand where it was read. -/
theorem stands_of_read (h : memory.Bytewise) {n : Nat} {chunk : Bytes}
    (hread : memory.read cursor n = .ok chunk) (hstarts : bs <+: chunk) (hzero : 0 ∉ bs) :
    Stands memory cursor bs := by
  obtain ⟨rest, rfl⟩ := hstarts
  intro i b hb
  refine ⟨h.parts cursor n _ hread i b ?_, ?_⟩
  · rw [List.getElem?_append_left (List.getElem?_eq_some_iff.1 hb).1]
    exact hb
  · rintro rfl
    exact hzero (List.mem_of_getElem? hb)

/-! ## Where a string ends -/

/-- Where nothing but a zero byte may follow, what was read is the string. -/
theorem IsString.of_end (hfirst : memory.byte? start ≠ none) (hbefore : Stands memory start before)
    (hbound : before.length ≤ maxUnits)
    (hend : ∀ b, memory.byteAbove start before.length = some b → b = 0) :
    IsString memory start (some before) :=
  ⟨hfirst, hbefore, hbound, fun _ => hend⟩

/-- At the limit, what was read is the string. -/
theorem IsString.of_limit (hbefore : Stands memory start before)
    (hlimit : before.length = maxUnits) : IsString memory start (some before) := by
  have hne : before ≠ [] := by
    rintro rfl
    cases hlimit
  exact ⟨hbefore.byte?_ne_none hne, hbefore, Nat.le_of_eq hlimit,
    fun hlt => absurd hlimit (Nat.ne_of_lt hlt)⟩

/-- Only past the start can the address space end. -/
theorem ne_nil_of_add_eq_none (h : start.add? before.length = none) : before ≠ [] := by
  rintro rfl
  rw [List.length_nil, Address.add?_zero] at h
  cases h

/-- Where a byte follows what was read, the first byte can be read. -/
theorem Stands.byte?_ne_none_of_follows (hbefore : Stands memory start before) {b : UInt8}
    (hbyte : memory.byteAbove start before.length = some b) : memory.byte? start ≠ none := by
  by_cases hne : before = []
  · rw [hne, List.length_nil, byteAbove_zero] at hbyte
    rw [hbyte]
    exact Option.some_ne_none b
  · exact hbefore.byte?_ne_none hne

/-! ## Reading -/

/-- Going on byte by byte ends where nothing but a zero byte may follow. -/
theorem exists_gives_narrowBytes_of_end (h : memory.Bytewise)
    (hbefore : Stands memory start before) (hbound : before.length ≤ maxUnits)
    (hend : ∀ b, memory.byteAbove start before.length = some b → b = 0) (room : Nat) :
    ∃ result, Gives memory (narrowBytes start room before) result
      ∧ IsString memory start result := by
  rw [narrowBytes.eq_def]
  dsimp only
  cases hcursor : start.add? before.length with
  | none =>
      have hfirst := hbefore.byte?_ne_none (ne_nil_of_add_eq_none hcursor)
      exact ⟨_, gives_done.2 rfl, .of_end hfirst hbefore hbound hend⟩
  | some cursor =>
      have hanswer := h.answers_one cursor
      have hbyte : memory.byteAbove start before.length = memory.byte? cursor :=
        byteAbove_of_add hcursor
      cases hread : memory.byte? cursor with
      | none =>
          rw [hread] at hanswer hbyte
          refine ⟨_, gives_read.2 ⟨_, hanswer, gives_done.2 rfl⟩, ?_⟩
          cases before with
          | nil => exact byteAbove_zero.symm.trans hbyte
          | cons b rest =>
              exact .of_end (hbefore.byte?_ne_none (List.cons_ne_nil b rest)) hbefore hbound hend
      | some b =>
          rw [hread] at hanswer hbyte
          obtain rfl : b = 0 := hend b hbyte
          exact ⟨_, gives_read.2 ⟨_, hanswer, gives_done.2 rfl⟩,
            .of_end (hbefore.byte?_ne_none_of_follows hbyte) hbefore hbound hend⟩

/-- Where a string does not end, a byte that is not zero follows. -/
theorem ends_or_goes_on (h : memory.Bytewise) (hbefore : Stands memory start before) :
    (∀ b, memory.byteAbove start before.length = some b → b = 0)
      ∨ ∃ b cursor, start.add? before.length = some cursor
        ∧ memory.Answers cursor 1 (some [b]) ∧ b ≠ 0 ∧ Stands memory start (before ++ [b]) := by
  by_cases hend : ∀ b, memory.byteAbove start before.length = some b → b = 0
  · exact .inl hend
  · push Not at hend
    obtain ⟨b, hbyte, hzero⟩ := hend
    obtain ⟨cursor, hcursor, hread⟩ := Option.bind_eq_some_iff.1 hbyte
    have hanswer := h.answers_one cursor
    rw [hread] at hanswer
    have hstands : Stands memory cursor [b] := by
      intro i c hc
      rw [List.getElem?_singleton] at hc
      split at hc
      · obtain rfl := Option.some.inj hc
        obtain rfl := ‹i = 0›
        exact ⟨byteAbove_zero.trans hread, hzero⟩
      · cases hc
    exact .inr ⟨b, cursor, hcursor, hanswer, hzero, hbefore.append hcursor hstands⟩

/-- A byte that is not zero is taken, if there is room for it. -/
theorem gives_narrowBytes_of_byte {b : UInt8} (hcursor : start.add? before.length = some cursor)
    (hanswer : memory.Answers cursor 1 (some [b])) (hzero : b ≠ 0) (room : Nat)
    {result : Option Bytes}
    (hgives : match room with
      | 0 => result = some before
      | room + 1 => Gives memory (narrowBytes start room (before ++ [b])) result) :
    Gives memory (narrowBytes start room before) result := by
  have hword : ¬ Word.ofBytes [b] = 0 := by
    simpa [Word.ofBytes, ← UInt8.toNat_inj] using hzero
  rw [narrowBytes.eq_def]
  dsimp only
  rw [hcursor]
  refine gives_read.2 ⟨_, hanswer, ?_⟩
  dsimp only
  rw [if_neg hword]
  cases room with
  | zero => exact gives_done.2 hgives
  | succ room => exact hgives

/-- Going on byte by byte ends with the string. -/
theorem exists_gives_narrowBytes (h : memory.Bytewise) {room : Nat}
    (hroom : before.length + room = maxUnits) (hbefore : Stands memory start before) :
    ∃ result, Gives memory (narrowBytes start room before) result
      ∧ IsString memory start result := by
  induction room generalizing before with
  | zero =>
      rcases ends_or_goes_on h hbefore with hend | ⟨b, cursor, hcursor, hanswer, hzero, -⟩
      · exact exists_gives_narrowBytes_of_end h hbefore (by omega) hend 0
      · exact ⟨_, gives_narrowBytes_of_byte hcursor hanswer hzero 0 rfl, .of_limit hbefore hroom⟩
  | succ room ih =>
      rcases ends_or_goes_on h hbefore with hend | ⟨b, cursor, hcursor, hanswer, hzero, hstands⟩
      · exact exists_gives_narrowBytes_of_end h hbefore (by omega) hend (room + 1)
      · have hroom' : (before ++ [b]).length + room = maxUnits := by
          rw [List.length_append, List.length_singleton]
          omega
        obtain ⟨result, hgives, hstring⟩ := ih hroom' hstands
        exact ⟨result, gives_narrowBytes_of_byte hcursor hanswer hzero (room + 1) hgives, hstring⟩

/-- Where there is a zero in what is read, the string ends before it. -/
theorem isString_of_zero (h : memory.Bytewise) (hbefore : Stands memory start before)
    (hcursor : start.add? before.length = some cursor) {n : Nat} {front rest : Bytes}
    (hread : memory.read cursor n = .ok (front ++ 0 :: rest)) (hfront : 0 ∉ front)
    (hbound : (before ++ front).length ≤ maxUnits) :
    IsString memory start (some (before ++ front)) := by
  have hstands := hbefore.append hcursor
    (stands_of_read h hread (List.prefix_append front _) hfront)
  have hbyte : memory.byteAbove start (before ++ front).length = some 0 := by
    rw [List.length_append, byteAbove_add hcursor]
    exact h.parts _ _ _ hread _ 0 (by simp)
  have hend : ∀ b, memory.byteAbove start (before ++ front).length = some b → b = 0 :=
    fun b hb => (Option.some.inj (hbyte.symm.trans hb)).symm
  exact .of_end (hstands.byte?_ne_none_of_follows hbyte) hstands hbound hend

/-- Going on chunk by chunk ends with the string. -/
theorem exists_gives_narrowChunks (h : memory.Bytewise) {chunks : Nat}
    (hroom : before.length + chunks * chunkSize = maxUnits)
    (hbefore : Stands memory start before) :
    ∃ result, Gives memory (narrowChunks start chunks before) result
      ∧ IsString memory start result := by
  induction chunks generalizing before with
  | zero => exact ⟨_, gives_done.2 rfl, .of_limit hbefore (by omega)⟩
  | succ chunks ih =>
      rw [narrowChunks]
      cases hcursor : start.add? before.length with
      | none =>
          have hfirst := hbefore.byte?_ne_none (ne_nil_of_add_eq_none hcursor)
          have hend : ∀ b, memory.byteAbove start before.length = some b → b = 0 := by
            rw [byteAbove_of_add_eq_none hcursor]
            exact nofun
          exact ⟨_, gives_done.2 rfl, .of_end hfirst hbefore (by omega) hend⟩
      | some cursor =>
          cases hread : memory.read cursor chunkSize with
          | error e =>
              have hanswer : memory.Answers cursor chunkSize none := by
                unfold Answers
                rw [hread]
                exact ⟨h.failures _ _ e hread, rfl⟩
              have hrest : before.length + (maxUnits - before.length) = maxUnits := by omega
              obtain ⟨result, hgives, hstring⟩ := exists_gives_narrowBytes h hrest hbefore
              exact ⟨result, gives_read.2 ⟨none, hanswer, hgives⟩, hstring⟩
          | ok chunk =>
              have hanswer : memory.Answers cursor chunkSize (some chunk) := by
                unfold Answers
                rw [hread]
              rw [Nat.succ_mul] at hroom
              by_cases hzero : 0 ∈ chunk
              · have hcontains : chunk.contains 0 = true := List.contains_iff_mem.2 hzero
                obtain ⟨front, rest, rfl, hfront⟩ := List.eq_append_cons_of_mem hzero
                have hbound : (before ++ front).length ≤ maxUnits := by
                  have hlength := h.lengths _ _ _ hread
                  rw [List.length_append, List.length_cons] at hlength
                  rw [List.length_append]
                  omega
                refine ⟨_, gives_read.2 ⟨_, hanswer, ?_⟩,
                  isString_of_zero h hbefore hcursor hread hfront hbound⟩
                dsimp only
                rw [if_pos hcontains, Text.takeWhile_ne_append_cons hfront]
                exact gives_done.2 rfl
              · have hcontains : chunk.contains 0 = false := by simpa using hzero
                have hchunk := stands_of_read h hread (List.prefix_refl chunk) hzero
                have hroom' : (before ++ chunk).length + chunks * chunkSize = maxUnits := by
                  rw [List.length_append, h.lengths _ _ chunk hread]
                  omega
                obtain ⟨result, hgives, hstring⟩ := ih hroom' (hbefore.append hcursor hchunk)
                refine ⟨result, gives_read.2 ⟨_, hanswer, ?_⟩, hstring⟩
                simpa only [hcontains, Bool.false_eq_true, if_false] using hgives

/-- Reading gives the string at an address, and nothing else. -/
structure ReadsString (memory : Memory) (start : Address) : Prop where
  exists_result : ∃ result, Gives memory (narrow start) result
  gives_iff : ∀ result, Gives memory (narrow start) result ↔ IsString memory start result

theorem readsString_of_bytewise (h : memory.Bytewise) (start : Address) :
    ReadsString memory start := by
  obtain ⟨string, hgives, hstring⟩ :=
    exists_gives_narrowChunks h (show 0 + maxUnits / chunkSize * chunkSize = maxUnits from rfl)
      stands_nil
  refine ⟨⟨string, hgives⟩, fun result => ⟨fun hresult => ?_, fun hresult => ?_⟩⟩
  · rw [hresult.unique hgives]
    exact hstring
  · rw [hresult.unique hstring]
    exact hgives

end Memory.CString

/-! ## Images -/

namespace Image

variable {image : Image} {a : Address} {n : Nat} {bs : Bytes}

theorem read_eq_ok_iff : image.memory.read a n = .ok bs ↔ image.slice? a n = some bs :=
  readBytes_eq_ok_iff

theorem isUnreadable_of_read_eq_error {e : Error}
    (h : image.memory.read a n = .error e) : e.isUnreadable = true := by
  rw [eq_unreadable_of_readBytes_eq_error (n := n) h]
  rfl

/-- In an image without overlaps, every byte is there by itself. -/
theorem IsLaidOut.bytewise (h : image.IsLaidOut) : image.memory.Bytewise := by
  constructor
  · exact fun a n e => isUnreadable_of_read_eq_error
  · intro a n bs hok
    obtain ⟨s, hs, hslice⟩ := List.exists_of_findSome?_eq_some (read_eq_ok_iff.1 hok)
    exact Section.length_of_slice? hslice
  · intro a n bs hok i b hb
    obtain ⟨s, hs, hslice⟩ := List.exists_of_findSome?_eq_some (read_eq_ok_iff.1 hok)
    obtain ⟨c, hc, hone⟩ := Section.exists_slice?_one (h.fits s hs) hslice hb
    unfold Memory.byteAbove Memory.byte?
    rw [hc, Option.bind_some, read_eq_ok_iff.2 (h.slice?_eq hs hone)]

end Image

namespace Memory.CString

/-- The string at an address is the longest run of bytes that are not zero, in every memory of bytes
and so in an image whose sections do not overlap. -/
theorem narrow_reads_longest_run :
    (∀ memory : Memory, memory.Bytewise → ∀ start, ReadsString memory start)
      ∧ ∀ image : Image, image.IsLaidOut → ∀ start, ReadsString image.memory start :=
  ⟨fun _ h start => readsString_of_bytewise h start,
    fun _ h start => readsString_of_bytewise h.bytewise start⟩

/-- Two sections side by side at the end of the address space. -/
def seamImage : Image where
  base := .null
  width := .bits64
  sections := [⟨⟨0xFFFFFFFFFFFFFFFA⟩, #[0x61, 0x62, 0x63]⟩,
    ⟨⟨0xFFFFFFFFFFFFFFFD⟩, #[0x64, 0x65, 0x66]⟩]

/-- A string goes on from one section to the next and ends with the address space. -/
theorem narrow_reads_longest_run_seam :
    seamImage.IsLaidOut ∧ seamImage.memory.Bytewise
      ∧ (∀ start, ReadsString seamImage.memory start)
      ∧ IsString seamImage.memory ⟨0xFFFFFFFFFFFFFFFB⟩ (some [0x62, 0x63, 0x64, 0x65, 0x66]) := by
  have hlaid : seamImage.IsLaidOut := by
    refine ⟨List.pairwise_pair.2 ?_, by decide⟩
    intro i _ hstop hstart _
    have hseam : (0xFFFFFFFFFFFFFFFD : Nat) ≤ i := hstart
    exact absurd (Nat.lt_of_lt_of_le hstop hseam) (Nat.lt_irrefl i)
  have hgives : Decode.Gives seamImage.memory (narrow ⟨0xFFFFFFFFFFFFFFFB⟩)
      (some [0x62, 0x63, 0x64, 0x65, 0x66]) := by
    decide +kernel
  exact ⟨hlaid, hlaid.bytewise, narrow_reads_longest_run.2 seamImage hlaid,
    ((narrow_reads_longest_run.1 _ hlaid.bytewise _).gives_iff _).1 hgives⟩

end Memory.CString

end RttiProbe
