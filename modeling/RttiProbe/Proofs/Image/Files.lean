import RttiProbe.Image.PortableExecutable
import RttiProbe.Proofs.Image.Reads
/-!
# Mapped files

A file that is accepted as a portable executable has all the fields that its image is made from.  So
the image can be told by the file alone: its base and the width of its pointers are fields of the
optional header, and a read gives those bytes of the file that a section header puts at the address.
-/

set_option autoImplicit false

namespace RttiProbe

open Memory (Address)

namespace Image.PortableExecutable

variable {file : File} {offset count : Nat}

/-! ## Fields -/

/-- What a file has is read as it is. -/
theorem field?_of_le (h : offset + count ≤ file.size) :
    field? file offset count = some (field file offset count) := by
  unfold field? field bytes?
  rw [if_pos h]
  rfl

theorem field_lt (file : File) (offset count : Nat) : field file offset count < Nat.pow 256 count := by
  unfold field bytes?
  split
  · rename_i bs hbs
    split at hbs
    · obtain rfl := Option.some.inj hbs
      refine Nat.lt_of_lt_of_eq (Memory.Word.ofBytes_lt _) ?_
      rw [Array.length_toList, Array.size_extract]
      congr 1
      omega
    · cases hbs
  · exact Nat.pow_pos (by decide)

/-! ## Accepted files -/

/-- What a format demands of a file. -/
structure Format.Accepts (format : Format) (file : File) : Prop where
  size : 64 ≤ file.size
  dos : field file 0 2 = dosSignature
  aligned : headersOffset file % 4 = 0
  near : headersOffset file ≤ 0x1000000
  fixedPart : headersOffset file + format.headerSize ≤ file.size
  headers : field file (headersOffset file) 4 = headersSignature
  headerBytes : field file (optionalOffset file + 60) 4 ≤ file.size
  imageSize : field file (optionalOffset file + 60) 4 ≤ field file (optionalOffset file + 56) 4
  optional : field file (optionalOffset file) 2 = format.signature
  directories : headersOffset file + format.headerSize
    + 8 * min (field file (headersOffset file + format.headerSize - 4) 4) 16 ≤ file.size
  count : sectionCount file ≤ 96
  table : sectionTableOffset file + 40 * sectionCount file ≤ file.size

theorem Format.ofSignature?_signature (format : Format) :
    Format.ofSignature? format.signature = some format := by
  cases format <;> rfl

theorem Format.ofSignature?_eq_some_iff {n : Nat} {format : Format} :
    Format.ofSignature? n = some format ↔ n = format.signature := by
  constructor
  · intro h
    unfold Format.ofSignature? at h
    split at h
    · obtain rfl := Option.some.inj h
      assumption
    · split at h
      · obtain rfl := Option.some.inj h
        assumption
      · cases h
  · rintro rfl
    exact format.ofSignature?_signature

/-- Whatever is found, a demand has to be met first. -/
theorem demand_eq_ok_iff {fails : Prop} [Decidable fails] {fault : ImageFault}
    {rest : Except ImageFault Verdict} {verdict : Verdict} :
    (if fails then .error fault else rest) = .ok verdict ↔ ¬fails ∧ rest = .ok verdict := by
  split
  · rename_i hfails
    exact iff_of_false nofun fun h => h.1 hfails
  · rename_i hmet
    exact (and_iff_right hmet).symm

/-- A check accepts the files that meet all demands. -/
theorem Format.check_eq_accepted_iff {format : Format} :
    format.check file = .ok .accepted ↔ format.Accepts file := by
  have hformat {rest : Except ImageFault Verdict} :
      (if field file (optionalOffset file) 2 ≠ format.signature then .ok .otherFormat else rest)
          = .ok .accepted
        ↔ field file (optionalOffset file) 2 = format.signature ∧ rest = .ok .accepted := by
    split
    · rename_i hother
      exact iff_of_false nofun fun h => hother h.1
    · rename_i hown
      exact (and_iff_right (not_not.1 hown)).symm
  unfold Format.check
  simp only [demand_eq_ok_iff, hformat, and_true]
  constructor
  · rintro ⟨hsize, hdos, haligned, hnear, hfixed, hheaders, -, hbytes, himage, hoptional,
      hdirectories, hcount, htable⟩
    constructor <;> omega
  · rintro ⟨hsize, hdos, haligned, hnear, hfixed, hheaders, hbytes, himage, hoptional,
      hdirectories, hcount, htable⟩
    have hknown : ¬(Format.ofSignature? (field file (optionalOffset file) 2)).isNone = true := by
      rw [hoptional, format.ofSignature?_signature]
      exact Bool.false_ne_true
    refine ⟨?_, ?_, ?_, ?_, ?_, ?_, hknown, ?_, ?_, hoptional, ?_, ?_, ?_⟩ <;> omega

/-- A file that is found to be of the other format has a known signature, but not the own one. -/
theorem Format.optional_of_check_eq_otherFormat {format : Format}
    (h : format.check file = .ok .otherFormat) :
    field file (optionalOffset file) 2 ≠ format.signature
      ∧ ∃ other, Format.ofSignature? (field file (optionalOffset file) 2) = some other := by
  unfold Format.check at h
  simp only [demand_eq_ok_iff] at h
  obtain ⟨-, -, -, -, -, -, hknown, -, -, hrest⟩ := h
  refine ⟨fun hown => ?_, Option.ne_none_iff_exists'.1 (by simpa using hknown)⟩
  rw [if_neg (not_not.2 hown)] at hrest
  simp only [demand_eq_ok_iff] at hrest
  cases hrest.2.2.2

/-- An image is made of an accepted file, in the format that the file has. -/
theorem exists_accepts_of_ofFile {image : Image} (h : ofFile file = .ok image) :
    ∃ format : Format, format.Accepts file ∧ image = format.load file := by
  unfold ofFile at h
  split at h
  · cases h
  · rename_i hcheck
    exact ⟨.pe32Plus, Format.check_eq_accepted_iff.1 hcheck, (Except.ok.inj h).symm⟩
  · rename_i hwide
    split at h
    · cases h
    · rename_i verdict hcheck
      obtain rfl := Except.ok.inj h
      cases verdict with
      | accepted => exact ⟨.pe32, Format.check_eq_accepted_iff.1 hcheck, rfl⟩
      | otherFormat =>
          -- a file cannot be of neither format and yet have a known signature
          obtain ⟨hnarrow, -⟩ := Format.optional_of_check_eq_otherFormat hcheck
          obtain ⟨hwide, format, hknown⟩ := Format.optional_of_check_eq_otherFormat hwide
          rw [Format.ofSignature?_eq_some_iff] at hknown
          cases format
          · exact absurd hknown hnarrow
          · exact absurd hknown hwide

/-! ## What a file tells -/

/-- Where the headers of a file start, if it has that field. -/
def headersOffset? (file : File) : Option Nat := field? file 0x3C 4

/-- The signature of the optional header. -/
def signature? (file : File) : Option Nat := do field? file ((← headersOffset? file) + 24) 2

/-- The base at which a module asks to be loaded, a field of a place and width of its own in each
format. -/
def imageBase? (file : File) : Option Nat := do
  let headers ← headersOffset? file
  match ← Format.ofSignature? (← signature? file) with
  | .pe32 => field? file (headers + 24 + 28) 4
  | .pe32Plus => field? file (headers + 24 + 24) 8

/-- What the header of a section says about its bytes and its place. -/
structure SectionHeader where
  /-- where the section is put, counted from the base -/
  virtualAddress : Nat
  /-- the number of bytes that the file has of it -/
  rawSize : Nat
  /-- where these bytes start in the file -/
  rawStart : Nat
  deriving DecidableEq, Repr, Inhabited

/-- Where the bytes of a section end in the file, in 32 bits. -/
def SectionHeader.rawEnd (header : SectionHeader) : Nat :=
  (header.rawStart + header.rawSize) % UInt32.size

/-- The section header of a given number, if the file has that many. -/
def sectionHeader? (file : File) (i : Nat) : Option SectionHeader := do
  let headers ← headersOffset? file
  let count ← field? file (headers + 6) 2
  let start := headers + 24 + (← field? file (headers + 20) 2) + 40 * i
  if i < count then
    return ⟨← field? file (start + 12) 4, ← field? file (start + 16) 4,
      ← field? file (start + 20) 4⟩
  else none

/-- A section header puts bytes of a file at an address, `n` of them. -/
structure SectionHeader.Provides (header : SectionHeader) (file : File) (base : Nat)
    (a : Address) (n : Nat) (bs : Bytes) : Prop where
  /-- the section has a place in the file -/
  backed : header.rawStart ≠ 0
  ordered : header.rawStart ≤ header.rawEnd
  inFile : header.rawEnd ≤ file.size
  /-- the section has a place in the address space -/
  placed : base + header.virtualAddress < UInt64.size
  above : base + header.virtualAddress ≤ a.toNat
  within : a.toNat - (base + header.virtualAddress) + n ≤ header.rawEnd - header.rawStart
  bytes : (file.toList.drop (header.rawStart + (a.toNat - (base + header.virtualAddress)))).take n
    = bs

/-! ## Fields of accepted files -/

namespace Format.Accepts

variable {format : Format}

theorem headersOffset?_eq (h : format.Accepts file) :
    headersOffset? file = some (headersOffset file) := field?_of_le h.size

/-- The headers of an accepted file are there up to the end of the narrower optional header. -/
theorem headers_le (h : format.Accepts file) : headersOffset file + 120 ≤ file.size := by
  have hfixed := h.fixedPart
  cases format
  · exact hfixed
  · exact Nat.le_trans (Nat.add_le_add_left (by decide) _) hfixed

theorem signature?_eq (h : format.Accepts file) : signature? file = some format.signature := by
  have hend := h.headers_le
  have hsignature : field? file (headersOffset file + 24) 2
      = some (field file (optionalOffset file) 2) := field?_of_le (by omega)
  unfold signature?
  rw [h.headersOffset?_eq, Option.bind_eq_bind, Option.bind_some, hsignature, h.optional]

theorem imageBase?_eq (h : format.Accepts file) :
    imageBase? file = some (format.imageBase file) := by
  have hend := h.headers_le
  unfold imageBase?
  rw [h.headersOffset?_eq, h.signature?_eq]
  simp only [Option.bind_eq_bind, Option.bind_some, format.ofSignature?_signature]
  cases format with
  | pe32 => exact field?_of_le (by omega)
  | pe32Plus => exact field?_of_le (by omega)

end Format.Accepts

/-- The section header at an offset of a file. -/
def sectionHeaderAt (file : File) (start : Nat) : SectionHeader where
  virtualAddress := field file (start + 12) 4
  rawSize := field file (start + 16) 4
  rawStart := field file (start + 20) 4

/-- An accepted file has as many section headers as it says. -/
theorem Format.Accepts.sectionHeader?_eq_some_iff {format : Format} (h : format.Accepts file)
    {i : Nat} {header : SectionHeader} : sectionHeader? file i = some header
      ↔ i < sectionCount file ∧ sectionHeaderAt file (sectionTableOffset file + 40 * i) = header := by
  have hend := h.headers_le
  have hcount : field? file (headersOffset file + 6) 2 = some (sectionCount file) :=
    field?_of_le (by omega)
  have hsize : field? file (headersOffset file + 20) 2
      = some (field file (headersOffset file + 20) 2) := field?_of_le (by omega)
  have hstart : headersOffset file + 24 + field file (headersOffset file + 20) 2
      = sectionTableOffset file := rfl
  unfold sectionHeader?
  simp only [h.headersOffset?_eq, Option.bind_eq_bind, Option.bind_some, hcount, hsize, hstart]
  by_cases hi : i < sectionCount file
  · have htable := h.table
    have hfield (place : Nat) (hplace : place + 4 ≤ 40) :
        field? file (sectionTableOffset file + 40 * i + place) 4
          = some (field file (sectionTableOffset file + 40 * i + place) 4) :=
      field?_of_le (by omega)
    rw [if_pos hi, hfield 12 (by decide), hfield 16 (by decide), hfield 20 (by decide)]
    exact Option.some_inj.trans (and_iff_right hi).symm
  · rw [if_neg hi]
    exact iff_of_false nofun fun hmem => hi hmem.1

/-! ## Sections of accepted files -/

theorem sectionAt?_eq_some_iff {base start : Nat} {s : Section} :
    sectionAt? file base start = some s
      ↔ (sectionHeaderAt file start).rawStart ≠ 0
        ∧ (sectionHeaderAt file start).rawStart ≤ (sectionHeaderAt file start).rawEnd
        ∧ (sectionHeaderAt file start).rawEnd ≤ file.size
        ∧ s.start.toNat = base + (sectionHeaderAt file start).virtualAddress
        ∧ s.contents = file.extract (sectionHeaderAt file start).rawStart
            (sectionHeaderAt file start).rawEnd := by
  have hkept : sectionAt? file base start
      = if (sectionHeaderAt file start).rawStart = 0
          ∨ (sectionHeaderAt file start).rawEnd < (sectionHeaderAt file start).rawStart
          ∨ file.size < (sectionHeaderAt file start).rawEnd then none
        else (Address.ofNat? (base + (sectionHeaderAt file start).virtualAddress)).map fun a =>
          ⟨a, file.extract (sectionHeaderAt file start).rawStart
            (sectionHeaderAt file start).rawEnd⟩ := rfl
  rw [hkept]
  split
  · rename_i hleft
    exact iff_of_false nofun fun ⟨hbacked, hordered, hinFile, _⟩ => by omega
  · rename_i hleft
    obtain ⟨hbacked, hordered, hinFile⟩ := by simpa only [not_or, Nat.not_lt] using hleft
    rw [Option.map_eq_some_iff]
    constructor
    · rintro ⟨a, ha, rfl⟩
      exact ⟨hbacked, hordered, hinFile, Address.ofNat?_eq_some_iff.1 ha, rfl⟩
    · rintro ⟨-, -, -, hstart, hcontents⟩
      exact ⟨s.start, Address.ofNat?_eq_some_iff.2 hstart, by rw [← hcontents]⟩

/-- The bytes that the section of a header has are those that the header puts there. -/
theorem exists_slice?_iff_provides {base start : Nat} {a : Address} {n : Nat} {bs : Bytes}
    (hn : 0 < n) :
    (∃ s, sectionAt? file base start = some s ∧ s.slice? a n = some bs)
      ↔ (sectionHeaderAt file start).Provides file base a n bs := by
  have hbytes {first last offset : Nat} (hend : offset + n ≤ last - first) :
      ((file.extract first last).toList.drop offset).take n
        = (file.toList.drop (first + offset)).take n := by
    rw [Array.toList_extract, List.extract_eq_take_drop, List.drop_take, List.drop_drop,
      List.take_take, Nat.min_eq_left (by omega)]
  constructor
  · rintro ⟨s, hs, hslice⟩
    obtain ⟨hbacked, hordered, hinFile, hstart, hcontents⟩ := sectionAt?_eq_some_iff.1 hs
    obtain ⟨habove, -, hend, hslice⟩ := Section.slice?_eq_some_iff.1 hslice
    have hlt := s.start.toNat_lt
    unfold Section.stop at hend
    rw [hcontents, Array.size_extract, Nat.min_eq_left hinFile, hstart] at hend
    rw [hstart] at habove
    rw [hcontents, hstart, hbytes (by omega)] at hslice
    exact ⟨hbacked, hordered, hinFile, hstart ▸ hlt, habove, by omega, hslice⟩
  · rintro ⟨hbacked, hordered, hinFile, hplaced, habove, hwithin, hslice⟩
    obtain ⟨place, hplace⟩ :
        ∃ c, Address.ofNat? (base + (sectionHeaderAt file start).virtualAddress) = some c :=
      ⟨_, if_pos hplaced⟩
    have hstart := Address.ofNat?_eq_some_iff.1 hplace
    refine ⟨⟨place, file.extract (sectionHeaderAt file start).rawStart
        (sectionHeaderAt file start).rawEnd⟩,
      sectionAt?_eq_some_iff.2 ⟨hbacked, hordered, hinFile, hstart, rfl⟩,
      Section.slice?_eq_some_iff.2 ?_⟩
    unfold Section.stop
    dsimp only
    rw [Array.size_extract, Nat.min_eq_left hinFile, hstart, hbytes hwithin]
    exact ⟨habove, by omega, by omega, hslice⟩

/-! ## Images of files -/

/-- The image that a file is mapped to, told by the fields of the file. -/
structure IsImageOf (image : Image) (file : File) : Prop where
  /-- pointers are wide exactly in the format with the wider header -/
  width_iff : image.width = .bits64 ↔ signature? file = some 0x20B
  base_eq : imageBase? file = some image.base.toNat
  /-- a read gives the bytes that a section header puts at the address -/
  read_iff : ∀ a n bs, 0 < n → (image.readBytes a n = .ok bs ↔ ∃ i header,
    sectionHeader? file i = some header ∧ header.Provides file image.base.toNat a n bs)

theorem toNat_base_load {format : Format} (file : File) :
    (format.load file).base.toNat = format.imageBase file := by
  have hlt : format.imageBase file < UInt64.size := by
    cases format with
    | pe32 => exact Nat.lt_trans (field_lt file _ 4) (by decide)
    | pe32Plus => exact field_lt file _ 8
  exact UInt64.toNat_ofNat_of_lt' hlt

/-- An image that a file is mapped to is read as the file, if its sections do not overlap. -/
theorem reads_of_file (file : File) (image : Image) (h : ofFile file = .ok image)
    (hdisjoint : image.sections.Pairwise Section.Disjoint) : IsImageOf image file := by
  obtain ⟨format, haccepts, rfl⟩ := exists_accepts_of_ofFile h
  refine ⟨?_, ?_, fun a n bs hn => ?_⟩
  · rw [haccepts.signature?_eq]
    cases format with
    | pe32 => exact iff_of_false nofun (by decide)
    | pe32Plus => exact iff_of_true rfl rfl
  · rw [haccepts.imageBase?_eq, toNat_base_load]
  · rw [readBytes_eq_ok_iff, slice?_eq_some_iff hdisjoint, toNat_base_load]
    simp only [haccepts.sectionHeader?_eq_some_iff]
    constructor
    · rintro ⟨s, hs, hslice⟩
      obtain ⟨i, hi, hsection⟩ := List.mem_filterMap.1 hs
      exact ⟨i, _, ⟨List.mem_range.1 hi, rfl⟩,
        (exists_slice?_iff_provides hn).1 ⟨s, hsection, hslice⟩⟩
    · rintro ⟨i, _, ⟨hi, rfl⟩, hprovides⟩
      obtain ⟨s, hsection, hslice⟩ := (exists_slice?_iff_provides hn).2 hprovides
      exact ⟨s, List.mem_filterMap.2 ⟨i, List.mem_range.2 hi, hsection⟩, hslice⟩

/-- A file in the wider format, as numbers of so many bytes each.  Two of its sections share bytes of
the file and lie side by side in memory; the third has no end in 32 bits and is left out. -/
def sampleFile : File :=
  [(60, dosSignature), (4, 64),
    (4, headersSignature), (2, 0x8664), (14, 3), (4, 112),
    (24, 0x20B), (8, 0x140000000), (24, 0), (4, 0x3000), (48, 0x140), (4, 0),
    (12, 0), (4, 0x1000), (4, 4), (20, 0x140),
    (12, 0), (4, 0x1004), (4, 4), (20, 0x142),
    (12, 0), (4, 0x1002), (4, 0xFFFFFFFF), (20, 0x144),
    (8, 0x6867666564636261)].flatMap (fun entry => Memory.Word.toBytes entry.1 entry.2) |>.toArray

/-- What the file is mapped to. -/
def sampleImage : Image where
  base := ⟨0x140000000⟩
  width := .bits64
  sections := [⟨⟨0x140001000⟩, #[0x61, 0x62, 0x63, 0x64]⟩,
    ⟨⟨0x140001004⟩, #[0x63, 0x64, 0x65, 0x66]⟩]

theorem ofFile_sampleFile : ofFile sampleFile = .ok sampleImage := by decide +kernel

theorem reads_of_file_sample : ofFile sampleFile = .ok sampleImage
    ∧ sampleImage.sections.Pairwise Section.Disjoint ∧ IsImageOf sampleImage sampleFile
    ∧ sampleImage.readBytes ⟨0x140001005⟩ 3 = .ok [0x64, 0x65, 0x66] := by
  have hdisjoint : sampleImage.sections.Pairwise Section.Disjoint := by decide
  exact ⟨ofFile_sampleFile, hdisjoint, reads_of_file _ _ ofFile_sampleFile hdisjoint,
    by decide +kernel⟩

end Image.PortableExecutable

end RttiProbe
