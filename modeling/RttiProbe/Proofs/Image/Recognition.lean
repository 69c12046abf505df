import RttiProbe.Proofs.Image.Files
/-!
# Recognition of files

The format of a file can be recognised by its start alone.  What is found there agrees with what the
whole file is mapped to, if the file is accepted at all, and more of the file never changes it: each
field that was looked at stays where it is.
-/

set_option autoImplicit false

namespace RttiProbe.Image.PortableExecutable

variable {start rest : File} {offset count n : Nat}

/-! ## Fields of a start -/

/-- What a start of a file has is read from it as from the whole. -/
theorem field?_append_of_le (h : offset + count ≤ start.size) (rest : File) :
    field? (start ++ rest) offset count = field? start offset count := by
  have hwhole : offset + count ≤ (start ++ rest).size := by
    rw [Array.size_append]
    omega
  have hextract : (start ++ rest).extract offset (offset + count)
      = start.extract offset (offset + count) := by
    rw [Array.extract_append, Nat.sub_eq_zero_of_le h]
    simp
  unfold field? bytes?
  rw [if_pos h, if_pos hwhole, hextract]

theorem le_of_field?_eq_some (h : field? start offset count = some n) :
    offset + count ≤ start.size := by
  by_contra hgt
  unfold field? bytes? at h
  rw [if_neg hgt] at h
  cases h

/-- A field that was read stays as it is when more of the file is read. -/
theorem field?_append (h : field? start offset count = some n) (rest : File) :
    field? (start ++ rest) offset count = some n :=
  (field?_append_of_le (le_of_field?_eq_some h) rest).trans h

/-! ## What is looked at -/

/-- The start of a file shows a format: the two signatures that every module has, and the signature
of the optional header of that format. -/
structure Shows (start : File) (format : Format) (headers : Nat) : Prop where
  dos : field? start 0 2 = some dosSignature
  place : headersOffset? start = some headers
  signature : field? start headers 4 = some headersSignature
  optional : field? start (headers + 24) 2 = some format.signature

theorem guard_bind_eq_some_iff {p : Prop} [Decidable p] {next : Option Bool} {b : Bool} :
    ((guard p : Option Unit) >>= fun _ => next) = some b ↔ p ∧ next = some b := by
  by_cases h : p
  · simp [guard, h]
  · simp [guard, h]

/-- The width of a module is told exactly where a format is shown. -/
theorem is64Bit?_eq_some_iff {b : Bool} : is64Bit? start = some b
    ↔ ∃ format headers, Shows start format headers ∧ decide (format = .pe32Plus) = b := by
  constructor
  · intro h
    obtain ⟨_, hdos, h⟩ := Option.bind_eq_some_iff.1 h
    obtain ⟨hdosValue, h⟩ := guard_bind_eq_some_iff.1 h
    obtain ⟨headers, hplace, h⟩ := Option.bind_eq_some_iff.1 h
    obtain ⟨_, hsignature, h⟩ := Option.bind_eq_some_iff.1 h
    obtain ⟨hsignatureValue, h⟩ := guard_bind_eq_some_iff.1 h
    obtain ⟨_, hoptional, h⟩ := Option.bind_eq_some_iff.1 h
    obtain ⟨format, hformat, h⟩ := Option.bind_eq_some_iff.1 h
    rw [hdosValue] at hdos
    rw [hsignatureValue] at hsignature
    rw [Format.ofSignature?_eq_some_iff.1 hformat] at hoptional
    exact ⟨format, headers, ⟨hdos, hplace, hsignature, hoptional⟩, Option.some.inj h⟩
  · rintro ⟨format, headers, ⟨hdos, hplace, hsignature, hoptional⟩, rfl⟩
    unfold headersOffset? at hplace
    refine Option.bind_eq_some_iff.2 ⟨_, hdos, guard_bind_eq_some_iff.2 ⟨rfl, ?_⟩⟩
    refine Option.bind_eq_some_iff.2 ⟨_, hplace, Option.bind_eq_some_iff.2 ⟨_, hsignature, ?_⟩⟩
    refine guard_bind_eq_some_iff.2 ⟨rfl, Option.bind_eq_some_iff.2 ⟨_, hoptional, ?_⟩⟩
    exact Option.bind_eq_some_iff.2 ⟨format, format.ofSignature?_signature, rfl⟩

/-- A format that is shown stays so when more of the file is read. -/
theorem Shows.append {format : Format} {headers : Nat} (h : Shows start format headers)
    (rest : File) : Shows (start ++ rest) format headers where
  dos := field?_append h.dos rest
  place := field?_append h.place rest
  signature := field?_append h.signature rest
  optional := field?_append h.optional rest

/-- An accepted file shows its format in any start that goes up to the signature of the optional
header. -/
theorem Format.Accepts.shows {format : Format} (h : format.Accepts (start ++ rest))
    (hsize : 64 ≤ start.size) (hend : headersOffset (start ++ rest) + 26 ≤ start.size) :
    Shows start format (headersOffset (start ++ rest)) := by
  have hheaders := h.headers_le
  have hkept (offset count : Nat) (hle : offset + count ≤ start.size)
      (hwhole : offset + count ≤ (start ++ rest).size) :
      field? start offset count = some (field (start ++ rest) offset count) := by
    rw [← field?_append_of_le hle rest]
    exact field?_of_le hwhole
  have hlong := h.size
  refine ⟨?_, hkept 0x3C 4 (by omega) (by omega), ?_, ?_⟩
  · rw [hkept 0 2 (by omega) (by omega), h.dos]
  · rw [hkept _ 4 (by omega) (by omega), h.headers]
  · rw [hkept _ 2 (by omega) (by omega)]
    exact congrArg some h.optional

/-- What is recognised in a start of a file is what the file is mapped to, and what more of the file
shows as well. -/
theorem recognition_agrees :
    (∀ (start rest : File) (image : Image) (headers : Nat), ofFile (start ++ rest) = .ok image →
        headersOffset? (start ++ rest) = some headers → 64 ≤ start.size →
        headers + 26 ≤ start.size → is64Bit? start = some (decide (image.width = .bits64)))
      ∧ ∀ (start rest : File) (b : Bool), is64Bit? start = some b →
        is64Bit? (start ++ rest) = some b := by
  constructor
  · intro start rest image headers himage hplace hsize hend
    obtain ⟨format, haccepts, rfl⟩ := exists_accepts_of_ofFile himage
    obtain rfl := Option.some.inj (haccepts.headersOffset?_eq.symm.trans hplace)
    refine is64Bit?_eq_some_iff.2 ⟨format, _, haccepts.shows hsize hend, ?_⟩
    cases format with
    | pe32 => rfl
    | pe32Plus => rfl
  · intro start rest b h
    obtain ⟨format, headers, hshows, hb⟩ := is64Bit?_eq_some_iff.1 h
    exact is64Bit?_eq_some_iff.2 ⟨format, headers, hshows.append rest, hb⟩

/-- The first 90 bytes of the file, up to the signature of its optional header. -/
theorem recognition_agrees_sample :
    (sampleFile.extract 0 90 ++ sampleFile.extract 90 sampleFile.size = sampleFile
      ∧ ofFile sampleFile = .ok sampleImage ∧ headersOffset? sampleFile = some 64
      ∧ (sampleFile.extract 0 90).size = 90
      ∧ is64Bit? (sampleFile.extract 0 90) = some (decide (sampleImage.width = .bits64)))
    ∧ is64Bit? (sampleFile.extract 0 90 ++ #[0x61]) = some true := by
  have hwhole : sampleFile.extract 0 90 ++ sampleFile.extract 90 sampleFile.size = sampleFile := by
    rw [Array.extract_append_extract, Nat.zero_min]
    exact Array.extract_eq_self_of_le (Nat.le_max_right _ _)
  have hfile := ofFile_sampleFile
  have hplace : headersOffset? sampleFile = some 64 := by decide +kernel
  have hsize : (sampleFile.extract 0 90).size = 90 := by decide +kernel
  have hstart : is64Bit? (sampleFile.extract 0 90) = some (decide (sampleImage.width = .bits64)) :=
    recognition_agrees.1 _ (sampleFile.extract 90 sampleFile.size) sampleImage 64
      (by rw [hwhole]; exact hfile) (by rw [hwhole]; exact hplace) (by omega) (by omega)
  exact ⟨⟨hwhole, hfile, hplace, hsize, hstart⟩, recognition_agrees.2 _ #[0x61] true hstart⟩

end RttiProbe.Image.PortableExecutable
