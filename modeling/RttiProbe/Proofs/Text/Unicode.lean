import RttiProbe.Text.Utf16
/-!
# Text in units and back

Decoding undoes the encoding of text as UTF-16: characters of the first plane are one unit each,
which is no surrogate, and all others are a pair of surrogates, the high one first.  The bytes of
UTF-8 are those that strings themselves consist of.
-/

set_option autoImplicit false

namespace RttiProbe.Text

namespace Utf16

theorem isHighSurrogate_iff {u : UInt16} :
    isHighSurrogate u = true ↔ 0xD800 ≤ u.toNat ∧ u.toNat ≤ 0xDBFF := by
  simp [isHighSurrogate, UInt16.le_iff_toNat_le]

theorem isLowSurrogate_iff {u : UInt16} :
    isLowSurrogate u = true ↔ 0xDC00 ≤ u.toNat ∧ u.toNat ≤ 0xDFFF := by
  simp [isLowSurrogate, UInt16.le_iff_toNat_le]

/-- A character is one unit, with its own number and no surrogate, or a pair of surrogates. -/
theorem encodeChar_cases (c : Char) :
    (∃ u, encodeChar c = [u] ∧ u.toNat = c.toNat
        ∧ isHighSurrogate u = false ∧ isLowSurrogate u = false)
      ∨ ∃ u v, encodeChar c = [u, v] ∧ isHighSurrogate u = true ∧ isLowSurrogate v = true
        ∧ pairChar u v = c := by
  have hvalid : c.toNat < 0xD800 ∨ 0xDFFF < c.toNat ∧ c.toNat < 0x110000 := c.valid
  unfold encodeChar
  dsimp only
  split
  · rename_i hplane
    have hunit : (UInt16.ofNat c.toNat).toNat = c.toNat := UInt16.toNat_ofNat_of_lt' hplane
    refine .inl ⟨_, rfl, hunit, ?_, ?_⟩
    · rw [← Bool.not_eq_true, isHighSurrogate_iff, hunit]
      omega
    · rw [← Bool.not_eq_true, isLowSurrogate_iff, hunit]
      omega
  · generalize hq : (c.toNat - 0x10000) / 0x400 = q
    generalize hr : (c.toNat - 0x10000) % 0x400 = r
    have hfirst : (UInt16.ofNat (0xD800 + q)).toNat = 0xD800 + q :=
      UInt16.toNat_ofNat_of_lt' (show 0xD800 + q < 0x10000 by omega)
    have hsecond : (UInt16.ofNat (0xDC00 + r)).toNat = 0xDC00 + r :=
      UInt16.toNat_ofNat_of_lt' (show 0xDC00 + r < 0x10000 by omega)
    refine .inr ⟨_, _, rfl, ?_, ?_, ?_⟩
    · rw [isHighSurrogate_iff, hfirst]
      omega
    · rw [isLowSurrogate_iff, hsecond]
      omega
    · have hsum : 0x10000 + (0xD800 + q - 0xD800) * 0x400 + (0xDC00 + r - 0xDC00) = c.toNat := by
        omega
      rw [pairChar, hfirst, hsecond, hsum, Char.ofNat_toNat]

/-! ## Decoding -/

theorem decodeLossy_cons {u : UInt16} (hhigh : isHighSurrogate u = false)
    (hlow : isLowSurrogate u = false) (rest : List UInt16) :
    decodeLossy (u :: rest) = Char.ofNat u.toNat :: decodeLossy rest := by
  cases rest with
  | nil => simp [decodeLossy, hhigh, hlow]
  | cons v rest => simp [decodeLossy, hhigh, hlow]

theorem decodeLossy_pair {u v : UInt16} (hhigh : isHighSurrogate u = true)
    (hlow : isLowSurrogate v = true) (rest : List UInt16) :
    decodeLossy (u :: v :: rest) = pairChar u v :: decodeLossy rest := by
  simp [decodeLossy, hhigh, hlow]

/-- The units of a character in front of others are decoded as that character. -/
theorem decodeLossy_encodeChar_append (c : Char) (rest : List UInt16) :
    decodeLossy (encodeChar c ++ rest) = c :: decodeLossy rest := by
  rcases encodeChar_cases c with
    ⟨u, hunits, hnumber, hhigh, hlow⟩ | ⟨u, v, hunits, hhigh, hlow, hpair⟩
  · rw [hunits, List.singleton_append, decodeLossy_cons hhigh hlow, hnumber, Char.ofNat_toNat]
  · rw [hunits, List.cons_append, List.singleton_append, decodeLossy_pair hhigh hlow, hpair]

/-- Decoding undoes encoding. -/
theorem decodeLossy_encode (s : Text) : decodeLossy (encode s) = s := by
  induction s with
  | nil => rfl
  | cons c rest ih =>
      have hencode : encode (c :: rest) = encodeChar c ++ encode rest := List.flatMap_cons
      rw [hencode, decodeLossy_encodeChar_append, ih]

/-! ## The null unit -/

/-- Of all characters the null character alone has a null unit. -/
theorem eq_null_of_zero_mem_encodeChar {c : Char} (h : 0 ∈ encodeChar c) : c = '\x00' := by
  rcases encodeChar_cases c with ⟨u, hunits, hnumber, -, -⟩ | ⟨u, v, hunits, hhigh, hlow, -⟩
  · rw [hunits, List.mem_singleton] at h
    rw [← h] at hnumber
    exact Char.toNat_inj.1 hnumber.symm
  · simp only [hunits, List.mem_cons, List.not_mem_nil, or_false] at h
    rcases h with rfl | rfl
    · cases hhigh
    · cases hlow

theorem zero_not_mem_encode {s : Text} (h : '\x00' ∉ s) : 0 ∉ encode s := by
  intro hzero
  obtain ⟨c, hc, hunit⟩ := List.mem_flatMap.1 hzero
  exact h (eq_null_of_zero_mem_encodeChar hunit ▸ hc)

theorem encode_eq_nil_iff {s : Text} : encode s = [] ↔ s = [] := by
  constructor
  · intro h
    have hdecode := decodeLossy_encode s
    rw [h] at hdecode
    exact hdecode.symm
  · rintro rfl
    rfl

end Utf16

/-- The bytes of a text are those that its string consists of. -/
theorem Utf8.encode_toList (s : String) : encode s.toList = s.toUTF8.data.toList := by
  have hbytes : s.toUTF8 = s.toList.utf8Encode := by
    rw [String.toUTF8, ← String.toByteArray_ofList, String.ofList_toList]
  rw [hbytes, List.utf8Encode, List.toList_data_toByteArray]
  rfl

end RttiProbe.Text
