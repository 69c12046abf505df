import Mathlib.Data.List.Forall2
import RttiProbe.Text.Numeral
/-!
# Numbers read and written

Reading digits gives the number that they stand for, as long as it is below the bound; leading zeros
make no difference.  Writing a number gives digits that stand for it, so a written number is read
back, in either case of its letters.

`Spells` says which texts stand for which numbers, by the characters that digits are written with
and with no mention of reading.  Reading accepts what it should (`read_eq_ok_iff`): exactly the
spellings of numbers below the bound.
-/

set_option autoImplicit false

namespace RttiProbe.Text.Numeral

/-! ## Digits -/

theorem lt_of_mem_digits {radix : Nat} (h : 2 ≤ radix) (n : Nat) :
    ∀ d ∈ digits radix n, d < radix := by
  fun_induction digits radix n with
  | case1 n hsmall =>
      intro d hd
      rw [List.mem_singleton.1 hd]
      omega
  | case2 n hlarge ih =>
      intro d hd
      rcases List.mem_append.1 hd with hd | hd
      · exact ih d hd
      · rw [List.mem_singleton.1 hd]
        exact Nat.mod_lt n (by omega)

theorem value_append (radix : Nat) (ds es : List Nat) :
    value radix (ds ++ es) = es.foldl (fun n d => n * radix + d) (value radix ds) :=
  List.foldl_append

/-- The digits of a number stand for it. -/
theorem value_digits (radix n : Nat) : value radix (digits radix n) = n := by
  fun_induction digits radix n with
  | case1 n => simp [value]
  | case2 n hlarge ih =>
      rw [value_append, ih]
      exact Nat.div_add_mod' n radix

/-- Leading zeros add nothing. -/
theorem value_replicate_zero_append (radix count : Nat) (ds : List Nat) :
    value radix (List.replicate count 0 ++ ds) = value radix ds := by
  have hzeros : value radix (List.replicate count 0) = 0 := by
    induction count with
    | zero => rfl
    | succ count ih =>
        rw [List.replicate_succ', value_append, ih]
        exact Nat.zero_mul radix
  rw [value_append, hzeros]
  rfl

theorem digits_ne_nil (radix n : Nat) : digits radix n ≠ [] := by
  rw [digits]
  split <;> simp

/-! ## Reading -/

theorem le_foldl_value {radix : Nat} (h : 1 ≤ radix) (ds : List Nat) (n : Nat) :
    n ≤ ds.foldl (fun n d => n * radix + d) n := by
  induction ds generalizing n with
  | nil => exact Nat.le_refl n
  | cons d rest ih =>
      have hstep : n ≤ n * radix + d := Nat.le_add_right_of_le (Nat.le_mul_of_pos_right n h)
      exact Nat.le_trans hstep (ih (n * radix + d))

/-- Digits after a value already read are read as the number that all of them stand for. -/
theorem readDigits_eq {radix bound : Nat} (hradix : 1 ≤ radix) {s : Text} {ds : List Nat}
    (hs : s.map (digitValue radix) = ds.map some) {n : Nat} (hn : n < bound) :
    readDigits radix bound n s
      = if ds.foldl (fun n d => n * radix + d) n < bound then
          .ok (ds.foldl (fun n d => n * radix + d) n)
        else .error .tooLarge := by
  induction s generalizing ds n with
  | nil =>
      obtain rfl : ds = [] := List.map_eq_nil_iff.1 hs.symm
      exact (if_pos hn).symm
  | cons c rest ih =>
      cases ds with
      | nil => cases hs
      | cons d ds =>
          obtain ⟨hc, hrest⟩ := List.cons.inj hs
          rw [readDigits, hc, List.foldl_cons]
          dsimp only
          split
          · rename_i hlt
            exact ih hrest hlt
          · rename_i hlarge
            have hle := le_foldl_value hradix ds (n * radix + d)
            exact (if_neg (by omega)).symm

/-- A text of digits is read as the number that they stand for. -/
theorem read_eq {radix bound : Nat} (hradix : 1 ≤ radix) (hbound : 0 < bound) {s : Text}
    {ds : List Nat} (hne : s ≠ []) (hs : s.map (digitValue radix) = ds.map some) :
    read radix bound s
      = if value radix ds < bound then .ok (value radix ds) else .error .tooLarge := by
  have hread : read radix bound s = readDigits radix bound 0 s := by
    unfold read
    split
    · exact absurd rfl hne
    · -- a sign is no digit
      cases ds with
      | nil => cases hs
      | cons d ds => cases (List.cons.inj hs).1
    · rfl
  rw [hread]
  exact readDigits_eq hradix hs hbound

/-! ## Spellings -/

/-- A character that stands for a digit: one of `0` to `9`, and from ten on a letter of either
case. -/
def IsDigit (radix : Nat) (c : Char) (d : Nat) : Prop :=
  d < radix ∧ (c = digitChar d ∨ c = (digitChar d).toLower)

/-- One or more digits, and the number that they stand for. -/
def IsNumeral (radix : Nat) (s : Text) (n : Nat) : Prop :=
  s ≠ [] ∧ ∃ ds, List.Forall₂ (IsDigit radix) s ds ∧ value radix ds = n

/-- A text that stands for a number: its digits, which a plus may precede. -/
inductive Spells (radix : Nat) : Text → Nat → Prop
  | bare {s : Text} {n : Nat} (numeral : IsNumeral radix s n) : Spells radix s n
  | signed {s : Text} {n : Nat} (numeral : IsNumeral radix s n) : Spells radix ('+' :: s) n

theorem ofNat_add_sub_toNat {c : Char} {n : Nat} (h : n ≤ c.toNat) :
    Char.ofNat (n + (c.toNat - n)) = c := by
  rw [Nat.add_sub_cancel' h, Char.ofNat_toNat]

/-- A character with a value stands for it: each of the three ranges that have one is counted from
its first character. -/
theorem isDigit_of_digitValue {radix : Nat} (h : radix ≤ 36) {c : Char} {d : Nat}
    (hvalue : digitValue radix c = some d) : IsDigit radix c d := by
  have hlower : ∀ e < 36, 10 ≤ e → (digitChar e).toLower = Char.ofNat (0x61 + (e - 10)) := by
    decide
  obtain ⟨hvalue, hlt⟩ := Option.filter_eq_some_iff.1 hvalue
  have hlt : d < radix := of_decide_eq_true hlt
  refine ⟨hlt, ?_⟩
  split at hvalue
  · obtain rfl := Option.some.inj hvalue
    left
    rw [digitChar, if_pos (by omega), ofNat_add_sub_toNat (by omega)]
  · split at hvalue
    · obtain rfl := Option.some.inj hvalue
      left
      rw [digitChar, if_neg (by omega), Nat.add_sub_cancel, ofNat_add_sub_toNat (by omega)]
    · split at hvalue
      · obtain rfl := Option.some.inj hvalue
        right
        rw [hlower _ (by omega) (by omega), Nat.add_sub_cancel, ofNat_add_sub_toNat (by omega)]
      · cases hvalue

theorem digitValue_of_isDigit {radix : Nat} (h : radix ≤ 36) {c : Char} {d : Nat}
    (hdigit : IsDigit radix c d) : digitValue radix c = some d := by
  have hall : ∀ e < 36, digitValue 36 (digitChar e) = some e
      ∧ digitValue 36 (digitChar e).toLower = some e := by decide
  obtain ⟨hlt, hc⟩ := hdigit
  have hlargest : digitValue 36 c = some d := by
    rcases hc with rfl | rfl
    · exact (hall d (by omega)).1
    · exact (hall d (by omega)).2
  -- a smaller radix has fewer digits, but none of another value
  obtain ⟨hvalue, -⟩ := Option.filter_eq_some_iff.1 hlargest
  exact Option.filter_eq_some_iff.2 ⟨hvalue, decide_eq_true hlt⟩

/-- The characters with a value are those that stand for it. -/
theorem digitValue_eq_some_iff {radix : Nat} (h : radix ≤ 36) {c : Char} {d : Nat} :
    digitValue radix c = some d ↔ IsDigit radix c d :=
  ⟨isDigit_of_digitValue h, digitValue_of_isDigit h⟩

/-- A digit is neither a blank nor the sign between the ends of a range. -/
theorem clean_of_digitValue {radix d : Nat} {c : Char} (h : digitValue radix c = some d) :
    isBlank c = false ∧ c ≠ '-' := by
  have hrange : 0x30 ≤ c.toNat ∧ c.toNat ≤ 0x7A := by
    unfold digitValue at h
    dsimp only at h
    split at h
    · omega
    · split at h
      · omega
      · split at h
        · omega
        · cases h
  constructor
  · unfold isBlank
    simp
    omega
  · rintro rfl
    exact absurd hrange.1 (by decide)

theorem map_digitValue_eq_iff {radix : Nat} (h : radix ≤ 36) {s : Text} {ds : List Nat} :
    s.map (digitValue radix) = ds.map some ↔ List.Forall₂ (IsDigit radix) s ds := by
  rw [← List.forall₂_eq_eq_eq, List.forall₂_map_left_iff, List.forall₂_map_right_iff]
  simp only [digitValue_eq_some_iff h]

/-- Every character of a numeral is a digit. -/
theorem IsNumeral.exists_isDigit {radix n : Nat} {s : Text} (h : IsNumeral radix s n) :
    ∀ c ∈ s, ∃ d, IsDigit radix c d := by
  obtain ⟨-, ds, hds, -⟩ := h
  intro c hc
  induction hds with
  | nil => cases hc
  | cons hdigit _ ih =>
      rcases List.mem_cons.1 hc with rfl | hc
      · exact ⟨_, hdigit⟩
      · exact ih hc

/-- There are no blanks in the spelling of a number. -/
theorem Spells.not_isBlank {radix n : Nat} {s : Text} (hletters : radix ≤ 36)
    (h : Spells radix s n) : ∀ c ∈ s, isBlank c = false := by
  have hnumeral {t : Text} (ht : IsNumeral radix t n) : ∀ c ∈ t, isBlank c = false := by
    intro c hc
    obtain ⟨d, hd⟩ := ht.exists_isDigit c hc
    exact (clean_of_digitValue ((digitValue_eq_some_iff hletters).2 hd)).1
  cases h with
  | bare numeral => exact hnumeral numeral
  | signed numeral =>
      intro c hc
      rcases List.mem_cons.1 hc with rfl | hc
      · rfl
      · exact hnumeral numeral c hc

/-- A number is spelled by its digits in upper-case letters. -/
theorem isNumeral_upperHex (n : Nat) : IsNumeral 16 (upperHex n) n := by
  refine ⟨by simp [upperHex, digits_ne_nil], digits 16 n, ?_, value_digits 16 n⟩
  have hdigit : ∀ d ∈ digits 16 n, IsDigit 16 (digitChar d) d := fun d hd =>
    ⟨lt_of_mem_digits (by decide) n d hd, .inl rfl⟩
  exact List.forall₂_map_left_iff.2 (List.forall₂_same.2 hdigit)

/-! ## Reading spellings -/

/-- Reading that succeeds has met nothing but digits. -/
theorem exists_map_digitValue_of_readDigits {radix bound : Nat} {s : Text} {n m : Nat}
    (h : readDigits radix bound n s = .ok m) :
    ∃ ds : List Nat, s.map (digitValue radix) = ds.map some := by
  induction s generalizing n with
  | nil => exact ⟨[], rfl⟩
  | cons c rest ih =>
      rw [readDigits] at h
      split at h
      · cases h
      · rename_i d hd
        split at h
        · obtain ⟨ds, hds⟩ := ih h
          exact ⟨d :: ds, by simp [hd, hds]⟩
        · cases h

section Spellings

variable {radix bound : Nat} {s : Text} {n : Nat}

/-- A plus in front of digits makes no difference. -/
theorem read_plus (hne : s ≠ []) : read radix bound ('+' :: s) = readDigits radix bound 0 s := by
  obtain ⟨c, rest, rfl⟩ := List.exists_cons_of_ne_nil hne
  rfl

/-- A text that stands for a number is read as that number, if it is below the bound. -/
theorem Spells.read_eq (hpos : 1 ≤ radix) (hletters : radix ≤ 36) (hbound : 0 < bound)
    (h : Spells radix s n) :
    read radix bound s = if n < bound then .ok n else .error .tooLarge := by
  cases h with
  | bare numeral =>
      obtain ⟨hne, ds, hds, rfl⟩ := numeral
      exact Numeral.read_eq hpos hbound hne ((map_digitValue_eq_iff hletters).2 hds)
  | signed numeral =>
      obtain ⟨hne, ds, hds, rfl⟩ := numeral
      rw [read_plus hne]
      exact readDigits_eq hpos ((map_digitValue_eq_iff hletters).2 hds) hbound

/-- Only texts that stand for a number are read. -/
theorem exists_spells_of_read (hletters : radix ≤ 36) (h : read radix bound s = .ok n) :
    ∃ m, Spells radix s m := by
  have hnumeral {t : Text} (hne : t ≠ []) (hread : readDigits radix bound 0 t = .ok n) :
      ∃ m, IsNumeral radix t m := by
    obtain ⟨ds, hds⟩ := exists_map_digitValue_of_readDigits hread
    exact ⟨_, hne, ds, (map_digitValue_eq_iff hletters).1 hds, rfl⟩
  unfold read at h
  split at h
  · cases h
  · split at h
    · cases h
    · rename_i rest hrest
      obtain ⟨m, hm⟩ := hnumeral (mt List.isEmpty_iff.2 hrest) h
      exact ⟨m, .signed hm⟩
  · rename_i hne _
    obtain ⟨m, hm⟩ := hnumeral hne h
    exact ⟨m, .bare hm⟩

/-- What is read are the spellings of numbers below the bound. -/
theorem read_eq_ok_iff (hpos : 1 ≤ radix) (hletters : radix ≤ 36) (hbound : 0 < bound) :
    read radix bound s = .ok n ↔ Spells radix s n ∧ n < bound := by
  constructor
  · intro h
    obtain ⟨m, hm⟩ := exists_spells_of_read hletters h
    rw [hm.read_eq hpos hletters hbound] at h
    split at h
    · obtain rfl := Except.ok.inj h
      exact ⟨hm, ‹m < bound›⟩
    · cases h
  · rintro ⟨hspells, hlt⟩
    rw [hspells.read_eq hpos hletters hbound, if_pos hlt]

end Spellings

end RttiProbe.Text.Numeral
