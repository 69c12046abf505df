import RttiProbe.Memory.Address
import RttiProbe.Proofs.Text.Numeral
import RttiProbe.Proofs.Text.Trim
/-!
# Texts of addresses

An address is read from every text that stands for it and from no other.  `Denotes` says which
texts these are: hexadecimal digits after `0x` or `0X`, or decimal digits, with a plus before the
digits or without, and with any blanks around the whole.  There may be any number of digits, zeros
in front included.  A text of this form whose number takes more than 64 bits is refused as too
large.

The text that is displayed for an address is of this form, so it is read back, and different
addresses are displayed differently.
-/

set_option autoImplicit false

namespace RttiProbe

open Text (AllBlank IsTrimmed trim)
open Text.Numeral (Spells digitValue)

/-- A decimal numeral does not look like a hexadecimal one. -/
theorem Text.Numeral.Spells.second_ne {n : Nat} {c : Char} {rest : Text}
    (h : Spells 10 ('0' :: c :: rest) n) :
    c ≠ 'x' ∧ c ≠ 'X' := by
  have hnone : digitValue 10 'x' = none ∧ digitValue 10 'X' = none := by decide
  cases h with
  | bare numeral =>
      obtain ⟨d, hd⟩ := numeral.exists_isDigit c (by simp)
      have hvalue := (Text.Numeral.digitValue_eq_some_iff (by decide)).2 hd
      constructor
      · rintro rfl
        simp [hnone.1] at hvalue
      · rintro rfl
        simp [hnone.2] at hvalue

namespace Memory.Address

variable {s t : Text} {n : Nat}

/-! ## Texts that stand for addresses -/

/-- A text that stands for a number as addresses do: hexadecimal after `0x` or `0X`, or decimal. -/
inductive Writes : Text → Nat → Prop
  | hexadecimal {x : Char} {s : Text} {n : Nat} (mark : x = 'x' ∨ x = 'X')
      (digits : Spells 16 s n) : Writes ('0' :: x :: s) n
  | decimal {s : Text} {n : Nat} (digits : Spells 10 s n) : Writes s n

/-- The same with any blanks around it. -/
def Denotes (s : Text) (n : Nat) : Prop :=
  ∃ before t after, AllBlank before ∧ AllBlank after ∧ s = before ++ t ++ after ∧ Writes t n

theorem Writes.isTrimmed (h : Writes t n) : IsTrimmed t := by
  apply Text.isTrimmed_of_forall
  cases h with
  | hexadecimal mark digits =>
      intro c hc
      rcases List.mem_cons.1 hc with rfl | hc
      · rfl
      · rcases List.mem_cons.1 hc with rfl | hc
        · rcases mark with rfl | rfl <;> rfl
        · exact digits.not_isBlank (by decide) c hc
  | decimal digits => exact digits.not_isBlank (by decide)

/-- What trimming leaves tells which number a text stands for. -/
theorem denotes_iff : Denotes s n ↔ Writes (trim s) n := by
  constructor
  · rintro ⟨before, t, after, hbefore, hafter, rfl, ht⟩
    rw [ht.isTrimmed.trim_surrounded hbefore hafter]
    exact ht
  · intro h
    obtain ⟨before, after, hbefore, hafter, hs⟩ := Text.exists_surrounded s
    exact ⟨before, trim s, after, hbefore, hafter, hs, h⟩

theorem denotes_of_writes (h : Writes t n) : Denotes t n :=
  denotes_iff.2 (h.isTrimmed.trim_eq.symm ▸ h)

theorem writes_display (a : Address) : Writes a.display a.toNat :=
  .hexadecimal (.inl rfl) (.bare (Text.Numeral.isNumeral_upperHex a.toNat))

/-! ## Reading -/

theorem parse_of_hexadecimal {x : Char} (hx : x = 'x' ∨ x = 'X') (h : trim s = '0' :: x :: t) :
    parse s = (Text.Numeral.read 16 UInt64.size t).map fun n => ⟨UInt64.ofNat n⟩ := by
  unfold parse
  rw [h]
  rcases hx with rfl | rfl <;> rfl

theorem parse_of_decimal (h : ∀ x t, trim s = '0' :: x :: t → x ≠ 'x' ∧ x ≠ 'X') :
    parse s = (Text.Numeral.read 10 UInt64.size (trim s)).map fun n => ⟨UInt64.ofNat n⟩ := by
  unfold parse
  split
  · exact absurd rfl (h _ _ ‹_›).1
  · exact absurd rfl (h _ _ ‹_›).2
  · rfl

/-- What is read is one numeral in one radix, and that tells which number the text stands for. -/
theorem exists_numeral (s : Text) : ∃ radix u, 1 ≤ radix ∧ radix ≤ 36
    ∧ parse s = (Text.Numeral.read radix UInt64.size u).map (fun n => ⟨UInt64.ofNat n⟩)
    ∧ ∀ n, Denotes s n ↔ Spells radix u n := by
  simp only [denotes_iff]
  by_cases hmark : ∃ x t, (x = 'x' ∨ x = 'X') ∧ trim s = '0' :: x :: t
  · obtain ⟨x, t, hx, ht⟩ := hmark
    refine ⟨16, t, by decide, by decide, parse_of_hexadecimal hx ht, fun n => ⟨fun h => ?_, ?_⟩⟩
    · rw [ht] at h
      cases h with
      | hexadecimal _ digits => exact digits
      | decimal digits => exact absurd hx (not_or.2 digits.second_ne)
    · intro h
      rw [ht]
      exact .hexadecimal hx h
  · push Not at hmark
    have hplain : ∀ x t, trim s = '0' :: x :: t → x ≠ 'x' ∧ x ≠ 'X' :=
      fun x t ht => ⟨fun hx => hmark x t (.inl hx) ht, fun hx => hmark x t (.inr hx) ht⟩
    refine ⟨10, trim s, by decide, by decide, parse_of_decimal hplain, fun n => ⟨fun h => ?_, ?_⟩⟩
    · generalize trim s = t at hmark h
      cases h with
      | hexadecimal hx _ => exact absurd rfl (hmark _ _ hx)
      | decimal digits => exact digits
    · exact .decimal

/-- The addresses that are read are those that their texts stand for. -/
theorem parse_eq_ok_iff {a : Address} : parse s = .ok a ↔ Denotes s a.toNat := by
  obtain ⟨radix, u, hpos, hletters, hparse, hspells⟩ := exists_numeral s
  have hread (n : Nat) : Text.Numeral.read radix UInt64.size u = .ok n
      ↔ Denotes s n ∧ n < UInt64.size := by
    rw [Text.Numeral.read_eq_ok_iff hpos hletters (by decide), hspells]
  rw [hparse]
  constructor
  · intro h
    cases hvalue : Text.Numeral.read radix UInt64.size u with
    | error e =>
        rw [hvalue] at h
        cases h
    | ok n =>
        rw [hvalue] at h
        obtain rfl := Except.ok.inj h
        obtain ⟨hdenotes, hlt⟩ := (hread n).1 hvalue
        rw [toNat, UInt64.toNat_ofNat_of_lt' hlt]
        exact hdenotes
  · intro h
    rw [(hread a.toNat).2 ⟨h, a.toNat_lt⟩, Except.map, toNat, UInt64.ofNat_toNat]

/-- A text that stands for more than 64 bits can hold is refused for that reason. -/
theorem parse_eq_tooLarge (h : Denotes s n) (hn : UInt64.size ≤ n) :
    parse s = .error .tooLarge := by
  obtain ⟨radix, u, hpos, hletters, hparse, hspells⟩ := exists_numeral s
  rw [hparse, ((hspells n).1 h).read_eq hpos hletters (by decide), if_neg (Nat.not_lt.2 hn)]
  rfl

theorem parse_display_eq (a : Address) : parse a.display = .ok a :=
  parse_eq_ok_iff.2 (denotes_of_writes (writes_display a))

/-! ## Texts without loss -/

/-- An address is read from the texts that stand for it and from no others, whatever is too large is
refused as such, and what is displayed for an address is read back, so it tells the address from all
others. -/
theorem parse_exact_display_injective :
    (∀ s a, parse s = .ok a ↔ Denotes s a.toNat)
      ∧ (∀ s n, Denotes s n → UInt64.size ≤ n → parse s = .error .tooLarge)
      ∧ (∀ a, parse (display a) = .ok a)
      ∧ ∀ a b, display a = display b → a = b := by
  refine ⟨fun s a => parse_eq_ok_iff, fun s n => parse_eq_tooLarge, parse_display_eq, ?_⟩
  intro a b h
  have hread : (.ok a : Except Text.NumeralError Address) = .ok b :=
    calc .ok a = parse (display a) := (parse_display_eq a).symm
      _ = parse (display b) := congrArg parse h
      _ = .ok b := parse_display_eq b
  exact Except.ok.inj hread

/-- Blanks of two kinds, a plus, leading zeros and both cases, and the least number that is too
large. -/
theorem parse_exact_display_injective_sample :
    Denotes "\t 0X+00fF\u2003".toList 0xFF
      ∧ parse "\t 0X+00fF\u2003".toList = .ok ⟨0xFF⟩
      ∧ Denotes "018446744073709551616".toList UInt64.size
      ∧ parse "018446744073709551616".toList = .error .tooLarge := by
  have hblanks : AllBlank "\t ".toList ∧ AllBlank "\u2003".toList :=
    ⟨Text.all_isBlank_iff.1 rfl, Text.all_isBlank_iff.1 rfl⟩
  have hsmall : Denotes "\t 0X+00fF\u2003".toList 0xFF :=
    ⟨_, "0X+00fF".toList, _, hblanks.1, hblanks.2, rfl, .hexadecimal (.inr rfl) (.signed
      ⟨by decide, [0, 0, 15, 15], (Text.Numeral.map_digitValue_eq_iff (by decide)).1 rfl, rfl⟩)⟩
  have hlarge : Denotes "018446744073709551616".toList UInt64.size :=
    denotes_of_writes (.decimal (.bare ⟨by decide,
      [0, 1, 8, 4, 4, 6, 7, 4, 4, 0, 7, 3, 7, 0, 9, 5, 5, 1, 6, 1, 6],
      (Text.Numeral.map_digitValue_eq_iff (by decide)).1 rfl, rfl⟩))
  obtain ⟨hexact, hrefused, -, -⟩ := parse_exact_display_injective
  exact ⟨hsmall, (hexact _ ⟨0xFF⟩).2 hsmall, hlarge, hrefused _ _ hlarge (Nat.le_refl _)⟩

end Memory.Address

end RttiProbe
