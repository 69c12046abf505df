import RttiProbe.Text.Blank
/-!
# UTF-8

Encoding text as bytes, and decoding any bytes as text.  Decoding never fails: each maximal part of
an ill-formed sequence that could have begun a character becomes one replacement character, so
nothing well-formed around it is lost.
-/

set_option autoImplicit false

namespace RttiProbe

/-- A sequence of bytes as a value: a file's content, a read's result, a decorated name. -/
abbrev Bytes := List UInt8

namespace Text

/-- The character that stands for what could not be decoded. -/
def replacement : Char := '\uFFFD'

namespace Utf8

/-- The bytes of a text. -/
def encode (s : Text) : Bytes := s.flatMap String.utf8EncodeChar

/-- A byte that continues a character. -/
def isContinuation (b : UInt8) : Bool := 0x80 ≤ b && b ≤ 0xBF

/-- The six bits that a continuation byte carries. -/
def payload (b : UInt8) : Nat := b.toNat % 64

/-- Whether `second` may follow `lead` in a character of more than one byte.  The narrower ranges
after `E0`, `ED`, `F0` and `F4` keep out overlong forms, surrogates and code points past
`10FFFF`. -/
def mayFollow (lead second : UInt8) : Bool :=
  if lead == 0xE0 then 0xA0 ≤ second && second ≤ 0xBF
  else if lead == 0xED then 0x80 ≤ second && second ≤ 0x9F
  else if lead == 0xF0 then 0x90 ≤ second && second ≤ 0xBF
  else if lead == 0xF4 then 0x80 ≤ second && second ≤ 0x8F
  else isContinuation second

/-- The character at the start of a sequence, given its first byte and what follows, with the
number of following bytes that belong to it. -/
def first (lead : UInt8) (rest : Bytes) : Char × Nat :=
  if lead < 0x80 then (Char.ofNat lead.toNat, 0)
  else if lead < 0xC2 || 0xF4 < lead then (replacement, 0)
  else
    match rest with
    | [] => (replacement, 0)
    | b :: rest =>
      if !mayFollow lead b then (replacement, 0)
      else if lead < 0xE0 then (Char.ofNat (lead.toNat % 32 * 64 + payload b), 1)
      else
        match rest with
        | [] => (replacement, 1)
        | c :: rest =>
          if !isContinuation c then (replacement, 1)
          else if lead < 0xF0 then
            (Char.ofNat ((lead.toNat % 16 * 64 + payload b) * 64 + payload c), 2)
          else
            match rest with
            | [] => (replacement, 2)
            | d :: _ =>
              if !isContinuation d then (replacement, 2)
              else
                (Char.ofNat
                  (((lead.toNat % 8 * 64 + payload b) * 64 + payload c) * 64 + payload d), 3)

/-- The text that any bytes stand for. -/
def decodeLossy : Bytes → Text
  | [] => []
  | lead :: rest => (first lead rest).1 :: decodeLossy (rest.drop (first lead rest).2)
termination_by bytes => bytes.length
decreasing_by simp only [List.length_drop, List.length_cons]; omega

end Utf8

end Text

end RttiProbe
