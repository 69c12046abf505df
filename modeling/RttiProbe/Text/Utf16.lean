import RttiProbe.Text.Utf8
/-!
# UTF-16

Text as sequences of 16-bit units.  Characters past the first plane are pairs of surrogates;
decoding turns a surrogate without its partner into one replacement character.
-/

set_option autoImplicit false

namespace RttiProbe.Text.Utf16

/-- The first unit of a pair. -/
def isHighSurrogate (u : UInt16) : Bool := 0xD800 ≤ u && u ≤ 0xDBFF

/-- The second unit of a pair. -/
def isLowSurrogate (u : UInt16) : Bool := 0xDC00 ≤ u && u ≤ 0xDFFF

/-- The character that a pair of surrogates stands for. -/
def pairChar (high low : UInt16) : Char :=
  Char.ofNat (0x10000 + (high.toNat - 0xD800) * 0x400 + (low.toNat - 0xDC00))

/-- The units of one character. -/
def encodeChar (c : Char) : List UInt16 :=
  let n := c.toNat
  if n < 0x10000 then [UInt16.ofNat n]
  else
    [UInt16.ofNat (0xD800 + (n - 0x10000) / 0x400), UInt16.ofNat (0xDC00 + (n - 0x10000) % 0x400)]

/-- The units of a text. -/
def encode (s : Text) : List UInt16 := s.flatMap encodeChar

/-- The text that any units stand for. -/
def decodeLossy : List UInt16 → Text
  | [] => []
  | [u] =>
    [if isHighSurrogate u || isLowSurrogate u then replacement else Char.ofNat u.toNat]
  | u :: v :: rest =>
    if isHighSurrogate u then
      if isLowSurrogate v then pairChar u v :: decodeLossy rest
      else replacement :: decodeLossy (v :: rest)
    else (if isLowSurrogate u then replacement else Char.ofNat u.toNat) :: decodeLossy (v :: rest)

end RttiProbe.Text.Utf16
