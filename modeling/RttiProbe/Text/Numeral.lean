import RttiProbe.Text.Blank
/-!
# Numerals

Unsigned numbers as text: digits in a radix of up to 36, most significant first.  Reading goes from
left to right and reports the first thing that is wrong; one leading `+` is accepted.  Printing
never pads.  `value` is the meaning of a digit sequence and `digits` its inverse.
-/

set_option autoImplicit false

namespace RttiProbe.Text

/-- Why a text is not an unsigned number below the bound it is read against. -/
inductive NumeralError where
  /-- there is nothing to read -/
  | empty
  /-- a character that is no digit of the radix, or a sign alone -/
  | invalidDigit
  /-- the digits read so far already reach the bound -/
  | tooLarge
  deriving DecidableEq, Repr, Inhabited

namespace NumeralError

/-- The wording of each cause. -/
def message : NumeralError → Text
  | empty => "cannot parse integer from empty string".toList
  | invalidDigit => "invalid digit found in string".toList
  | tooLarge => "number too large to fit in target type".toList

end NumeralError

namespace Numeral

/-- The value of a digit, letters of either case standing for ten and up, if it is one in
`radix`. -/
def digitValue (radix : Nat) (c : Char) : Option Nat :=
  let n := c.toNat
  let value :=
    if 0x30 ≤ n ∧ n ≤ 0x39 then some (n - 0x30)
    else if 0x41 ≤ n ∧ n ≤ 0x5A then some (n - 0x41 + 10)
    else if 0x61 ≤ n ∧ n ≤ 0x7A then some (n - 0x61 + 10)
    else none
  value.filter (· < radix)

/-- Reads digits after a value already read, refusing to reach `bound`. -/
def readDigits (radix bound : Nat) : Nat → Text → Except NumeralError Nat
  | value, [] => .ok value
  | value, c :: rest =>
    match digitValue radix c with
    | none => .error .invalidDigit
    | some d =>
      if value * radix + d < bound then readDigits radix bound (value * radix + d) rest
      else .error .tooLarge

/-- Reads a whole text as a number below `bound`. -/
def read (radix bound : Nat) : Text → Except NumeralError Nat
  | [] => .error .empty
  | '+' :: rest => if rest.isEmpty then .error .invalidDigit else readDigits radix bound 0 rest
  | s => readDigits radix bound 0 s

/-- The digits of a number in a radix above one, most significant first. -/
def digits (radix n : Nat) : List Nat :=
  if _h : n < radix ∨ radix < 2 then [n]
  else digits radix (n / radix) ++ [n % radix]
termination_by n
decreasing_by exact Nat.div_lt_self (by omega) (by omega)

/-- The number that digits stand for. -/
def value (radix : Nat) (ds : List Nat) : Nat := ds.foldl (fun n d => n * radix + d) 0

/-- A digit below sixteen, letters in upper case. -/
def digitChar (d : Nat) : Char := Char.ofNat (if d < 10 then 0x30 + d else 0x41 + (d - 10))

/-- The number in upper-case hexadecimal. -/
def upperHex (n : Nat) : Text := (digits 16 n).map digitChar

/-- The number in decimal. -/
def decimal (n : Nat) : Text := (digits 10 n).map digitChar

/-- A signed number in decimal, a minus before its size if it is negative. -/
def signedDecimal (n : Int) : Text :=
  if n < 0 then '-' :: decimal n.natAbs else decimal n.natAbs

end Numeral

end RttiProbe.Text
