/-!
# Text and its blanks

Text is handled as the list of its characters, the form every scan of this library recurses on.
This module fixes which characters count as blank (the Unicode property `White_Space`) and the
three things done with blanks: trimming them off both ends, cutting a text into its words, and
cutting a text into its lines.
-/

set_option autoImplicit false

namespace RttiProbe

/-- A text, as the list of its characters. -/
abbrev Text := List Char

namespace Text

/-- A character with the Unicode property `White_Space`. -/
def isBlank (c : Char) : Bool :=
  let n := c.toNat
  (0x09 ≤ n && n ≤ 0x0D) || n == 0x20 || n == 0x85 || n == 0xA0 || n == 0x1680
    || (0x2000 ≤ n && n ≤ 0x200A) || n == 0x2028 || n == 0x2029 || n == 0x202F
    || n == 0x205F || n == 0x3000

/-! ## Trimming -/

/-- The text without the blanks at its start. -/
def trimStart (s : Text) : Text := s.dropWhile isBlank

/-- The text without the blanks at its end. -/
def trimEnd (s : Text) : Text := (s.reverse.dropWhile isBlank).reverse

/-- The text without the blanks at either end. -/
def trim (s : Text) : Text := trimEnd (trimStart s)

theorem length_trimEnd_le (s : Text) : (trimEnd s).length ≤ s.length := by
  have h := (List.dropWhile_suffix isBlank (l := s.reverse)).length_le
  simpa [trimEnd] using h

theorem length_trim_le (s : Text) : (trim s).length ≤ s.length :=
  Nat.le_trans (length_trimEnd_le _) (List.dropWhile_suffix isBlank (l := s)).length_le

/-! ## Words -/

/-- The maximal runs of characters that are not blank, in order. -/
def words (s : Text) : List Text :=
  match _h : s.dropWhile isBlank with
  | [] => []
  | c :: rest =>
    (c :: rest.takeWhile (!isBlank ·)) :: words (rest.dropWhile (!isBlank ·))
termination_by s.length
decreasing_by
  have h₁ := (List.dropWhile_suffix isBlank (l := s)).length_le
  have h₂ := (List.dropWhile_suffix (!isBlank ·) (l := rest)).length_le
  rw [_h, List.length_cons] at h₁
  omega

/-! ## Lines -/

/-- A line without the carriage return that ends it. -/
def dropCarriageReturn (line : Text) : Text :=
  if line.getLast? = some '\r' then line.dropLast else line

/-- The lines of a text.  Each but the last is ended by a line feed, which a carriage return may
precede; neither belongs to the line.  What follows the last line feed is a line unless it is
empty, and keeps its carriage return. -/
def lines (s : Text) : List Text :=
  match _h : s.dropWhile (· ≠ '\n') with
  | [] => if s.isEmpty then [] else [s]
  | _ :: rest => dropCarriageReturn (s.takeWhile (· ≠ '\n')) :: lines rest
termination_by s.length
decreasing_by
  have h₁ := (List.dropWhile_suffix (· ≠ '\n') (l := s)).length_le
  rw [_h, List.length_cons] at h₁
  omega

end Text

end RttiProbe
