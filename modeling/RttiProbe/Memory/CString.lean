import RttiProbe.Decode
import RttiProbe.Text.Utf16
/-!
# Null-terminated strings in memory

A string ends before its first null unit, where memory ends, or after `maxUnits` units.  Narrow
strings are read in chunks, and byte by byte once a chunk does not fit into readable memory; wide
strings are read unit by unit.  There is no string where not even its first unit can be read.
-/

set_option autoImplicit false

namespace RttiProbe.Memory.CString

/-- The number of units after which a string is cut off. -/
def maxUnits : Nat := 0x1000

/-- The number of bytes that a narrow string is read by. -/
def chunkSize : Nat := 0x40

/-- Goes on byte by byte after the bytes `before`, taking at most `room` more. -/
def narrowBytes (start : Address) : (room : Nat) → (before : Bytes) → Decode (Option Bytes)
  | room, before =>
    match start.add? before.length with
    | none => .done (some before)
    | some cursor =>
      .read cursor 1 fun
        | none => .done (if before.isEmpty then none else some before)
        | some bs =>
          if Word.ofBytes bs = 0 then .done (some before)
          else
            match room with
            | 0 => .done (some before)
            | room + 1 => narrowBytes start room (before ++ bs)

/-- Goes on chunk by chunk after the bytes `before`, taking at most `chunks` more. -/
def narrowChunks (start : Address) : (chunks : Nat) → (before : Bytes) → Decode (Option Bytes)
  | 0, before => .done (some before)
  | chunks + 1, before =>
    match start.add? before.length with
    | none => .done (some before)
    | some cursor =>
      .read cursor chunkSize fun
        | none => narrowBytes start (maxUnits - before.length) before
        | some chunk =>
          if chunk.contains 0 then .done (some (before ++ chunk.takeWhile (· ≠ 0)))
          else narrowChunks start chunks (before ++ chunk)

/-- The string of bytes at an address. -/
def narrow (start : Address) : Decode (Option Bytes) :=
  narrowChunks start (maxUnits / chunkSize) []

/-- Goes on unit by unit after `count` units, which `before` holds in reverse, taking at most
`room` more. -/
def wideUnits (start : Address) :
    (room count : Nat) → (before : List UInt16) → Decode (Option (List UInt16))
  | 0, _, before => .done (some before.reverse)
  | room + 1, count, before =>
    match start.add? (2 * count) with
    | none => .done (some before.reverse)
    | some cursor =>
      .read cursor 2 fun
        | none => .done (if before.isEmpty then none else some before.reverse)
        | some bs =>
          let unit := UInt16.ofNat (Word.ofBytes bs)
          if unit = 0 then .done (some before.reverse)
          else wideUnits start room (count + 1) (unit :: before)

/-- The string of UTF-16 units at an address, as text. -/
def wide (start : Address) : Decode (Option Text) := do
  let units ← wideUnits start maxUnits 0 []
  return units.map Text.Utf16.decodeLossy

/-- What the units of a string are. -/
inductive Encoding where
  /-- bytes, which are taken as they are -/
  | narrow
  /-- little-endian UTF-16 -/
  | wide
  deriving DecidableEq, Repr, Inhabited

/-- The string at an address in bytes, those of UTF-8 if it is wide. -/
def string (encoding : Encoding) (start : Address) : Decode (Option Bytes) :=
  match encoding with
  | .narrow => narrow start
  | .wide => do
    let text ← wide start
    return text.map Text.Utf8.encode

end RttiProbe.Memory.CString
