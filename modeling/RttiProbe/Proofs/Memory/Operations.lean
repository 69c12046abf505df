import Mathlib.Data.List.TakeWhile
import RttiProbe.Memory.CString
import RttiProbe.Proofs.Decode.Operations
/-!
# Operations that read values and strings

Values are read into buffers of their size.  A string is read in two loops, that of a narrow string
handing over to another where a chunk does not fit into readable memory: each loop decides by itself
whether a missing unit ends the string or the whole result, and none of them looks at an error.
-/

set_option autoImplicit false

namespace RttiProbe.Operation

open Memory (Address)
open Memory.CString (maxUnits chunkSize)

variable {σ α : Type} {target : BufferedAccessor σ}

/-! ## Values -/

/-- Reads a value that a buffer of `n` bytes holds. -/
def readValue {n : Nat} (target : BufferedAccessor σ) (a : Address)
    (ofBuffer : List.Vector UInt8 n → α) : Operation σ (Option α) := do
  return (← readInto target a n).map ofBuffer

/-- The number that a buffer holds. -/
def wordOf {n : Nat} (buffer : List.Vector UInt8 n) : Nat := Memory.Word.ofBytes buffer.toList

theorem wordOf_lt {n : Nat} (buffer : List.Vector UInt8 n) : wordOf buffer < Nat.pow 256 n := by
  have hlt := Memory.Word.ofBytes_lt buffer.toList
  rwa [buffer.toList_length] at hlt

/-- Reads a pointer, as wide as the target's are. -/
def readPointer (target : BufferedAccessor σ) (a : Address) : Operation σ (Option Address) :=
  match target.width with
  | .bits32 => readValue target a fun (buffer : List.Vector UInt8 4) =>
      ⟨(UInt32.ofNat (wordOf buffer)).toUInt64⟩
  | .bits64 => readValue target a fun (buffer : List.Vector UInt8 8) =>
      ⟨UInt64.ofNat (wordOf buffer)⟩

/-! ## Strings -/

/-- Goes on byte by byte after the bytes `result`. -/
def narrowBytes (target : BufferedAccessor σ) (start : Address) (result : Bytes) :
    Operation σ (Option Bytes) :=
  match start.add? result.length with
  | none => return some (result.take maxUnits)
  | some cursor => do
    match ← readValue target cursor (fun (buffer : List.Vector UInt8 1) => buffer.head) with
    | none => if result.isEmpty then return none else return some (result.take maxUnits)
    | some byte =>
      if byte = 0 then return some result
      else if _h : result.length < maxUnits then narrowBytes target start (result ++ [byte])
      else return some (result.take maxUnits)
termination_by maxUnits - result.length
decreasing_by
  rw [List.length_append, List.length_singleton]
  omega

/-- Goes on chunk by chunk after the bytes `result`. -/
def narrowChunks (target : BufferedAccessor σ) (start : Address) (result : Bytes) :
    Operation σ (Option Bytes) :=
  if _h : result.length < maxUnits then
    match start.add? result.length with
    | none => return some (result.take maxUnits)
    | some cursor => do
      match ← readInto target cursor chunkSize with
      | none => narrowBytes target start result
      | some chunk =>
        match chunk.toList.findIdx? (· = 0) with
        | some stop => return some (result ++ chunk.toList.take stop)
        | none => narrowChunks target start (result ++ chunk.toList)
  else return some (result.take maxUnits)
termination_by maxUnits - result.length
decreasing_by
  rw [List.length_append, chunk.toList_length, chunkSize]
  omega

/-- Goes on unit by unit after the units `result`. -/
def wideUnits (target : BufferedAccessor σ) (start : Address) (result : List UInt16) :
    Operation σ (Option (List UInt16)) :=
  if _h : result.length < maxUnits then
    match start.add? (result.length * 2) with
    | none => return some result
    | some cursor => do
      match ← readValue target cursor
        (fun (buffer : List.Vector UInt8 2) => UInt16.ofNat (wordOf buffer)) with
      | none => if result.isEmpty then return none else return some result
      | some unit =>
        if unit = 0 then return some result else wideUnits target start (result ++ [unit])
  else return some result
termination_by maxUnits - result.length
decreasing_by
  rw [List.length_append, List.length_singleton]
  omega

/-- Reads a string up to its first null unit, in bytes. -/
def readString (target : BufferedAccessor σ) (encoding : Memory.CString.Encoding)
    (start : Address) : Operation σ (Option Bytes) :=
  match encoding with
  | .narrow => narrowChunks target start []
  | .wide => do
    return (← wideUnits target start []).map fun units =>
      Text.Utf8.encode (Text.Utf16.decodeLossy units)

/-! ## Values are read as they are decoded -/

theorem toList_eq_singleton (buffer : List.Vector UInt8 1) : buffer.toList = [buffer.head] :=
  match buffer with
  | ⟨[_], _⟩ => rfl

theorem ofBytes_singleton_eq_zero_iff {byte : UInt8} :
    Memory.Word.ofBytes [byte] = 0 ↔ byte = 0 := by
  rw [← UInt8.toNat_inj]
  exact Iff.rfl

/-- Up to the first null byte there is none. -/
theorem contains_of_findIdx?_eq_some {bs : Bytes} {stop : Nat}
    (h : bs.findIdx? (· = 0) = some stop) :
    bs.contains 0 = true ∧ bs.takeWhile (· ≠ 0) = bs.take stop := by
  obtain ⟨hlength, rfl⟩ := List.findIdx?_eq_some_iff_findIdx_eq.1 h
  constructor
  · obtain ⟨byte, hbyte, hnull⟩ := List.findIdx_lt_length.1 hlength
    exact List.contains_iff_mem.2 (of_decide_eq_true hnull ▸ hbyte)
  · rw [List.takeWhile_eq_take_findIdx_not]
    simp

theorem not_contains_of_findIdx?_eq_none {bs : Bytes} (h : bs.findIdx? (· = 0) = none) :
    ¬ bs.contains 0 = true := by
  intro hnull
  have hother := List.findIdx?_eq_none_iff.1 h 0 (List.contains_iff_mem.1 hnull)
  cases hother

namespace Performs

variable {β : Type}

/-- The value in a buffer is what the rest goes on with. -/
theorem value {a : Address} {n : Nat} {ofBuffer : List.Vector UInt8 n → α}
    {f : Option α → Operation σ β} {next : Option Bytes → Decode β}
    (hnone : Performs target (f none) (next none))
    (hsome : ∀ buffer, Performs target (f (some (ofBuffer buffer))) (next (some buffer.toList))) :
    Performs target (do f (← Operation.readValue target a ofBuffer)) (.read a n next) := by
  unfold Operation.readValue
  rw [bind_assoc]
  simp only [pure_bind]
  exact .readInto hnone hsome

theorem readValue {a : Address} {n : Nat} {ofBuffer : List.Vector UInt8 n → α}
    {decode : Option Bytes → Option α} (hnone : decode none = none)
    (hsome : ∀ buffer, decode (some buffer.toList) = some (ofBuffer buffer)) :
    Performs target (Operation.readValue target a ofBuffer)
      (.read a n fun answer => .done (decode answer)) := by
  refine .readInto ?_ fun buffer => ?_
  · rw [hnone]
    exact .pure none
  · rw [hsome]
    exact .pure (some (ofBuffer buffer))

/-- The bytes of a pointer are few enough for an address. -/
theorem readPointer (a : Address) :
    Performs target (Operation.readPointer target a) (Decode.pointer target.frame a) := by
  have hframe : target.frame.width = target.width := by
    unfold BufferedAccessor.frame Accessor.frame
    show Frame.width (match target.width with | .bits32 => _ | .bits64 => _) = _
    cases target.width <;> rfl
  unfold Operation.readPointer Decode.pointer
  rw [hframe]
  cases target.width with
  | bits32 =>
      refine .readValue rfl fun buffer => Address.ofNat?_eq_some_iff.2 ?_
      have hlt : wordOf buffer < 256 ^ 4 := wordOf_lt buffer
      show ((UInt32.ofNat (wordOf buffer)).toUInt64).toNat = _
      rw [UInt32.toNat_toUInt64, UInt32.toNat_ofNat_of_lt' (by simpa using hlt)]
      rfl
  | bits64 =>
      refine .readValue rfl fun buffer => Address.ofNat?_eq_some_iff.2 ?_
      have hlt : wordOf buffer < 256 ^ 8 := wordOf_lt buffer
      show (UInt64.ofNat (wordOf buffer)).toNat = _
      rw [UInt64.toNat_ofNat_of_lt' (by simpa using hlt)]
      rfl

/-! ## Strings are read as they are decoded -/

/-- No byte, the null byte, or another one: with each the loop does what the decoder does. -/
theorem narrowBytes_of_next (start : Address) {room : Nat} {result : Bytes}
    (h : result.length + room = maxUnits)
    (hnext : ∀ byte rest, room = rest + 1 →
      Performs target (Operation.narrowBytes target start (result ++ [byte]))
        (Memory.CString.narrowBytes start rest (result ++ [byte]))) :
    Performs target (Operation.narrowBytes target start result)
      (Memory.CString.narrowBytes start room result) := by
  have htake : result.take maxUnits = result := List.take_of_length_le (by omega)
  rw [Operation.narrowBytes, Memory.CString.narrowBytes, htake]
  cases start.add? result.length with
  | none => exact .pure _
  | some cursor =>
      refine .value ?_ fun buffer => ?_
      · dsimp only
        split <;> exact .pure _
      · dsimp only
        rw [toList_eq_singleton]
        simp only [ofBytes_singleton_eq_zero_iff]
        split
        · exact .pure _
        · cases room with
          | zero =>
              rw [dif_neg (by omega)]
              exact .pure _
          | succ rest =>
              rw [dif_pos (by omega)]
              exact hnext buffer.head rest rfl

theorem narrowBytes (start : Address) {room : Nat} {result : Bytes}
    (h : result.length + room = maxUnits) :
    Performs target (Operation.narrowBytes target start result)
      (Memory.CString.narrowBytes start room result) := by
  induction room generalizing result with
  | zero => exact narrowBytes_of_next start h nofun
  | succ room ih =>
      refine narrowBytes_of_next start h fun byte rest hrest => ?_
      obtain rfl : room = rest := Nat.succ.inj hrest
      refine ih ?_
      rw [List.length_append, List.length_singleton]
      omega

/-- Every full chunk takes the loop one chunk nearer to the longest string there is. -/
theorem narrowChunks (start : Address) {chunks : Nat} {result : Bytes}
    (h : result.length + chunkSize * chunks = maxUnits) :
    Performs target (Operation.narrowChunks target start result)
      (Memory.CString.narrowChunks start chunks result) := by
  induction chunks generalizing result with
  | zero =>
      have htake : result.take maxUnits = result := List.take_of_length_le (by omega)
      rw [Operation.narrowChunks, Memory.CString.narrowChunks, dif_neg (by omega), htake]
      exact .pure _
  | succ chunks ih =>
      have hlength : result.length < maxUnits := by
        rw [Nat.mul_succ, chunkSize] at h
        omega
      have htake : result.take maxUnits = result := List.take_of_length_le (Nat.le_of_lt hlength)
      rw [Operation.narrowChunks, Memory.CString.narrowChunks, dif_pos hlength, htake]
      cases start.add? result.length with
      | none => exact .pure _
      | some cursor =>
          refine .readInto (narrowBytes start (by omega)) fun chunk => ?_
          dsimp only
          cases hstop : chunk.toList.findIdx? (· = 0) with
          | some stop =>
              obtain ⟨hnull, htaken⟩ := contains_of_findIdx?_eq_some hstop
              rw [if_pos hnull, htaken]
              exact .pure _
          | none =>
              have hlong : (result ++ chunk.toList).length + chunkSize * chunks = maxUnits := by
                rw [List.length_append, chunk.toList_length, Nat.add_assoc, Nat.add_comm chunkSize]
                exact h
              rw [if_neg (not_contains_of_findIdx?_eq_none hstop)]
              exact ih hlong

theorem wideUnits (start : Address) {room : Nat} {result : List UInt16}
    (h : result.length + room = maxUnits) :
    Performs target (Operation.wideUnits target start result)
      (Memory.CString.wideUnits start room result.length result.reverse) := by
  induction room generalizing result with
  | zero =>
      rw [Operation.wideUnits, Memory.CString.wideUnits, dif_neg (by omega), List.reverse_reverse]
      exact .pure _
  | succ room ih =>
      rw [Operation.wideUnits, Memory.CString.wideUnits, dif_pos (by omega), List.reverse_reverse,
        Nat.mul_comm, List.isEmpty_reverse]
      cases start.add? (2 * result.length) with
      | none => exact .pure _
      | some cursor =>
          refine .value ?_ fun buffer => ?_
          · dsimp only
            split <;> exact .pure _
          · dsimp only
            show Performs target (if UInt16.ofNat (wordOf buffer) = 0 then _ else _)
              (if UInt16.ofNat (wordOf buffer) = 0 then _ else _)
            split
            · exact .pure _
            · have hlong : (result ++ [UInt16.ofNat (wordOf buffer)]).length + room = maxUnits := by
                rw [List.length_append, List.length_singleton]
                omega
              have hnext := ih hlong
              rw [List.length_append, List.length_singleton, List.reverse_append] at hnext
              exact hnext

theorem readString (encoding : Memory.CString.Encoding) (start : Address) :
    Performs target (Operation.readString target encoding start)
      (Memory.CString.string encoding start) := by
  cases encoding with
  | narrow => exact narrowChunks start rfl
  | wide =>
      have hdecode : Memory.CString.string .wide start
          = (Memory.CString.wideUnits start maxUnits 0 []).bind fun units =>
            .done ((units.map Text.Utf16.decodeLossy).map Text.Utf8.encode) :=
        Decode.bind_assoc _ _ _
      rw [hdecode]
      refine .bind (wideUnits start (Nat.zero_add maxUnits)) fun units => ?_
      cases units <;> exact .pure _

end Performs

end RttiProbe.Operation
