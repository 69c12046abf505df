import RttiProbe.Text.Utf8
/-!
# Little-endian words

A word in memory is a run of bytes, least significant first.  `ofBytes` gives the number a run
stands for, of any length, and `toBytes` lays a number out in a given number of bytes.
-/

set_option autoImplicit false

namespace RttiProbe.Memory.Word

/-- The number that bytes stand for. -/
def ofBytes : Bytes → Nat
  | [] => 0
  | b :: rest => b.toNat + 256 * ofBytes rest

/-- The low `count` bytes of a number. -/
def toBytes : (count : Nat) → Nat → Bytes
  | 0, _ => []
  | count + 1, n => UInt8.ofNat n :: toBytes count (n / 256)

@[simp] theorem length_toBytes (count n : Nat) : (toBytes count n).length = count := by
  induction count generalizing n with
  | zero => rfl
  | succ count ih => simp [toBytes, ih]

theorem ofBytes_toBytes (count n : Nat) : ofBytes (toBytes count n) = n % Nat.pow 256 count := by
  induction count generalizing n with
  | zero => simp [toBytes, ofBytes, Nat.mod_one]
  | succ count ih =>
    have hpow : Nat.pow 256 (count + 1) = 256 * Nat.pow 256 count := Nat.mul_comm _ _
    rw [toBytes, ofBytes, ih, UInt8.toNat_ofNat', hpow]
    exact (Nat.mod_mul (x := n) (a := 256) (b := Nat.pow 256 count)).symm

/-- A number of some bytes is bounded by what the bytes can tell apart. -/
theorem ofBytes_lt (bs : Bytes) : ofBytes bs < Nat.pow 256 bs.length := by
  induction bs with
  | nil => exact Nat.one_pos
  | cons b rest ih =>
      have hbyte := b.toNat_lt
      have hpow : Nat.pow 256 (rest.length + 1) = 256 * Nat.pow 256 rest.length := Nat.mul_comm _ _
      rw [ofBytes, List.length_cons, hpow]
      omega

/-- An unsigned 32-bit field. -/
def toUInt32 (bytes : Bytes) : UInt32 := UInt32.ofNat (ofBytes bytes)

/-- A signed 32-bit field, in two's complement. -/
def toInt32 (bytes : Bytes) : Int32 := (toUInt32 bytes).toInt32

end RttiProbe.Memory.Word
