import RttiProbe.Text.Numeral
/-!
# Addresses and offsets

A target's memory is addressed with 64 bits.  Records of a 64-bit module refer to one another by
32-bit offsets from the module's base; those of a 32-bit module by absolute addresses, which is the
same thing over a base of zero.  Arithmetic on addresses never wraps: it has no result where the
exact one does not fit.
-/

set_option autoImplicit false

namespace RttiProbe.Memory

/-- A virtual address in the target. -/
structure Address where
  word : UInt64
  deriving DecidableEq, Repr, Inhabited

namespace Address

/-- The address as a number. -/
def toNat (a : Address) : Nat := a.word.toNat

theorem toNat_lt (a : Address) : a.toNat < UInt64.size := a.word.toNat_lt

theorem ext_toNat {a b : Address} (h : a.toNat = b.toNat) : a = b := by
  cases a; cases b; exact congrArg mk (UInt64.toNat.inj h)

/-- The address zero, which no object has. -/
def null : Address := ⟨0⟩

/-- Whether the address is zero. -/
def isNull (a : Address) : Bool := a.toNat == 0

/-- The address of a number, if it fits. -/
def ofNat? (n : Nat) : Option Address :=
  if n < UInt64.size then some ⟨UInt64.ofNat n⟩ else none

theorem ofNat?_eq_some_iff {n : Nat} {a : Address} : ofNat? n = some a ↔ a.toNat = n := by
  unfold ofNat?
  constructor
  · intro h
    split at h
    · obtain rfl := Option.some.inj h
      simpa [toNat] using ‹n < UInt64.size›
    · cases h
  · rintro rfl
    rw [if_pos a.toNat_lt]
    exact congrArg some (ext_toNat (by simp [toNat]))

theorem ofNat?_toNat (a : Address) : ofNat? a.toNat = some a := ofNat?_eq_some_iff.2 rfl

/-- The address `n` bytes further up. -/
def add? (a : Address) (n : Nat) : Option Address := ofNat? (a.toNat + n)

/-- The address `n` bytes further down. -/
def sub? (a : Address) (n : Nat) : Option Address :=
  if n ≤ a.toNat then ofNat? (a.toNat - n) else none

/-- Addresses are ordered as numbers. -/
def order (a b : Address) : Ordering := compare a.toNat b.toNat

/-- The text of an address: upper-case hexadecimal after `0x`. -/
def display (a : Address) : Text := "0x".toList ++ Text.Numeral.upperHex a.toNat

/-- Reads an address: hexadecimal after `0x` or `0X`, decimal otherwise, blanks around it
ignored. -/
def parse (s : Text) : Except Text.NumeralError Address :=
  let number :=
    match Text.trim s with
    | '0' :: 'x' :: rest | '0' :: 'X' :: rest => Text.Numeral.read 16 UInt64.size rest
    | s => Text.Numeral.read 10 UInt64.size s
  number.map fun n => ⟨UInt64.ofNat n⟩

end Address

/-- A 32-bit offset from the base of a module. -/
structure Offset where
  word : UInt32
  deriving DecidableEq, Repr, Inhabited

namespace Offset

/-- The offset as a number. -/
def toNat (o : Offset) : Nat := o.word.toNat

/-- The text of an offset, in the manner of an address. -/
def display (o : Offset) : Text := "0x".toList ++ Text.Numeral.upperHex o.toNat

/-- The offset as an address of its own. -/
def toAddress (o : Offset) : Address := ⟨o.word.toUInt64⟩

/-- The address an offset refers to in a module loaded at `base`. -/
def resolve (base : Address) (o : Offset) : Option Address := base.add? o.toNat

end Offset

/-- The size of a pointer in the target. -/
inductive PointerWidth where
  | bits32
  | bits64
  deriving DecidableEq, Repr, Inhabited

namespace PointerWidth

/-- The width of a 64-bit target if asked so, of a 32-bit target otherwise. -/
def of64 (is64Bit : Bool) : PointerWidth := if is64Bit then bits64 else bits32

/-- The number of bytes a pointer takes. -/
def bytes : PointerWidth → Nat
  | bits32 => 4
  | bits64 => 8

end PointerWidth

end RttiProbe.Memory
