import CfxEvm.Vm.Types

/-!
# Types for gas

The interpreter counts gas in a `usize` when the gas of the frame fits in 64 bits, else in a `U256`.
Both are bit vectors here. The operators `+` and `-` panic when they overflow; the operations named
`overflow_..` return the wrapped result and a flag.
-/

open Lib

namespace CfxEvm

/-- The type in which an interpreter counts gas. -/
inductive CostType
  | usize
  | U256
  deriving DecidableEq, Repr

def CostType.bits : CostType → Nat
  | .usize => 64
  | .U256 => 256

/-- An amount of gas, or of memory. -/
abbrev Cost (c : CostType) := BitVec c.bits

namespace Cost

variable {c : CostType}

/-- `Cost::from` of a `usize`. -/
def «from» (n : Nat) : Cost c := BitVec.ofNat c.bits n

/-- Converts this cost into `U256`. -/
def as_u256 (x : Cost c) : U256 := BitVec.ofNat 256 x.toNat

/-- Tries to fit `U256` into this `Cost` type. -/
def from_u256 (val : U256) : Except VmError (Cost c) :=
  if val.toNat < 2 ^ c.bits then .ok (BitVec.ofNat c.bits val.toNat) else .error .OutOfGas

/-- Convert to usize (may panic). -/
def as_usize (x : Cost c) : Option Nat := if x.toNat < 2 ^ 64 then some x.toNat else none

/-- Add with overflow. -/
def overflow_add (x y : Cost c) : Cost c × Bool := (x + y, 2 ^ c.bits ≤ x.toNat + y.toNat)

/-- Multiple with overflow. -/
def overflow_mul (x y : Cost c) : Cost c × Bool := (x * y, 2 ^ c.bits ≤ x.toNat * y.toNat)

/-- `(x * y) >> shr`, with an overflow of the product before the shift. -/
def overflow_mul_shr (x y : Cost c) (shr : Nat) : Cost c × Bool :=
  (BitVec.ofNat c.bits (x.toNat * y.toNat / 2 ^ shr), 2 ^ c.bits ≤ x.toNat * y.toNat)

/-- `overflowing!`: the value, or `OutOfGas` on overflow. -/
def overflowing (x : Cost c × Bool) : Except VmError (Cost c) :=
  if x.2 then .error .OutOfGas else .ok x.1

/-- `x + y`. -/
def checked_add (x y : Cost c) : Option (Cost c) :=
  if x.toNat + y.toNat < 2 ^ c.bits then some (x + y) else none

/-- `x - y`. -/
def checked_sub (x y : Cost c) : Option (Cost c) :=
  if y.toNat ≤ x.toNat then some (x - y) else none

/-! ## Values -/

theorem bits_le : c.bits ≤ 256 := by cases c <;> decide

theorem toNat_as_u256 (x : Cost c) : x.as_u256.toNat = x.toNat := by
  have h := x.isLt
  have hle : 2 ^ c.bits ≤ 2 ^ 256 := Nat.pow_le_pow_right (by decide) bits_le
  exact (BitVec.toNat_ofNat _ _).trans (Nat.mod_eq_of_lt (h.trans_le hle))

theorem toNat_from {n : Nat} (h : n < 2 ^ 64) : («from» n : Cost c).toNat = n := by
  have hle : 2 ^ 64 ≤ 2 ^ c.bits := by cases c <;> decide
  exact (BitVec.toNat_ofNat _ _).trans (Nat.mod_eq_of_lt (h.trans_le hle))

theorem toNat_of_from_u256 {v : U256} {x : Cost c} (h : from_u256 v = .ok x) :
    x.toNat = v.toNat := by
  unfold from_u256 at h
  split at h
  · rw [← Except.ok.inj h, BitVec.toNat_ofNat, Nat.mod_eq_of_lt ‹_›]
  · exact absurd h (by simp)

/-- The gas of a cost fits whatever is not above it. -/
theorem from_u256_of_lt {v : U256} (h : v.toNat < 2 ^ c.bits) :
    (from_u256 v : Except VmError (Cost c)) = .ok (BitVec.ofNat c.bits v.toNat) := if_pos h

theorem toNat_of_overflow_add {x y z : Cost c} (h : overflowing (overflow_add x y) = .ok z) :
    z.toNat = x.toNat + y.toNat := by
  unfold overflowing overflow_add at h
  split at h
  · exact absurd h (by simp)
  · rename_i hlt
    rw [← Except.ok.inj h, BitVec.toNat_add, Nat.mod_eq_of_lt (by simpa using hlt)]

theorem toNat_of_overflow_mul {x y z : Cost c} (h : overflowing (overflow_mul x y) = .ok z) :
    z.toNat = x.toNat * y.toNat := by
  unfold overflowing overflow_mul at h
  split at h
  · exact absurd h (by simp)
  · rename_i hlt
    rw [← Except.ok.inj h, BitVec.toNat_mul, Nat.mod_eq_of_lt (by simpa using hlt)]

theorem toNat_of_checked_add {x y z : Cost c} (h : checked_add x y = some z) :
    z.toNat = x.toNat + y.toNat := by
  unfold checked_add at h
  split at h
  · rw [← Option.some_inj.mp h, BitVec.toNat_add, Nat.mod_eq_of_lt ‹_›]
  · exact absurd h (by simp)

theorem checked_add_of_lt {x y : Cost c} (h : x.toNat + y.toNat < 2 ^ c.bits) :
    checked_add x y = some (x + y) := if_pos h

theorem toNat_of_checked_sub {x y z : Cost c} (h : checked_sub x y = some z) :
    z.toNat + y.toNat = x.toNat := by
  unfold checked_sub at h
  split at h
  · rename_i hle
    rw [← Option.some_inj.mp h, BitVec.toNat_sub_of_le (BitVec.le_def.mpr hle)]
    omega
  · exact absurd h (by simp)

end Cost

end CfxEvm
