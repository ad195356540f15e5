import Mathlib.Algebra.Group.Basic
import Mathlib.Data.Nat.Bitwise

/-!
# Exponents in binary

A power is computed from the bits of the exponent, the highest one first: square what there is so
far, and multiply by the base if the bit is set.
-/

namespace Lib

/-- The number whose bits come after those of `n`, the highest one first. -/
def pushBits (n : Nat) (bits : List Bool) : Nat := bits.foldl (fun n b => 2 * n + b.toNat) n

/-- The lowest `k` bits of `d`, the highest one first. -/
def lowBits (d : Nat) : Nat → List Bool
  | 0 => []
  | k + 1 => d.testBit k :: lowBits d k

theorem pushBits_lowBits (n d k : Nat) : pushBits n (lowBits d k) = n * 2 ^ k + d % 2 ^ k := by
  induction k generalizing n with
  | zero => simp [pushBits, lowBits, Nat.mod_one]
  | succ k ih =>
    show pushBits (2 * n + (d.testBit k).toNat) (lowBits d k) = _
    have hbit : d % 2 ^ (k + 1) = d % 2 ^ k + 2 ^ k * (d.testBit k).toNat := by
      rw [Nat.mod_pow_succ, Nat.toNat_testBit]
    rw [ih, hbit, Nat.pow_succ, Nat.add_mul, Nat.mul_comm (2 ^ k) (d.testBit k).toNat]
    have hassoc : 2 * n * 2 ^ k = n * (2 ^ k * 2) := by
      rw [Nat.mul_comm 2 n, Nat.mul_assoc, Nat.mul_comm 2]
    omega

/-- One bit of the exponent. -/
def squareMultiply {M : Type*} [Monoid M] (x r : M) (b : Bool) : M := if b then r * r * x else r * r

/-- Going over the bits of the exponent gives the power. -/
theorem foldl_squareMultiply {M : Type*} [Monoid M] (x : M) (n : Nat) (bits : List Bool) :
    bits.foldl (squareMultiply x) (x ^ n) = x ^ pushBits n bits := by
  induction bits generalizing n with
  | nil => rfl
  | cons b bits ih =>
    have hstep : squareMultiply x (x ^ n) b = x ^ (2 * n + b.toNat) := by
      rw [squareMultiply, two_mul]
      cases b with
      | false => exact (pow_add x n n).symm
      | true => rw [if_pos rfl, ← pow_add, ← pow_succ]; rfl
    rw [List.foldl_cons, hstep, ih]
    rfl

end Lib
