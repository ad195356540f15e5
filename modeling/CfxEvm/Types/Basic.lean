import CfxEvm.Lib.Prog
import CfxEvm.Lib.HashMap

/-!
# Words, addresses and panics

The fixed-width types of the program are bit vectors: `U256` and `H256` are 256 bits wide, `U512` is
512, an address is 160. `Space` has the one variant `Ethereum`, so an `AddressWithSpace` is its
address. The operators `+ - *` of `U256` panic when they overflow; every place where the program can
panic has a constructor in `Panic`.
-/

open Lib

namespace CfxEvm

abbrev U256 := BitVec 256

abbrev U512 := BitVec 512

abbrev H256 := BitVec 256

abbrev Address := BitVec 160

abbrev Bytes := List UInt8

/-- The Keccak-256 hash function. -/
class Keccak where
  /-- The hash of a byte string. -/
  keccak : Bytes → H256

export Keccak (keccak)

/-- The hash of the empty byte string. -/
def KECCAK_EMPTY [Keccak] : H256 := keccak []

/-- A hash function that agrees with Keccak-256 on the empty string, for runs on fixed inputs that
    hash nothing else. -/
@[reducible] def keccakOfEmpty : Keccak :=
  ⟨fun _ => 0xc5d2460186f7233c927e7db2dcc703c0e500b653ca82273b7bfad8045d85a470⟩

/-- A hash function that agrees with Keccak-256 on the empty string and on the code that is one
    `STOP`, for runs on fixed inputs that hash nothing else. -/
@[reducible] def keccakOfStop : Keccak :=
  ⟨fun bytes => if bytes.isEmpty then
      0xc5d2460186f7233c927e7db2dcc703c0e500b653ca82273b7bfad8045d85a470
    else 0xbc36789e7a1e281436464229828f817d6612f7b477d66591ff96a9e064bcc98a⟩

namespace Address

/-- The bits of the first byte that hold the type of the address. -/
def address_type_bits (a : Address) : Nat := (a.toNat >>> 152) &&& 0xf0

def TYPE_BITS_BUILTIN : Nat := 0x00

def is_null_address (a : Address) : Bool := a == 0

def is_builtin_address (a : Address) : Bool :=
  address_type_bits a == TYPE_BITS_BUILTIN && !is_null_address a

end Address

/-! ## Panics -/

/-- The places where the program can panic. -/
inductive Panic
  /-- `assert!` of `add_total_issued` on the open checkpoints. -/
  | add_total_issued_with_checkpoint
  /-- Overflow of `total_issued_tokens += v`. -/
  | total_issued_overflow
  /-- `assert!` of `commit` on the open checkpoints. -/
  | commit_with_checkpoint
  /-- Overflow of `nonce + 1`. -/
  | nonce_overflow
  /-- Overflow of `balance + by`. -/
  | balance_overflow
  /-- `assert!(self.balance >= *by)` of `sub_balance`. -/
  | balance_underflow
  /-- `expect` on the checkpoint of the world statistics. -/
  | statistics_checkpoint_missing
  /-- `expect` on a cache entry or account that was just ensured. -/
  | cache_entry_missing
  /-- `pop_back`, `peek` or `swap_with_top` below the bottom of the stack. -/
  | stack_out_of_range
  /-- `reader.code[position]` or the slice of `CodeReader::read` out of range. -/
  | code_out_of_range
  /-- A slice or byte of the memory out of range. -/
  | memory_out_of_range
  /-- Overflow of `+` on gas. -/
  | cost_overflow
  /-- Underflow of `-` on gas. -/
  | cost_underflow
  /-- `as_usize` of a `U256` cost that does not fit. -/
  | cost_as_usize
  /-- `Cost::from_u256(gas_left).expect(..)` of the resumed interpreter. -/
  | gas_left_cannot_be_greater
  /-- `assert_eq!(spec.quad_coeff_div, 512)`. -/
  | quad_coeff_div
  /-- `assert!(call_value_transfer_gas > call_stipend)`. -/
  | overflow_possible
  /-- `expect` on the gas provided to a `CALL` or `CREATE`. -/
  | provided_missing
  /-- `expect` on the gasometer. -/
  | gasometer_missing
  /-- `expect` on the output range of a resumed call. -/
  | resume_output_range_missing
  /-- `panic!` on a step of an interpreter that has stopped. -/
  | already_stopped
  /-- Overflow of a `U256` operation of the host or of the copy instructions, or a `U512` that does
      not fit into a `U256`. -/
  | word_overflow
  /-- `expect` on the result of `check_static_flag`. -/
  | check_static_flag
  /-- `panic!` or `assert_eq!` on the status or kind of a frame. -/
  | frame_status
  /-- `expect` on the code of the parameters that an interpreter is created with. -/
  | code_missing
  /-- `unreachable!` on a creation whose value is only apparent. -/
  | create_value_apparent
  /-- `expect` on the address of a creation that succeeded. -/
  | create_address_missing
  /-- `expect`, overflow or underflow on the counters of the call stack. -/
  | callstack_counter
  /-- `unwrap` on the checkpoints of the tracer. -/
  | tracer_checkpoint_missing
  /-- The slice of the data that the tracer copies from the result of a frame. -/
  | trace_data_out_of_range
  /-- `expect` on the address of a creation whose result the tracer records. -/
  | trace_address_missing
  /-- `unwrap` on the levels of the gas observer. -/
  | gas_record_missing
  /-- Overflow of the arithmetic of the gas observer. -/
  | gas_record_overflow
  /-- Overflow of the limit that is estimated from what the gas observer has recorded. -/
  | gas_estimate_overflow
  /-- `assert_eq!` of the writer of ABI lists. -/
  | abi_heads_length
  /-- `expect` on the event that reports the outcome of a cross-space call. -/
  | return_event
  /-- Overflow of the gas arithmetic of an internal contract. -/
  | internal_gas_overflow
  /-- Overflow or failing conversion in the executor of transactions. -/
  | executor_overflow
  /-- `*tx.gas() - gas_left` of the executor. -/
  | gas_used_underflow
  /-- `unwrap` on the estimated gas limit, or `assert!(!request.has_storage_limit)`. -/
  | estimate_request
  deriving DecidableEq, Repr

/-! ## Arithmetic -/

namespace U256

def checked_add (a b : U256) : Option U256 :=
  if a.toNat + b.toNat < 2 ^ 256 then some (a + b) else none

def checked_sub (a b : U256) : Option U256 :=
  if b.toNat ≤ a.toNat then some (a - b) else none

def checked_mul (a b : U256) : Option U256 :=
  if a.toNat * b.toNat < 2 ^ 256 then some (a * b) else none

/-- The value as a `u64`; none where it has more bits. -/
def as_u64 (a : U256) : Option Nat := if a.toNat < 2 ^ 64 then some a.toNat else none

/-- The whole product. -/
def full_mul (a b : U256) : U512 := a.setWidth 512 * b.setWidth 512

def saturating_add (a b : U256) : U256 := (checked_add a b).getD (BitVec.allOnes 256)

def saturating_sub (a b : U256) : U256 := (checked_sub a b).getD 0

def saturating_mul (a b : U256) : U256 := (checked_mul a b).getD (BitVec.allOnes 256)

variable {a b c : U256}

@[simp] theorem checked_add_eq_some :
    checked_add a b = some c ↔ c.toNat = a.toNat + b.toNat := by
  unfold checked_add
  split
  · rw [Option.some_inj, ← BitVec.toNat_inj, BitVec.toNat_add, Nat.mod_eq_of_lt ‹_›, eq_comm]
  · have := c.isLt
    simp only [reduceCtorEq, false_iff]
    omega

@[simp] theorem checked_sub_eq_some :
    checked_sub a b = some c ↔ c.toNat + b.toNat = a.toNat := by
  unfold checked_sub
  split
  · rename_i h
    rw [Option.some_inj, ← BitVec.toNat_inj, BitVec.toNat_sub_of_le (BitVec.le_def.mpr h)]
    omega
  · simp only [reduceCtorEq, false_iff]
    omega

@[simp] theorem checked_mul_eq_some :
    checked_mul a b = some c ↔ c.toNat = a.toNat * b.toNat := by
  unfold checked_mul
  split
  · rw [Option.some_inj, ← BitVec.toNat_inj, BitVec.toNat_mul, Nat.mod_eq_of_lt ‹_›, eq_comm]
  · have := c.isLt
    simp only [reduceCtorEq, false_iff]
    omega

theorem checked_add_eq_none : checked_add a b = none ↔ 2 ^ 256 ≤ a.toNat + b.toNat := by
  unfold checked_add
  split <;> simp only [reduceCtorEq, false_iff, true_iff] <;> omega

theorem checked_sub_eq_none : checked_sub a b = none ↔ a.toNat < b.toNat := by
  unfold checked_sub
  split <;> simp only [reduceCtorEq, false_iff, true_iff] <;> omega

theorem toNat_saturating_sub : (saturating_sub a b).toNat = a.toNat - b.toNat := by
  unfold saturating_sub
  rcases h : checked_sub a b with _ | c
  · have := checked_sub_eq_none.mp h
    have h0 : (0 : U256).toNat = 0 := rfl
    simp only [Option.getD_none]
    omega
  · have := checked_sub_eq_some.mp h
    simp only [Option.getD_some]
    omega

theorem toNat_saturating_add :
    (saturating_add a b).toNat = min (a.toNat + b.toNat) (2 ^ 256 - 1) := by
  unfold saturating_add
  rcases h : checked_add a b with _ | c
  · have := checked_add_eq_none.mp h
    simp only [Option.getD_none, BitVec.toNat_allOnes]
    omega
  · have := checked_add_eq_some.mp h
    have := c.isLt
    simp only [Option.getD_some]
    omega

theorem toNat_saturating_mul :
    (saturating_mul a b).toNat = min (a.toNat * b.toNat) (2 ^ 256 - 1) := by
  unfold saturating_mul checked_mul
  split
  · rw [Option.getD_some, BitVec.toNat_mul, Nat.mod_eq_of_lt ‹_›]
    omega
  · simp only [Option.getD_none, BitVec.toNat_allOnes]
    omega

@[simp] theorem as_u64_eq_some {n : Nat} : as_u64 a = some n ↔ a.toNat < 2 ^ 64 ∧ n = a.toNat := by
  unfold as_u64
  split
  · rename_i h
    rw [Option.some_inj, eq_comm, and_iff_right h]
  · rename_i h
    simp only [reduceCtorEq, false_iff, not_and]
    exact fun hlt => absurd hlt h

theorem as_u64_eq_none : as_u64 a = none ↔ 2 ^ 64 ≤ a.toNat := by
  unfold as_u64
  split <;> simp only [reduceCtorEq, false_iff, true_iff] <;> omega

theorem toNat_full_mul (a b : U256) : (full_mul a b).toNat = a.toNat * b.toNat := by
  have hlt : a.toNat * b.toNat < 2 ^ 256 * 2 ^ 256 := Nat.mul_lt_mul'' a.isLt b.isLt
  rw [full_mul, BitVec.toNat_mul, BitVec.toNat_setWidth_of_le (by decide),
    BitVec.toNat_setWidth_of_le (by decide)]
  exact Nat.mod_eq_of_lt (by omega)

/-- `U256::try_from` of a `U512`. -/
def try_from (x : U512) : Option U256 :=
  if x.toNat < 2 ^ 256 then some (x.setWidth 256) else none

theorem try_from_eq_some {x : U512} : try_from x = some a ↔ a.toNat = x.toNat := by
  unfold try_from
  split
  · rw [Option.some_inj, ← BitVec.toNat_inj, BitVec.toNat_setWidth, Nat.mod_eq_of_lt ‹_›, eq_comm]
  · have := a.isLt
    simp only [reduceCtorEq, false_iff]
    omega

theorem try_from_eq_none {x : U512} : try_from x = none ↔ 2 ^ 256 ≤ x.toNat := by
  unfold try_from
  split <;> simp only [reduceCtorEq, false_iff, true_iff] <;> omega

end U256

namespace U512

def of_u256 (a : U256) : U512 := a.setWidth 512

def checked_add (a b : U512) : Option U512 :=
  if a.toNat + b.toNat < 2 ^ 512 then some (a + b) else none

theorem toNat_of_u256 (a : U256) : (of_u256 a).toNat = a.toNat :=
  BitVec.toNat_setWidth_of_le (by decide)

variable {a b c : U512}

theorem checked_add_eq_some (h : checked_add a b = some c) : c.toNat = a.toNat + b.toNat := by
  unfold checked_add at h
  split at h
  · rename_i hlt
    cases h
    rw [BitVec.toNat_add]
    omega
  · cases h

theorem checked_add_eq_none : checked_add a b = none ↔ 2 ^ 512 ≤ a.toNat + b.toNat := by
  unfold checked_add
  split
  · rename_i h
    simp only [reduceCtorEq, false_iff, not_le]
    exact h
  · rename_i h
    exact iff_of_true rfl (not_lt.mp h)

-- To unfold it is to compute the bound.
attribute [irreducible] checked_add

end U512

end CfxEvm
