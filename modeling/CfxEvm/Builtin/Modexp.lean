import CfxEvm.Types.Words

/-!
# Modular exponentiation

The builtin contract of EIP-198: its price and its implementation. Both read the lengths of the
base, the exponent and the modulus from the front of the input, which is extended by zeros, each in
its own way. Big numbers are natural numbers.
-/

open Lib

namespace CfxEvm

/-- Where the arithmetic on `u64` and slices can panic. -/
inductive BuiltinPanic
  | add_overflow
  | sub_underflow
  | mul_overflow
  | slice_out_of_range
  | divide_by_zero
  deriving DecidableEq, Repr

namespace U64

/-- `a + b` on `u64`. -/
def add (a b : Nat) : Except BuiltinPanic Nat :=
  if a + b < 2 ^ 64 then .ok (a + b) else .error .add_overflow

def sub (a b : Nat) : Except BuiltinPanic Nat :=
  if b ≤ a then .ok (a - b) else .error .sub_underflow

def mul (a b : Nat) : Except BuiltinPanic Nat :=
  if a * b < 2 ^ 64 then .ok (a * b) else .error .mul_overflow

def overflowing_mul (a b : Nat) : Nat × Bool := (a * b % 2 ^ 64, 2 ^ 64 ≤ a * b)

def div (a b : Nat) : Except BuiltinPanic Nat :=
  if b = 0 then .error .divide_by_zero else .ok (a / b)

end U64

/-- `read_exact` on what is left of `input.chain(io::repeat(0))`: the next bytes, and what is left
    then. -/
def read_exact (reader : Bytes) (len : Nat) : Bytes × Bytes :=
  (reader.take len ++ List.replicate (len - reader.length) 0, reader.drop len)

/-! ## The price -/

/-- A special pricing model for modular exponentiation. -/
structure ModexpPricer where
  divisor : Nat

namespace ModexpPricer

def adjusted_exp_len (len : Nat) (exp_low : U256) : Except BuiltinPanic Nat := do
  let bit_index := if exp_low.is_zero then 0 else 255 - (256 - U256.bits exp_low)
  if len ≤ 32 then return bit_index
  else U64.add (← U64.mul 8 (← U64.sub len 32)) bit_index

def mult_complexity (x : Nat) : Except BuiltinPanic Nat := do
  if x ≤ 64 then U64.mul x x
  else if x ≤ 1024 then
    U64.sub (← U64.add ((← U64.mul x x) / 4) (← U64.mul 96 x)) 3072
  else U64.sub (← U64.add ((← U64.mul x x) / 16) (← U64.mul 480 x)) 199680

/-- The three lengths, as words. -/
def read_lens (input : Bytes) : U256 × U256 × U256 :=
  let (buf, reader) := read_exact input 32
  let base_len := U256.from_big_endian buf
  let (buf, reader) := read_exact reader 32
  let exp_len := U256.from_big_endian buf
  let (buf, _) := read_exact reader 32
  let mod_len := U256.from_big_endian buf
  (base_len, exp_len, mod_len)

/-- The first 32-byte word of the exponent. -/
def exp_low (input : Bytes) (base_len exp_len : Nat) : Except BuiltinPanic U256 := do
  if (← U64.add base_len 96) ≥ input.length then return 0
  else if input.length < 96 + base_len then throw .slice_out_of_range
  else
    let len := min exp_len 32
    let (buf, _) := read_exact (input.drop (96 + base_len)) len
    return U256.from_big_endian (List.replicate (32 - len) 0 ++ buf)

def cost (self : ModexpPricer) (input : Bytes) : Except BuiltinPanic U256 := do
  let (base_len, exp_len, mod_len) := read_lens input
  if mod_len.is_zero && base_len.is_zero then return 0
  else
    let max_len := 0xffffffff / 2
    if base_len.toNat > max_len || mod_len.toNat > max_len || exp_len.toNat > max_len then
      return BitVec.allOnes 256
    else
      let base_len := base_len.low_u64
      let exp_len := exp_len.low_u64
      let mod_len := mod_len.low_u64
      let m := max mod_len base_len
      let exp_low ← exp_low input base_len exp_len
      let adjusted_exp_len ← adjusted_exp_len exp_len exp_low
      let (gas, overflow) := U64.overflowing_mul (← mult_complexity m) (max adjusted_exp_len 1)
      if overflow then return BitVec.allOnes 256
      else return BitVec.ofNat 256 (← U64.div gas self.divisor)

end ModexpPricer

/-! ## The implementation -/

/-- One round of the inner loop of `modexp`, on the result so far and the mask. -/
def modexp_bit (base modulus : Nat) (digit : UInt8) (s : Nat × UInt8) : Nat × UInt8 :=
  let result := s.1 * s.1 % modulus
  let result := if digit &&& s.2 > 0 then result * base % modulus else result
  (result, s.2 >>> 1)

/-- One round of the outer loop. -/
def modexp_digit (base modulus : Nat) (result : Nat) (digit : UInt8) : Nat :=
  ((List.range 8).foldl (fun s _ => modexp_bit base modulus digit s) (result, (1 : UInt8) <<< 7)).1

/-- Left-to-right binary exponentiation. -/
def modexp (base : Nat) (exp : Bytes) (modulus : Nat) : Nat :=
  if modulus ≤ 1 then 0
  else
    let exp := exp.dropWhile (· == 0)
    if exp.isEmpty then 1
    else if base = 0 then 0
    else
      let base := base % modulus
      if base = 0 then 0
      else exp.foldl (modexp_digit base modulus) 1

/-- What the crates for big numbers and for byte buffers do: the big-endian bytes of a number, and
    `write` at an offset of a flexible buffer. -/
structure ByteLibrary where
  to_bytes_be : Nat → Bytes
  write : Bytes → Nat → Bytes → Bytes

namespace ModexpImpl

/-- A length, read as a `usize` from the last eight bytes of a word. -/
def read_len (reader : Bytes) : Nat × Bytes :=
  let (buf, reader) := read_exact reader 32
  (ofBigEndian (buf.drop 24), reader)

/-- A number of so many bytes. -/
def read_num (reader : Bytes) (len : Nat) : Nat × Bytes :=
  let (buf, reader) := read_exact reader len
  (ofBigEndian buf, reader)

/-- The lengths of the base, the exponent and the modulus, and what is left of the input. -/
def read_lens (input : Bytes) : (Nat × Nat × Nat) × Bytes :=
  let (base_len, reader) := read_len input
  let (exp_len, reader) := read_len reader
  let (mod_len, reader) := read_len reader
  ((base_len, exp_len, mod_len), reader)

/-- The numbers themselves; the exponent stays in bytes. -/
def read_nums (reader : Bytes) (base_len exp_len mod_len : Nat) : Nat × Bytes × Nat :=
  let (base, reader) := read_num reader base_len
  let (exp_buf, reader) := read_exact reader exp_len
  let (modulus, _) := read_num reader mod_len
  (base, exp_buf, modulus)

/-- The output buffer after the execution, which does not fail. -/
def execute (lib : ByteLibrary) (input output : Bytes) : Bytes :=
  let ((base_len, exp_len, mod_len), reader) := read_lens input
  let r :=
    if base_len = 0 ∧ mod_len = 0 then 0
    else
      let (base, exp_buf, modulus) := read_nums reader base_len exp_len mod_len
      modexp base exp_buf modulus
  let bytes := lib.to_bytes_be r
  if bytes.length ≤ mod_len then lib.write output (mod_len - bytes.length) bytes else output

end ModexpImpl

end CfxEvm
