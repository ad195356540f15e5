import CfxEvm.Types.Words

/-!
# Word arithmetic

What the arithmetic and bit instructions compute from their operands, the first one popped first.
-/

open Lib

namespace CfxEvm

namespace Word

def bool_to_u256 (val : Bool) : U256 := if val then 1 else 0

def set_sign (value : U256) (sign : Bool) : U256 :=
  if sign then (BitVec.allOnes 256 ^^^ value) + 1 else value

/-- The absolute value and the sign of a two's-complement word. -/
def get_and_reset_sign (value : U256) : U256 × Bool :=
  let sign := value.msb
  (set_sign value sign, sign)

/-- The divisors for which the division is a shift, with the amount of the shift. -/
def pow_shifts : List (U256 × Nat) :=
  [(1, 0), (2, 1), (0x20, 5), (0x100, 8), (0x10000, 16), (0x1000000, 24), (1 <<< 64, 64),
    (1 <<< 96, 96), (1 <<< 224, 224), (1 <<< 248, 248)]

def div (a b : U256) : U256 :=
  if !b.is_zero then
    match pow_shifts.lookup b with
    | some shift => a >>> shift
    | none => a / b
  else 0

def mod (a b : U256) : U256 := if !b.is_zero then a % b else 0

def sdiv (a b : U256) : U256 :=
  let (a, sign_a) := get_and_reset_sign a
  let (b, sign_b) := get_and_reset_sign b
  let min := ((1 : U256) <<< 255) - 1
  if b.is_zero then 0
  else if a = min ∧ b = BitVec.allOnes 256 then min
  else set_sign (a / b) (sign_a ^^ sign_b)

def smod (ua ub : U256) : U256 :=
  let (a, sign_a) := get_and_reset_sign ua
  let b := (get_and_reset_sign ub).1
  if !b.is_zero then set_sign (a % b) sign_a else 0

def slt (a b : U256) : U256 :=
  let (a, neg_a) := get_and_reset_sign a
  let (b, neg_b) := get_and_reset_sign b
  let is_positive_lt := a.toNat < b.toNat && !(neg_a || neg_b)
  let is_negative_lt := b.toNat < a.toNat && (neg_a && neg_b)
  let has_different_signs := neg_a && !neg_b
  bool_to_u256 (is_positive_lt || is_negative_lt || has_different_signs)

def sgt (a b : U256) : U256 :=
  let (a, neg_a) := get_and_reset_sign a
  let (b, neg_b) := get_and_reset_sign b
  let is_positive_gt := b.toNat < a.toNat && !(neg_a || neg_b)
  let is_negative_gt := a.toNat < b.toNat && (neg_a && neg_b)
  let has_different_signs := !neg_a && neg_b
  bool_to_u256 (is_positive_gt || is_negative_gt || has_different_signs)

def byte (word val : U256) : U256 :=
  if word.toNat < 32 then (val >>> (8 * (31 - word.toNat))) &&& 0xff else 0

/-- The sum is taken in 512 bits. -/
def addmod (a b c : U256) : Option U256 :=
  if !c.is_zero then
    let res := a.setWidth 512 + b.setWidth 512
    U256.try_from (res % c.setWidth 512)
  else some 0

/-- The product is taken in 512 bits. -/
def mulmod (a b c : U256) : Option U256 :=
  if !c.is_zero then
    let res := a.setWidth 512 * b.setWidth 512
    U256.try_from (res % c.setWidth 512)
  else some 0

/-- The extension of `number` from a byte position below 32. -/
def signextend (bit number : U256) : U256 :=
  let bit_position := bit.toNat * 8 + 7
  let mask := ((1 : U256) <<< bit_position) - 1
  if number.getLsbD bit_position then number ||| ~~~mask else number &&& mask

def shl (shift value : U256) : U256 :=
  if 256 ≤ shift.toNat then 0 else value <<< shift.toNat

def shr (shift value : U256) : U256 :=
  if 256 ≤ shift.toNat then 0 else value >>> shift.toNat

def sar (shift value : U256) : U256 :=
  let sign := value.msb
  if 256 ≤ shift.toNat then
    if sign then BitVec.allOnes 256 else 0
  else
    let shifted := value >>> shift.toNat
    if sign then shifted ||| (BitVec.allOnes 256 <<< (256 - shift.toNat)) else shifted

end Word

end CfxEvm
