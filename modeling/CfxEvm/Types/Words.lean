import CfxEvm.Types.Basic

/-!
# Words as bytes

Conversions between words, addresses and byte strings, and the hash and RLP encodings that contract
addresses are made from.
-/

open Lib

namespace CfxEvm

/-- The bytes of `n` in `len` places, the most significant first. -/
def bigEndian (len n : Nat) : Bytes :=
  (List.range len).map fun i => UInt8.ofNat (n / 256 ^ (len - 1 - i))

theorem length_bigEndian (len n : Nat) : (bigEndian len n).length = len := by
  simp [bigEndian]

/-- The number with the given bytes, the most significant first. -/
def ofBigEndian (bytes : Bytes) : Nat := bytes.foldl (fun n b => n * 256 + b.toNat) 0

namespace U256

def to_big_endian (v : U256) : Bytes := bigEndian 32 v.toNat

def from_big_endian (bytes : Bytes) : U256 := BitVec.ofNat 256 (ofBigEndian bytes)

/-- The lowest 64 bits, as a `usize`. -/
def low_u64 (v : U256) : Nat := v.toNat % 2 ^ 64

def is_zero (v : U256) : Bool := v == 0

/-- The number of bits of the value, without leading zeros. -/
def bits (v : U256) : Nat := if v.toNat = 0 then 0 else Nat.log2 v.toNat + 1

theorem bits_le (v : U256) : bits v ≤ 256 := by
  unfold bits
  split
  · omega
  · have := (Nat.log2_lt ‹_›).mpr v.isLt
    omega

/-- Power by squaring, modulo `2 ^ 256`. -/
def overflowing_pow (base expon : U256) : U256 := go 256 base expon 1
where
  go : Nat → U256 → U256 → U256 → U256
    | 0, _, _, y => y
    | n + 1, x, e, y =>
      if e == 0 then y else go n (x * x) (e >>> 1) (if e &&& 1 == 1 then y * x else y)

end U256

namespace Address

def to_bytes (a : Address) : Bytes := bigEndian 20 a.toNat

/-- `Address::from(h)`: the last 20 bytes. -/
def from_hash (h : H256) : Address := h.setWidth 160

end Address

def u256_to_address (value : U256) : Address := value.setWidth 160

def address_to_u256 (value : Address) : U256 := value.setWidth 256

/-- The sender of unsigned transactions. -/
def UNSIGNED_SENDER : Address := BitVec.allOnes 160

/-! ## RLP -/

/-- A byte string of less than 56 bytes as an RLP item. -/
def rlpString (bytes : Bytes) : Bytes :=
  match bytes with
  | [b] => if b < 0x80 then [b] else [0x81, b]
  | _ => UInt8.ofNat (0x80 + bytes.length) :: bytes

/-- A number as an RLP item: its bytes without leading zeros. -/
def rlpNumber (v : U256) : Bytes := rlpString (bigEndian ((U256.bits v + 7) / 8) v.toNat)

/-- A list whose items take less than 56 bytes. -/
def rlpList (items : Bytes) : Bytes := UInt8.ofNat (0xc0 + items.length) :: items

/-- How the address of a new contract is computed. -/
inductive CreateContractAddress
  | FromSenderNonce
  | FromSenderSaltAndCodeHash (salt : H256)
  deriving DecidableEq, Repr

/-- Calculate new contract address. -/
def contract_address [Keccak] (address_scheme : CreateContractAddress) (sender : Address)
    (nonce : U256) (code : Bytes) : Address × Option H256 :=
  let code_hash := keccak code
  match address_scheme with
  | .FromSenderNonce =>
    let rlp := rlpList (rlpString sender.to_bytes ++ rlpNumber nonce)
    (Address.from_hash (keccak rlp), some code_hash)
  | .FromSenderSaltAndCodeHash salt =>
    let buffer := 0xff :: (sender.to_bytes ++ bigEndian 32 salt.toNat ++
      bigEndian 32 code_hash.toNat)
    (Address.from_hash (keccak buffer), some code_hash)

end CfxEvm
