import CfxEvm.Lib.Rlp
import CfxEvm.State.Backend

/-!
# Stored records

How the records of the database are written to the backend and read again. The encoders of the
accounts and of the storage values are derived from their fields, that of the code is written by
hand.
-/

open Lib
open Lib.Rlp (Item Misuse DecoderError bytesOf numberOf encodeValue decodeValue itemOf)

namespace CfxEvm

/-! ## Numbers, hashes and strings -/

/-- A number is written without leading zeros, and read only so. -/
instance : Rlp.Encodable U256 where
  rlp_append v s := .ok (s.encode_value (bytesOf v.toNat))

instance : Rlp.Decodable U256 where
  decode rlp := rlp.decode_value fun bytes =>
    if bytes.head? = some 0 then .error .RlpInvalidIndirection
    else if bytes.length ≤ 32 then .ok (BitVec.ofNat 256 (numberOf bytes))
    else .error .RlpIsTooBig

/-- A hash, which is written with all its bytes. -/
structure FixedHash where
  hash : H256
  deriving DecidableEq, Repr

instance : Rlp.Encodable FixedHash where
  rlp_append v s := .ok (s.encode_value (bigEndian 32 v.hash.toNat))

instance : Rlp.Decodable FixedHash where
  decode rlp := rlp.decode_value fun bytes =>
    if bytes.length < 32 then .error .RlpIsTooShort
    else if 32 < bytes.length then .error .RlpIsTooBig
    else .ok ⟨BitVec.ofNat 256 (ofBigEndian bytes)⟩

instance : Rlp.Encodable Bytes where
  rlp_append v s := .ok (s.encode_value v)

instance : Rlp.Decodable Bytes where
  decode rlp := rlp.decode_value .ok

/-! ## Records -/

instance : Rlp.Encodable CodeInfo where
  rlp_append v s := do
    let s ← s.begin_list 2
    s.append v.code

instance : Rlp.Decodable CodeInfo where
  decode rlp := do
    return ⟨← rlp.val_at 0⟩

structure StorageValue where
  value : U256
  deriving DecidableEq, Repr

instance : Rlp.Encodable StorageValue where
  rlp_append v s := do
    let s ← s.begin_list 1
    s.append v.value

instance : Rlp.Decodable StorageValue where
  decode rlp := do
    return ⟨← rlp.val_at 0⟩

/-- Defined for the serialization of accounts. -/
structure EthereumAccount where
  balance : U256
  nonce : U256
  code_hash : H256
  deriving DecidableEq, Repr

instance : Rlp.Encodable EthereumAccount where
  rlp_append v s := do
    let s ← s.begin_list 3
    let s ← s.append v.balance
    let s ← s.append v.nonce
    s.append (FixedHash.mk v.code_hash)

instance : Rlp.Decodable EthereumAccount where
  decode rlp := do
    let balance ← rlp.val_at 0
    let nonce ← rlp.val_at 1
    let code_hash : FixedHash ← rlp.val_at 2
    return ⟨balance, nonce, code_hash.hash⟩

/-- An account with its address, which is not part of the data that is stored. -/
structure AddressedAccount extends Account where
  address_local_info : Address
  deriving DecidableEq, Repr

namespace AddressedAccount

def to_evm_account (v : AddressedAccount) : EthereumAccount := ⟨v.balance, v.nonce, v.code_hash⟩

def from_ethereum_account (address : Address) (v : EthereumAccount) : AddressedAccount :=
  { balance := v.balance, nonce := v.nonce, code_hash := v.code_hash,
    address_local_info := address }

def new_from_rlp (address : Address) (rlp : Item) : Except DecoderError AddressedAccount := do
  match ← rlp.item_count with
  | 3 => return from_ethereum_account address (← Rlp.Decodable.decode rlp)
  | _ => .error .RlpIncorrectListLen

end AddressedAccount

instance : Rlp.Encodable AddressedAccount where
  rlp_append v s := s.append_internal v.to_evm_account

/-! ## The database -/

/-- Whether a value equals the initialization value, which the database treats as no value. -/
class IsDefault (α : Type) where
  is_default : α → Bool

instance [Keccak] : IsDefault AddressedAccount where
  is_default v := v.toAccount.is_default

instance : IsDefault CodeInfo where
  is_default v := v.code.length == 0

instance : IsDefault StorageValue where
  is_default v := v.value == 0

instance : IsDefault U256 where
  is_default v := v.is_zero

namespace StateDbExt

variable {α : Type}

/-- Writes a value, unless it is the default. -/
def set [Rlp.Encodable α] [IsDefault α] (key : StateKey) (value : α) (b : Backend) :
    Except Misuse Backend :=
  if IsDefault.is_default value then .ok (b.delete key)
  else do
    let raw ← encodeValue value
    return b.set key raw

def get (α : Type) [Rlp.Decodable α] (key : StateKey) (b : Backend) :
    Except DecoderError (Option α) :=
  match b.get key with
  | none => .ok none
  | some raw => do
    let value ← decodeValue raw
    return some value

def get_account (address : Address) (b : Backend) : Except DecoderError (Option AddressedAccount) :=
  match b.get (.AccountKey address) with
  | none => .ok none
  | some raw => do
    let account ← AddressedAccount.new_from_rlp address (← itemOf raw)
    return some account

def get_code (address : Address) (b : Backend) : Except DecoderError (Option CodeInfo) :=
  get CodeInfo (.CodeKey address) b

end StateDbExt

end CfxEvm
