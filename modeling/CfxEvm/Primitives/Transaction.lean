import CfxEvm.Execution.Executor
import CfxEvm.Primitives.RlpTypes

/-!
# Transactions on the wire

How a transaction with its signature is written and read. The chain id and the parity of the
signature are one number on the wire. The hash of a transaction that is read is taken from the bytes
it is read from, and that of a transaction that is made here from the bytes it would be written
with.
-/

open Lib
open Lib.Rlp (Misuse DecoderError View rlp_bytes)

namespace CfxEvm

/-! ## The action -/

instance : Rlp.Encodable TxAction where
  rlp_append v s :=
    match v with
    | .Create => s.append_internal ([] : Bytes)
    | .Call address => s.append_internal address

instance : Rlp.Readable TxAction where
  read rlp := do
    if rlp.is_empty then return .Create else return .Call (← rlp.as_val)

/-! ## The signature

Replay protection logic for v part of transaction's signature. The arithmetic is that of `u64`. -/

namespace eip155_signature

/-- Adds chain id into v. -/
def add_chain_replay_protection (v : UInt8) (chain_id : Option UInt64) : UInt64 :=
  v.toUInt64 +
    match chain_id with
    | some n => 35 + n * 2
    | none => 27

/-- Returns refined v: 0 if `v` would have been 27 under "Electrum" notation, 1 if 28 or 4 if
    invalid. -/
def extract_standard_v (v : UInt64) : UInt8 :=
  if v = 27 then 0
  else if v = 28 then 1
  else if v ≥ 35 then ((v - 1) % 2).toUInt8
  else 4

def extract_chain_id_from_legacy_v (v : UInt64) : Option UInt64 :=
  if v ≥ 35 then some ((v - 35) / 2) else none

end eip155_signature

/-! ## Transactions -/

structure Eip155Transaction where
  nonce : U256
  gas_price : U256
  gas : U256
  action : TxAction
  value : U256
  chain_id : Option UInt32
  data : Bytes
  deriving DecidableEq

/-- Signed transaction information without verified signature. -/
structure TransactionWithSignatureSerializePart where
  unsigned : Eip155Transaction
  v : UInt8
  r : U256
  s : U256
  deriving DecidableEq

instance : Rlp.Encodable TransactionWithSignatureSerializePart where
  rlp_append tx s := do
    let legacy_v := eip155_signature.add_chain_replay_protection tx.v
      (tx.unsigned.chain_id.map (·.toUInt64))
    let s ← s.begin_list 9
    let s ← s.append tx.unsigned.nonce
    let s ← s.append tx.unsigned.gas_price
    let s ← s.append tx.unsigned.gas
    let s ← s.append tx.unsigned.action
    let s ← s.append tx.unsigned.value
    let s ← s.append tx.unsigned.data
    let s ← s.append legacy_v
    let s ← s.append tx.r
    s.append tx.s

/-- The chain id of a transaction on the wire, which takes at most 32 bits. -/
def read_chain_id (legacy_v : UInt64) : Except DecoderError (Option UInt32) :=
  match eip155_signature.extract_chain_id_from_legacy_v legacy_v with
  | some chain_id =>
    if chain_id > 0xffffffff then .error (.Custom "Does not support chain_id >= 2^32")
    else .ok (some chain_id.toUInt32)
  | none => .ok none

instance : Rlp.Readable TransactionWithSignatureSerializePart where
  read rlp := do
    match ← rlp.item_count with
    | 9 =>
      let nonce ← rlp.val_at 0
      let gas_price ← rlp.val_at 1
      let gas ← rlp.val_at 2
      let action ← rlp.val_at 3
      let value ← rlp.val_at 4
      let data ← rlp.val_at 5
      let legacy_v ← rlp.val_at 6
      let r ← rlp.val_at 7
      let s ← rlp.val_at 8
      let v := eip155_signature.extract_standard_v legacy_v
      let chain_id ← read_chain_id legacy_v
      return ⟨⟨nonce, gas_price, gas, action, value, chain_id, data⟩, v, r, s⟩
    | _ => .error .RlpInvalidLength

/-- Signed transaction information without verified signature, with the hash of the transaction and
    its size. -/
structure TransactionWithSignature where
  transaction : TransactionWithSignatureSerializePart
  hash : H256
  rlp_size : Option Nat
  deriving DecidableEq

instance : Rlp.Encodable TransactionWithSignature where
  rlp_append tx s := s.append_internal tx.transaction

section
variable [Keccak]

instance : Rlp.Readable TransactionWithSignature where
  read d := do
    let hash := keccak d.as_raw
    let rlp_size := some d.as_raw.length
    if (← d.item_count) ≠ 4 ∧ (← d.item_count) ≠ 9 then .error .RlpIncorrectListLen
    else
      let transaction ← d.as_val
      return ⟨transaction, hash, rlp_size⟩

namespace TransactionWithSignature

/-- Reads a transaction from its bytes. -/
def decode (bytes : Bytes) : Except DecoderError TransactionWithSignature :=
  View.as_val ⟨bytes⟩

/-- Used to compute hash of created transactions. -/
def compute_hash (self : TransactionWithSignature) : Except Misuse TransactionWithSignature := do
  let hash := keccak (← rlp_bytes self)
  return { self with hash := hash }

end TransactionWithSignature

end

end CfxEvm
