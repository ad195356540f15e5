import CfxEvm.Primitives.RlpTypes

/-!
# Block headers on the wire

A header is a list with a fixed part, the reference to a block of the proof-of-stake chain if there
is one, and then the custom items as they are. It is written with or without the hash of the proof
of work, and read accordingly. No tag tells whether there is a reference.
-/

open Lib
open Lib.Rlp (Misuse DecoderError RlpStream View)

namespace CfxEvm

def HEADER_LIST_MIN_LEN : Nat := 13

structure BlockHeaderRlpPart where
  parent_hash : FixedHash
  height : UInt64
  timestamp : UInt64
  author : Address
  transactions_root : FixedHash
  deferred_state_root : FixedHash
  deferred_receipts_root : FixedHash
  deferred_logs_bloom_hash : FixedHash
  blame : UInt32
  difficulty : U256
  adaptive : Bool
  gas_limit : U256
  referee_hashes : List FixedHash
  custom : List Bytes
  nonce : U256
  pos_reference : Option FixedHash
  deriving DecidableEq

structure BlockHeader where
  rlp_part : BlockHeaderRlpPart
  hash : Option H256
  pow_hash : Option FixedHash
  approximated_rlp_size : Nat
  deriving DecidableEq

namespace BlockHeader

/-- What all encoders begin with. -/
def append_fields (self : BlockHeader) (stream : RlpStream) : Except Misuse RlpStream := do
  let adaptive_n : UInt8 := if self.rlp_part.adaptive then 1 else 0
  let stream ← stream.append self.rlp_part.parent_hash
  let stream ← stream.append self.rlp_part.height
  let stream ← stream.append self.rlp_part.timestamp
  let stream ← stream.append self.rlp_part.author
  let stream ← stream.append self.rlp_part.transactions_root
  let stream ← stream.append self.rlp_part.deferred_state_root
  let stream ← stream.append self.rlp_part.deferred_receipts_root
  let stream ← stream.append self.rlp_part.deferred_logs_bloom_hash
  let stream ← stream.append self.rlp_part.blame
  let stream ← stream.append self.rlp_part.difficulty
  let stream ← stream.append adaptive_n
  let stream ← stream.append self.rlp_part.gas_limit
  stream.append_list self.rlp_part.referee_hashes

/-- What all encoders end with. -/
def append_tail (self : BlockHeader) (stream : RlpStream) : Except Misuse RlpStream := do
  let stream ←
    if self.rlp_part.pos_reference.isSome then stream.append self.rlp_part.pos_reference
    else pure stream
  self.rlp_part.custom.foldlM (fun stream b => stream.append_raw b) stream

/-- Place this header into an RLP stream. -/
def stream_rlp (self : BlockHeader) (stream : RlpStream) : Except Misuse RlpStream := do
  let list_len := HEADER_LIST_MIN_LEN + 1 + self.rlp_part.pos_reference.isSome.toNat +
    self.rlp_part.custom.length
  let stream ← stream.begin_list list_len
  let stream ← self.append_fields stream
  let stream ← stream.append self.rlp_part.nonce
  self.append_tail stream

/-- Place this header and its `pow_hash` into an RLP stream. -/
def stream_rlp_with_pow_hash (self : BlockHeader) (stream : RlpStream) :
    Except Misuse RlpStream := do
  let list_len := HEADER_LIST_MIN_LEN + 2 + self.rlp_part.pos_reference.isSome.toNat +
    self.rlp_part.custom.length
  let stream ← stream.begin_list list_len
  let stream ← self.append_fields stream
  let stream ← stream.append self.rlp_part.nonce
  let stream ← stream.append self.pow_hash
  self.append_tail stream

/-- Get the RLP representation of this header. -/
def rlp (self : BlockHeader) : Except Misuse Bytes := do
  let stream ← self.stream_rlp .new
  stream.out

/-- The representation with the hash of the proof of work. -/
def rlp_with_pow_hash (self : BlockHeader) : Except Misuse Bytes := do
  let stream ← self.stream_rlp_with_pow_hash .new
  stream.out

/-- The fields that both decoders read, without the reference and the custom items. -/
def read_fields (r : View) : Except DecoderError BlockHeaderRlpPart := do
  let parent_hash ← r.val_at 0
  let height ← r.val_at 1
  let timestamp ← r.val_at 2
  let author ← r.val_at 3
  let transactions_root ← r.val_at 4
  let deferred_state_root ← r.val_at 5
  let deferred_receipts_root ← r.val_at 6
  let deferred_logs_bloom_hash ← r.val_at 7
  let blame ← r.val_at 8
  let difficulty ← r.val_at 9
  let adaptive : UInt8 ← r.val_at 10
  let gas_limit ← r.val_at 11
  let referee_hashes ← r.list_at 12
  let nonce ← r.val_at 13
  return ⟨parent_hash, height, timestamp, author, transactions_root, deferred_state_root,
    deferred_receipts_root, deferred_logs_bloom_hash, blame, difficulty, adaptive == 1, gas_limit,
    referee_hashes, [], nonce, none⟩

/-- The reference, which is there if the item at its place can be read as one. -/
def read_pos_reference (r : View) (index : Nat) : Option FixedHash :=
  match (r.val_at index : Except DecoderError (Option FixedHash)) with
  | .ok pos_reference => pos_reference
  | .error _ => none

/-- The bytes of the items from the index on. All items have been counted before the first of them
    is asked for. -/
def read_custom (r : View) (index : Nat) : Except DecoderError (List Bytes) := do
  let count ← r.item_count
  (List.range' index (count - index)).mapM fun i => do
    let item ← if i = index then r.item_anew i else r.item_at i
    return item.as_raw

section
variable [Keccak]

/-- Compute the hash of the block, unless it is known. -/
def compute_hash (self : BlockHeader) : Except Misuse BlockHeader := do
  match self.hash with
  | some hash => return { self with hash := some hash }
  | none => return { self with hash := some (keccak (← self.rlp)) }

/-- Reads a header. Computing its hash at the end writes it again. -/
def decode (r : View) : Except DecoderError (Except Misuse BlockHeader) := do
  let rlp_size := r.as_raw.length
  let rlp_part ← read_fields r
  let pos_reference := read_pos_reference r 14
  let custom ← read_custom r (14 + pos_reference.isSome.toNat)
  return compute_hash
    ⟨{ rlp_part with pos_reference := pos_reference, custom := custom }, none, none, rlp_size⟩

def decode_with_pow_hash (bytes : Bytes) : Except DecoderError (Except Misuse BlockHeader) := do
  let r : View := ⟨bytes⟩
  let rlp_part ← read_fields r
  let pos_reference := read_pos_reference r 15
  let pow_hash ← r.val_anew 14
  let custom ← read_custom r (15 + pos_reference.isSome.toNat)
  return compute_hash
    ⟨{ rlp_part with pos_reference := pos_reference, custom := custom }, none, pow_hash,
      bytes.length⟩

end

end BlockHeader

end CfxEvm
