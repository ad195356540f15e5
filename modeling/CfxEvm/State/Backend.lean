import CfxEvm.State.State
import CfxEvm.Types.Words

/-!
# The storage backend

The backend is a map from byte strings to byte strings; the three kinds of records of all addresses
share its keys. `Backend.db` is the database that a backend holds. A commit reaches the backend as a
list of writes (`State.commit_writes`), each of which deletes a record or encodes one.
-/

open Lib

namespace CfxEvm

/-- `OwnedStateKey`. -/
inductive StateKey
  | AccountKey (address : Address)
  | StorageKey (address : Address) (storage_key : Bytes)
  | CodeKey (address : Address)
  deriving DecidableEq, Repr

/-- The bytes of `"store"`. -/
def STORAGE_PREFIX : Bytes := [0x73, 0x74, 0x6f, 0x72, 0x65]

/-- The bytes of `"code"`. -/
def CODE_PREFIX : Bytes := [0x63, 0x6f, 0x64, 0x65]

/-- The key of the backend. -/
def StateKey.to_bytes : StateKey → Bytes
  | AccountKey a => a.to_bytes
  | StorageKey a k => a.to_bytes ++ STORAGE_PREFIX ++ k
  | CodeKey a => a.to_bytes ++ CODE_PREFIX

/-- The encodings of the records. A storage value and the total of issued tokens are both numbers
    but are encoded as different types. Every encoded record decodes to itself. -/
structure RecordCodec where
  encode_account : Account → Bytes
  decode_account : Bytes → Option Account
  encode_code : CodeInfo → Bytes
  decode_code : Bytes → Option CodeInfo
  encode_storage_value : U256 → Bytes
  decode_storage_value : Bytes → Option U256
  encode_u256 : U256 → Bytes
  decode_u256 : Bytes → Option U256
  account_round_trip : ∀ v, decode_account (encode_account v) = some v
  code_round_trip : ∀ v, decode_code (encode_code v) = some v
  storage_value_round_trip : ∀ v, decode_storage_value (encode_storage_value v) = some v
  u256_round_trip : ∀ v, decode_u256 (encode_u256 v) = some v

/-- The key of the total of issued tokens. -/
def TOTAL_KEY : StateKey := .StorageKey STORAGE_INTEREST_STAKING_CONTRACT_ADDRESS TOTAL_TOKENS_KEY

namespace RecordCodec

variable (codec : RecordCodec)

/-- Decodes the number under a storage key. -/
def decode_slot (a : Address) (k : Bytes) : Bytes → Option U256 :=
  if StateKey.StorageKey a k = TOTAL_KEY then codec.decode_u256 else codec.decode_storage_value

/-- Encodes the number under a storage key. -/
def encode_slot (a : Address) (k : Bytes) : U256 → Bytes :=
  if StateKey.StorageKey a k = TOTAL_KEY then codec.encode_u256 else codec.encode_storage_value

end RecordCodec

/-- `StorageTrait`: the bytes under each key. -/
abbrev Backend := Bytes → Option Bytes

namespace Backend

def get (b : Backend) (key : StateKey) : Option Bytes := b key.to_bytes

def set (b : Backend) (key : StateKey) (value : Bytes) : Backend :=
  Function.update b key.to_bytes (some value)

def delete (b : Backend) (key : StateKey) : Backend := Function.update b key.to_bytes none

/-- The database that the backend holds. -/
def db (codec : RecordCodec) (b : Backend) : StateDb where
  accounts a := (b.get (.AccountKey a)).bind codec.decode_account
  storage a k := (b.get (.StorageKey a k)).bind (codec.decode_slot a k)
  codes a := (b.get (.CodeKey a)).bind codec.decode_code

end Backend

/-! ## Writes -/

/-- A write to the database. -/
inductive DbWrite
  | delete_account (a : Address)
  | set_account (a : Address) (v : Account)
  | delete_storage (a : Address) (k : Bytes)
  | set_storage (a : Address) (k : Bytes) (v : U256)
  | set_code (a : Address) (v : CodeInfo)

section
variable [Keccak]

/-- The write on the database. -/
def DbWrite.onDb : DbWrite → StateDb → StateDb
  | delete_account a, db => db.delete_account a
  | set_account a v, db => db.set_account a v
  | delete_storage a k, db => db.delete_storage a k
  | set_storage a k v, db => db.set_storage a k v
  | set_code a v, db => db.set_code a v

/-- The write on the backend; a default value is deleted. -/
def DbWrite.onBackend (codec : RecordCodec) : DbWrite → Backend → Backend
  | delete_account a, b => b.delete (.AccountKey a)
  | set_account a v, b =>
    if v.is_default then b.delete (.AccountKey a)
      else b.set (.AccountKey a) (codec.encode_account v)
  | delete_storage a k, b => b.delete (.StorageKey a k)
  | set_storage a k v, b =>
    if v == 0 then b.delete (.StorageKey a k)
    else b.set (.StorageKey a k) (codec.encode_slot a k v)
  | set_code a v, b =>
    if v.code.length == 0 then b.delete (.CodeKey a) else b.set (.CodeKey a) (codec.encode_code v)

namespace State

variable [HashOrder]

/-- The writes of `OverlayAccount::commit`. -/
def account_writes (acc : OverlayAccount) (address : Address) : List DbWrite :=
  (if acc.invalidated_storage then [.delete_account acc.address] else []) ++
    acc.storage_value_write_cache.drain.map (fun kv =>
      if kv.2 == 0 then .delete_storage acc.address kv.1
      else .set_storage acc.address kv.1 kv.2) ++
    (match acc.code with
      | some code_info => [.set_code acc.address code_info]
      | none => []) ++
    [.set_account address acc.as_account]

/-- The writes of one round of the loop of `commit`. -/
def entry_writes (e : Sigma fun _ : Address => AccountEntry) : List DbWrite :=
  match e.2.account with
  | none => []
  | some account => if account.removed_without_update then [] else account_writes account e.1

/-- The address of an entry, if its account was removed. -/
def killed_address (e : Sigma fun _ : Address => AccountEntry) : Option Address :=
  match e.2.account with
  | none => none
  | some account => if account.removed_without_update then some e.1 else none

/-- What a commit writes, in order. -/
def commit_writes (s : State) : List DbWrite :=
  let sorted_dirty_accounts := s.cache.drain.insertionSort fun a b => a.1.toNat ≤ b.1.toNat
  sorted_dirty_accounts.flatMap entry_writes ++
    (sorted_dirty_accounts.filterMap killed_address).map .delete_account ++
    [.set_storage STORAGE_INTEREST_STAKING_CONTRACT_ADDRESS TOTAL_TOKENS_KEY s.total_issued_tokens]

/-- The backend after a commit. -/
def commit_backend (codec : RecordCodec) (s : State) (b : Backend) : Backend :=
  s.commit_writes.foldl (fun b write => write.onBackend codec b) b

end State

end

end CfxEvm
