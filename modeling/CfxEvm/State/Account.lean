import CfxEvm.Types.Basic

/-!
# Accounts, cache entries and the state database

An `OverlayAccount` is the in-memory copy of one account. Its storage has two caches: the write
cache holds the values set since the account was loaded, the read cache remembers what the
database holds. `clone_dirty` shares the read cache between the two copies (it is behind an
`Arc<RwLock<_>>`), so an account only holds a reference to it and the maps themselves are kept by
the state, under their references. The write cache is shared copy-on-write and so behaves as a
value.

The database is modelled at the level of its records: an account, a storage value or the code
under the key of an address. `set` deletes the record when the value is the default one.
-/

open Lib

namespace CfxEvm

/-! ## Records of the database -/

/-- The account record of the database. -/
structure Account where
  balance : U256
  nonce : U256
  code_hash : H256
  deriving DecidableEq, Repr

/-- The code record of the database. -/
structure CodeInfo where
  code : Bytes
  deriving DecidableEq, Repr

def CodeInfo.code_size (c : CodeInfo) : Nat := c.code.length

section
variable [Keccak]

def Account.new_empty : Account := ⟨0, 0, KECCAK_EMPTY⟩

def Account.is_default (a : Account) : Bool :=
  a.balance == 0 && a.nonce == 0 && a.code_hash == KECCAK_EMPTY

end

/-- The database, by the three kinds of its keys. -/
structure StateDb where
  /-- Records under `StateKey::AccountKey`. -/
  accounts : Address → Option Account
  /-- Records under `StateKey::StorageKey`. -/
  storage : Address → Bytes → Option U256
  /-- Records under `StateKey::CodeKey`. -/
  codes : Address → Option CodeInfo

/-- Address of the staking contract, under whose storage the total of issued tokens is kept. -/
def STORAGE_INTEREST_STAKING_CONTRACT_ADDRESS : Address :=
  0x0888000000000000000000000000000000000002

/-- The bytes of `"total_issued_tokens"`. -/
def TOTAL_TOKENS_KEY : Bytes :=
  [0x74, 0x6f, 0x74, 0x61, 0x6c, 0x5f, 0x69, 0x73, 0x73, 0x75, 0x65, 0x64, 0x5f, 0x74, 0x6f,
    0x6b, 0x65, 0x6e, 0x73]

namespace StateDb

/-- The database without records. -/
def empty : StateDb := ⟨fun _ => none, fun _ _ => none, fun _ => none⟩

def get_account (db : StateDb) (a : Address) : Option Account := db.accounts a

/-- A slot, as a number. What stands in the slot of the total is another record, which the source
    fails to decode as the value of a slot; no key of an instruction is that slot. -/
def get_storage (db : StateDb) (a : Address) (k : Bytes) : Option U256 := db.storage a k

/-- The code under the address; the hash is not looked at. -/
def get_code (db : StateDb) (a : Address) (_code_hash : H256) : Option CodeInfo := db.codes a

def delete_account (db : StateDb) (a : Address) : StateDb :=
  { db with accounts := Function.update db.accounts a none }

def set_account [Keccak] (db : StateDb) (a : Address) (v : Account) : StateDb :=
  if v.is_default then db.delete_account a
  else { db with accounts := Function.update db.accounts a (some v) }

def delete_storage (db : StateDb) (a : Address) (k : Bytes) : StateDb :=
  { db with storage := Function.update db.storage a (Function.update (db.storage a) k none) }

def set_storage (db : StateDb) (a : Address) (k : Bytes) (v : U256) : StateDb :=
  if v == 0 then db.delete_storage a k
  else
    { db with storage := Function.update db.storage a (Function.update (db.storage a) k (some v)) }

def set_code (db : StateDb) (a : Address) (v : CodeInfo) : StateDb :=
  if v.code.length == 0 then { db with codes := Function.update db.codes a none }
  else { db with codes := Function.update db.codes a (some v) }

def get_total_issued_tokens (db : StateDb) : U256 :=
  (db.get_storage STORAGE_INTEREST_STAKING_CONTRACT_ADDRESS TOTAL_TOKENS_KEY).getD 0

def set_total_issued_tokens (db : StateDb) (v : U256) : StateDb :=
  db.set_storage STORAGE_INTEREST_STAKING_CONTRACT_ADDRESS TOTAL_TOKENS_KEY v

end StateDb

/-! ## Overlay accounts -/

/-- A reference to a shared read cache. -/
abbrev CacheRef := Nat

/-- Single account in the system: the changes to its code and storage. -/
structure OverlayAccount where
  address : Address
  balance : U256
  nonce : U256
  storage_value_read_cache : CacheRef
  storage_value_write_cache : HashMap Bytes U256
  code_hash : H256
  code : Option CodeInfo
  is_newly_created_contract : Bool
  invalidated_storage : Bool

namespace OverlayAccount

section
variable [Keccak]

def from_loaded (address : Address) (account : Account) (ref : CacheRef) : OverlayAccount where
  address := address
  balance := account.balance
  nonce := account.nonce
  storage_value_read_cache := ref
  storage_value_write_cache := ∅
  code_hash := account.code_hash
  code := none
  is_newly_created_contract := false
  invalidated_storage := false

def new_basic (address : Address) (balance nonce : U256) (ref : CacheRef) : OverlayAccount where
  address := address
  balance := balance
  nonce := nonce
  storage_value_read_cache := ref
  storage_value_write_cache := ∅
  code_hash := KECCAK_EMPTY
  code := none
  is_newly_created_contract := false
  invalidated_storage := false

def new_removed (address : Address) (ref : CacheRef) : OverlayAccount where
  address := address
  balance := 0
  nonce := 0
  storage_value_read_cache := ref
  storage_value_write_cache := ∅
  code_hash := KECCAK_EMPTY
  code := none
  is_newly_created_contract := false
  invalidated_storage := true

def new_contract (address : Address) (balance nonce : U256) (invalidated_storage : Bool)
    (ref : CacheRef) : OverlayAccount where
  address := address
  balance := balance
  nonce := nonce
  storage_value_read_cache := ref
  storage_value_write_cache := ∅
  code_hash := KECCAK_EMPTY
  code := none
  is_newly_created_contract := true
  invalidated_storage := invalidated_storage

def as_account (acc : OverlayAccount) : Account := ⟨acc.balance, acc.nonce, acc.code_hash⟩

/-- The storage of the account does not look into the database. -/
def fresh_storage (acc : OverlayAccount) : Bool :=
  (acc.is_newly_created_contract && !acc.address.is_builtin_address) || acc.invalidated_storage

def removed_without_update (acc : OverlayAccount) : Bool :=
  acc.invalidated_storage && acc.as_account.is_default

def is_code_loaded (acc : OverlayAccount) : Bool :=
  acc.code.isSome || acc.code_hash == KECCAK_EMPTY

def is_null (acc : OverlayAccount) : Bool :=
  acc.balance == 0 && acc.nonce == 0 && acc.code_hash == KECCAK_EMPTY

def set_nonce (nonce : U256) (acc : OverlayAccount) : OverlayAccount := { acc with nonce := nonce }

def inc_nonce (acc : OverlayAccount) : Except Panic OverlayAccount :=
  match U256.checked_add acc.nonce 1 with
  | some nonce => .ok { acc with nonce := nonce }
  | none => .error .nonce_overflow

def add_balance (by_ : U256) (acc : OverlayAccount) : Except Panic OverlayAccount :=
  match U256.checked_add acc.balance by_ with
  | some balance => .ok { acc with balance := balance }
  | none => .error .balance_overflow

def sub_balance (by_ : U256) (acc : OverlayAccount) : Except Panic OverlayAccount :=
  match U256.checked_sub acc.balance by_ with
  | some balance => .ok { acc with balance := balance }
  | none => .error .balance_underflow

/-- Loads the code from the database unless it is there; returns whether it is there now. -/
def cache_code (db : StateDb) (acc : OverlayAccount) : Bool × OverlayAccount :=
  if acc.is_code_loaded then (true, acc)
  else
    let acc := { acc with code := db.get_code acc.address acc.code_hash }
    (acc.code.isSome, acc)

def set_storage (key : Bytes) (value : U256) (acc : OverlayAccount) : OverlayAccount :=
  { acc with storage_value_write_cache := acc.storage_value_write_cache.insert key value }

def init_code (code : Bytes) (acc : OverlayAccount) : OverlayAccount :=
  { acc with code_hash := keccak code, code := some ⟨code⟩ }

end

/-- The copy has the basic data, the write cache and the reference to the same read cache. -/
def clone_dirty (acc : OverlayAccount) : OverlayAccount where
  address := acc.address
  balance := acc.balance
  nonce := acc.nonce
  storage_value_read_cache := acc.storage_value_read_cache
  storage_value_write_cache := acc.storage_value_write_cache
  code_hash := acc.code_hash
  code := acc.code
  is_newly_created_contract := acc.is_newly_created_contract
  invalidated_storage := acc.invalidated_storage

/-- Takes over all of `other` but the address. -/
def overwrite_with (acc other : OverlayAccount) : OverlayAccount :=
  { acc with
    balance := other.balance
    nonce := other.nonce
    code_hash := other.code_hash
    code := other.code
    storage_value_read_cache := other.storage_value_read_cache
    storage_value_write_cache := other.storage_value_write_cache
    is_newly_created_contract := other.is_newly_created_contract
    invalidated_storage := other.invalidated_storage }

end OverlayAccount

/-! ## Cache entries -/

/-- Account modification state. -/
inductive AccountState
  | CleanFresh
  | CleanCached
  | Dirty
  | Committed
  deriving DecidableEq, Repr

/-- An existing (`some`) or non-existing account with its modification state. -/
structure AccountEntry where
  account : Option OverlayAccount
  state : AccountState

namespace AccountEntry

def is_dirty (e : AccountEntry) : Bool := e.state == .Dirty

def overwrite_with (e other : AccountEntry) : AccountEntry where
  state := other.state
  account := match other.account with
    | some acc => match e.account with
      | some ours => some (ours.overwrite_with acc)
      | none => some acc
    | none => none

def clone_dirty (e : AccountEntry) : AccountEntry where
  account := e.account.map OverlayAccount.clone_dirty
  state := e.state

def new_dirty (account : Option OverlayAccount) : AccountEntry := ⟨account, .Dirty⟩

def new_clean (account : Option OverlayAccount) : AccountEntry := ⟨account, .CleanFresh⟩

end AccountEntry

end CfxEvm
