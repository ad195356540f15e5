import CfxEvm.State.Account
import Mathlib.Data.List.Sort

/-!
# The state

`State` is a cache of accounts over the database. A checkpoint does not copy the cache: it is a
map that is filled lazily with the old value of each entry on the first write to it after the
checkpoint was made. `update_cache` moves the old entry there, `require_or_set` a clone of it;
`revert_to_checkpoint` puts the saved entries back and `discard_checkpoint` merges them into the
checkpoint below.

The vectors of checkpoints are lists with the last one at the head.
-/

open Lib

namespace CfxEvm

/-- Errors of the database. -/
inductive DbError
  | IncompleteDatabase (address : Address)
  deriving DecidableEq, Repr

inductive RequireCache
  | None
  | Code
  deriving DecidableEq, Repr

/-- What to do about empty and touched accounts; `TrackTouched` carries the set it adds to. -/
inductive CleanupMode
  | ForceCreate
  | NoEmpty
  | TrackTouched (touched : List Address)
  deriving DecidableEq, Repr

structure State where
  db : StateDb
  /-- Contents of the shared read caches. -/
  read_caches : CacheRef → HashMap Bytes U256
  /-- The next unused reference. -/
  next_ref : CacheRef
  cache : HashMap Address AccountEntry
  /-- The world statistics have this one field. -/
  total_issued_tokens : U256
  world_statistics_checkpoints : List U256
  checkpoints : List (HashMap Address (Option AccountEntry))

/-- Programs over the state. -/
abbrev StateM (α : Type) := Prog Panic State DbError α

namespace State

def new (db : StateDb) : State where
  db := db
  read_caches := fun _ => ∅
  next_ref := 0
  cache := ∅
  total_issued_tokens := db.get_total_issued_tokens
  world_statistics_checkpoints := []
  checkpoints := []

/-- A new empty read cache. -/
def alloc_read_cache : StateM CacheRef := do
  let ref ← Prog.gets next_ref
  Prog.update fun s =>
    { s with next_ref := ref + 1, read_caches := Function.update s.read_caches ref ∅ }
  return ref

/-- Replaces the entry of the cache. -/
def insert_cache (address : Address) (entry : AccountEntry) (s : State) : State :=
  { s with cache := s.cache.insert address entry }

/-- `checkpoint.entry(address).or_insert(old)` on the last checkpoint, if there is one. -/
def save_old (address : Address) (old : Option AccountEntry) (s : State) : State :=
  match s.checkpoints with
  | [] => s
  | c :: cs => { s with checkpoints := c.orInsert address old :: cs }

section
variable [Keccak]

/-! ## Loading -/

def needs_update (require : RequireCache) (account : OverlayAccount) : Bool :=
  match require with
  | .None => false
  | .Code => !account.is_code_loaded

/-- Load required account data from the database. Returns whether the cache succeeds. -/
def update_account_cache (require : RequireCache) (account : OverlayAccount) (db : StateDb) :
    Bool × OverlayAccount :=
  match require with
  | .None => (true, account)
  | .Code => account.cache_code db

/-- The overlay account of the record in the database. -/
def load_account (address : Address) : StateM (Option OverlayAccount) := do
  match ← Prog.gets fun s => s.db.get_account address with
  | none => return none
  | some acc =>
    let ref ← alloc_read_cache
    return some (OverlayAccount.from_loaded address acc ref)

def insert_cache_if_fresh_account (address : Address) (maybe_account : Option OverlayAccount) :
    StateM Unit :=
  Prog.update fun s =>
    if address ∈ s.cache then s else s.insert_cache address (.new_clean maybe_account)

/-- The account at the address, with the code loaded if it is required. -/
def ensure_account_loaded (address : Address) (require : RequireCache) :
    StateM (Option OverlayAccount) := do
  match ← Prog.gets fun s => s.cache.lookup address with
  | some ⟨some account, _⟩ =>
    if needs_update require account then update_loaded else return some account
  | some ⟨none, _⟩ => return none
  | none =>
    let db ← Prog.gets db
    let maybe_loaded_acc ← load_account address
    insert_cache_if_fresh_account address
      (maybe_loaded_acc.map fun account => (update_account_cache require account db).2)
    update_loaded
where
  /-- The part under the write lock: the entry is in the cache now. -/
  update_loaded : StateM (Option OverlayAccount) := do
    let db ← Prog.gets db
    let entry ← Prog.expect .cache_entry_missing (← Prog.gets fun s => s.cache.lookup address)
    match entry.account with
    | none => return none
    | some acc =>
      let (succeeds, acc) := update_account_cache require acc db
      Prog.update (insert_cache address { entry with account := some acc })
      if !succeeds then Prog.fail (.IncompleteDatabase acc.address)
      return some acc

/-- Loads the entry at the address into the cache unless it is there. -/
def load_if_missing (address : Address) : StateM Unit := do
  if (← Prog.gets fun s => s.cache.lookup address).isNone then
    let account ← load_account address
    insert_cache_if_fresh_account address account

/-- Saves the value before modification into the checkpoint, and sets the dirty flag. -/
def mark_dirty (address : Address) : StateM AccountEntry := do
  Prog.update fun s => s.save_old address ((s.cache.lookup address).map AccountEntry.clone_dirty)
  let entry ← Prog.expect .cache_entry_missing (← Prog.gets fun s => s.cache.lookup address)
  let entry := { entry with state := .Dirty }
  Prog.update (insert_cache address entry)
  return entry

/-- The account at the address, made by `default` if there is none. The entry stays dirty when
    `default` fails. The caller writes through `write_account`. -/
def require_or_set (address : Address) (require_code : Bool)
    (default : Address → StateM OverlayAccount) : StateM OverlayAccount := do
  load_if_missing address
  let entry ← mark_dirty address
  let acc ← match entry.account with
    | some acc => pure acc
    | none => default address
  Prog.update (insert_cache address { entry with account := some acc })
  if require_code then
    let db ← Prog.gets db
    let (succeeds, acc) := update_account_cache .Code acc db
    Prog.update (insert_cache address { entry with account := some acc })
    if !succeeds then Prog.fail (.IncompleteDatabase address)
    return acc
  else
    return acc

def require_exists (address : Address) (require_code : Bool) : StateM OverlayAccount :=
  require_or_set address require_code fun address => Prog.fail (.IncompleteDatabase address)

def require_or_new_basic_account (address : Address) (account_start_nonce : U256) :
    StateM OverlayAccount :=
  require_or_set address false fun address => do
    let ref ← alloc_read_cache
    return OverlayAccount.new_basic address 0 account_start_nonce ref

/-- A write through the guard that `require_or_set` returned: `account` replaces the account of
    the entry. -/
def write_account (address : Address) (account : Except Panic OverlayAccount) : StateM Unit := do
  match account with
  | .error p => Prog.abort p
  | .ok acc =>
    let entry ← Prog.expect .cache_entry_missing (← Prog.gets fun s => s.cache.lookup address)
    Prog.update (insert_cache address { entry with account := some acc })

def update_cache (address : Address) (account : AccountEntry) : StateM Unit :=
  Prog.update fun s =>
    let old_value := s.cache.lookup address
    let s := s.insert_cache address account
    if account.is_dirty then s.save_old address old_value else s

/-! ## Reads -/

def balance (address : Address) : StateM U256 := do
  return ((← ensure_account_loaded address .None).map OverlayAccount.balance).getD 0

def is_contract_with_code (address : Address) : StateM Bool := do
  return (← ensure_account_loaded address .None).any fun acc => acc.code_hash != KECCAK_EMPTY

def nonce (address : Address) : StateM U256 := do
  return ((← ensure_account_loaded address .None).map OverlayAccount.nonce).getD 0

def code_hash (address : Address) : StateM (Option H256) := do
  return (← ensure_account_loaded address .None).map OverlayAccount.code_hash

def code_size (address : Address) : StateM (Option Nat) := do
  return ((← ensure_account_loaded address .Code).bind OverlayAccount.code).map CodeInfo.code_size

def code (address : Address) : StateM (Option Bytes) := do
  return ((← ensure_account_loaded address .Code).bind OverlayAccount.code).map CodeInfo.code

def «exists» (address : Address) : StateM Bool := do
  return (← ensure_account_loaded address .None).isSome

def exists_and_not_null (address : Address) : StateM Bool := do
  return (← ensure_account_loaded address .None).any fun acc => !acc.is_null

/-- The value in the caches of the account, the write cache first. -/
def cached_storage_at (acc : OverlayAccount) (key : Bytes) (s : State) : Option U256 :=
  match acc.storage_value_write_cache.lookup key with
  | some value => some value
  | none => (s.read_caches acc.storage_value_read_cache).lookup key

/-- Puts a value into the shared read cache. -/
def insert_read_cache (ref : CacheRef) (key : Bytes) (value : U256) (s : State) : State :=
  { s with
    read_caches := Function.update s.read_caches ref ((s.read_caches ref).insert key value) }

/-- Reads the storage of an account and remembers what the database holds. -/
def account_storage_at (acc : OverlayAccount) (key : Bytes) : StateM U256 := do
  match ← Prog.gets (cached_storage_at acc key) with
  | some value => return value
  | none =>
    if acc.fresh_storage then return 0
    else
      let value := ((← Prog.gets db).get_storage acc.address key).getD 0
      Prog.update (insert_read_cache acc.storage_value_read_cache key value)
      return value

def storage_at (address : Address) (key : Bytes) : StateM U256 := do
  match ← ensure_account_loaded address .None with
  | none => return 0
  | some account => account_storage_at account key

/-! ## Writes -/

def add_total_issued (v : U256) : StateM Unit := do
  Prog.assert (← Prog.gets fun s => s.world_statistics_checkpoints.isEmpty)
    .add_total_issued_with_checkpoint
  let total ← Prog.expect .total_issued_overflow
    (U256.checked_add (← Prog.gets total_issued_tokens) v)
  Prog.update fun s => { s with total_issued_tokens := total }

def subtract_total_issued (v : U256) : StateM Unit :=
  Prog.update fun s =>
    { s with total_issued_tokens := U256.saturating_sub s.total_issued_tokens v }

def new_contract (contract : Address) (balance nonce : U256) : StateM Unit := do
  -- Check if the new contract is deployed on a killed contract in the same block.
  let overlay ← ensure_account_loaded contract .None
  let invalidated_storage := overlay.any OverlayAccount.invalidated_storage
  let ref ← alloc_read_cache
  update_cache contract
    (.new_dirty (some (.new_contract contract balance nonce invalidated_storage ref)))

def init_code (address : Address) (code : Bytes) : StateM Unit := do
  let acc ← require_exists address false
  write_account address (.ok (acc.init_code code))

def clean_account (address : Address) : StateM Unit := do
  let _ ← require_or_new_basic_account address 0
  let ref ← alloc_read_cache
  write_account address (.ok (.from_loaded address .new_empty ref))

def inc_nonce (address : Address) (account_start_nonce : U256) : StateM Unit := do
  let acc ← require_or_new_basic_account address account_start_nonce
  write_account address acc.inc_nonce

def set_nonce (address : Address) (nonce : U256) : StateM Unit := do
  let acc ← require_or_new_basic_account address nonce
  write_account address (.ok (acc.set_nonce nonce))

/-- Adds the address to the touched set if the mode keeps one and `touched` holds. -/
def track_touched (cleanup_mode : CleanupMode) (address : Address) (touched : Bool) :
    CleanupMode :=
  match cleanup_mode with
  | .TrackTouched set => if touched then .TrackTouched (set.insert address) else cleanup_mode
  | _ => cleanup_mode

def sub_balance (address : Address) (by_ : U256) (cleanup_mode : CleanupMode) :
    StateM CleanupMode := do
  Prog.when (by_ != 0) do
    let acc ← require_exists address false
    write_account address (acc.sub_balance by_)
  match cleanup_mode with
  | .TrackTouched _ => return track_touched cleanup_mode address (← «exists» address)
  | _ => return cleanup_mode

def add_balance (address : Address) (by_ : U256) (cleanup_mode : CleanupMode)
    (account_start_nonce : U256) : StateM CleanupMode := do
  let ex ← «exists» address
  Prog.when (by_ != 0 || (cleanup_mode == .ForceCreate && !ex)) do
    let acc ← require_or_new_basic_account address account_start_nonce
    write_account address (acc.add_balance by_)
  return track_touched cleanup_mode address ex

def transfer_balance (from_ to_ : Address) (by_ : U256) (cleanup_mode : CleanupMode)
    (account_start_nonce : U256) : StateM CleanupMode := do
  let cleanup_mode ← sub_balance from_ by_ cleanup_mode
  add_balance to_ by_ cleanup_mode account_start_nonce

def remove_contract (address : Address) : StateM Unit := do
  let ref ← alloc_read_cache
  update_cache address (.new_dirty (some (.new_removed address ref)))

def set_storage (address : Address) (key : Bytes) (value : U256) : StateM Unit := do
  let old ← storage_at address key
  Prog.when (old != value) do
    let acc ← require_exists address false
    write_account address (.ok (acc.set_storage key value))

end

/-! ## Checkpoints -/

def checkpoint : StateM Unit :=
  Prog.update fun s =>
    { s with
      world_statistics_checkpoints := s.total_issued_tokens :: s.world_statistics_checkpoints
      checkpoints := ∅ :: s.checkpoints }

section
variable [HashOrder]

/-- Merges a checkpoint into the previous one: the older saved value stays. -/
def merge_checkpoint (prev checkpoint : HashMap Address (Option AccountEntry)) :
    HashMap Address (Option AccountEntry) :=
  if prev.entries.isEmpty then checkpoint
  else checkpoint.drain.foldl (fun prev e => prev.orInsert e.1 e.2) prev

def discard_checkpoint : StateM Unit :=
  Prog.update fun s =>
    match s.checkpoints with
    | [] => s
    | checkpoint :: rest =>
      { s with
        world_statistics_checkpoints := s.world_statistics_checkpoints.tail
        checkpoints := match rest with
          | [] => []
          | prev :: rest => merge_checkpoint prev checkpoint :: rest }

/-- Puts one saved entry back. -/
def revert_entry (cache : HashMap Address AccountEntry)
    (saved : Sigma fun _ : Address => Option AccountEntry) : HashMap Address AccountEntry :=
  match saved.2, cache.lookup saved.1 with
  | some v, some e => cache.insert saved.1 (e.overwrite_with v)
  | some v, none => cache.insert saved.1 v
  | none, some e => if e.is_dirty then cache.erase saved.1 else cache
  | none, none => cache

def revert_to_checkpoint : StateM Unit := do
  match ← Prog.gets checkpoints with
  | [] => return ()
  | checkpoint :: rest =>
    match ← Prog.gets world_statistics_checkpoints with
    | [] => Prog.abort .statistics_checkpoint_missing
    | total :: totals =>
      Prog.update fun s =>
        { s with
          checkpoints := rest
          total_issued_tokens := total
          world_statistics_checkpoints := totals
          cache := checkpoint.drain.foldl revert_entry s.cache }

/-! ## Commit -/

variable [Keccak]

def recycle_storage (killed_addresses : List Address) (db : StateDb) : StateDb :=
  killed_addresses.foldl StateDb.delete_account db

/-- `OverlayAccount::commit`: writes the account, its code and its write cache. -/
def commit_account (acc : OverlayAccount) (address : Address) (db : StateDb) : StateDb :=
  let db := if acc.invalidated_storage then recycle_storage [acc.address] db else db
  let db := acc.storage_value_write_cache.drain.foldl
    (fun db kv => if kv.2 == 0 then db.delete_storage acc.address kv.1
      else db.set_storage acc.address kv.1 kv.2) db
  let db := match acc.code with
    | some code_info => db.set_code acc.address code_info
    | none => db
  db.set_account address acc.as_account

/-- One round of the loop of `commit`, over the addresses killed so far and the database. -/
def commit_entry (killed_db : List Address × StateDb)
    (e : Sigma fun _ : Address => AccountEntry) : List Address × StateDb :=
  match e.2.account with
  | none => killed_db
  | some account =>
    if account.removed_without_update then (killed_db.1 ++ [e.1], killed_db.2)
    else (killed_db.1, commit_account account e.1 killed_db.2)

def commit : StateM Unit := do
  Prog.assert (← Prog.gets fun s => s.checkpoints.isEmpty) .commit_with_checkpoint
  Prog.assert (← Prog.gets fun s => s.world_statistics_checkpoints.isEmpty)
    .commit_with_checkpoint
  Prog.update fun s =>
    let sorted_dirty_accounts := s.cache.drain.insertionSort fun a b => a.1.toNat ≤ b.1.toNat
    let (killed_addresses, db) := sorted_dirty_accounts.foldl commit_entry ([], s.db)
    let db := recycle_storage killed_addresses db
    -- The read caches are dropped with the last accounts that refer to them.
    { s with
      cache := ∅
      read_caches := fun _ => ∅
      db := db.set_total_issued_tokens s.total_issued_tokens }

end

end State

end CfxEvm
