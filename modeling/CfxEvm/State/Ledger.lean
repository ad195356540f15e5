import CfxEvm.State.State
import CfxEvm.Lib.Refine

/-!
# The ledger: what the state stands for

A `Ledger` says what the reads show of every account, with no cache, no entry states and no
checkpoints. The operations on it say what the operations of the state are for. A state stands for
a ledger and the ledgers its open checkpoints would be reverted to (`State.snapshots`), and each
operation of the state refines its counterpart here.
-/

open Lib

namespace CfxEvm

/-- What the reads show of an account. The two flags are not shown by any read: they decide the
    storage of a contract created later at the address. -/
@[ext]
structure AccountView where
  balance : U256
  nonce : U256
  code_hash : H256
  /-- The code as it reads once loaded; `none` with a code hash that is not the one of the empty
      code means that the database does not have it. -/
  code : Option CodeInfo
  storage : Bytes → U256
  is_newly_created_contract : Bool
  invalidated_storage : Bool

@[ext]
structure Ledger where
  accounts : Address → Option AccountView
  total_issued_tokens : U256
  /-- The storage slots that the database holds. -/
  stored : Address → Bytes → U256

abbrev LedgerM (α : Type) := Prog Panic Ledger DbError α

section
variable [Keccak]

namespace AccountView

def is_null (v : AccountView) : Bool :=
  v.balance == 0 && v.nonce == 0 && v.code_hash == KECCAK_EMPTY

def inc_nonce (v : AccountView) : Except Panic AccountView :=
  match U256.checked_add v.nonce 1 with
  | some nonce => .ok { v with nonce := nonce }
  | none => .error .nonce_overflow

def add_balance (by_ : U256) (v : AccountView) : Except Panic AccountView :=
  match U256.checked_add v.balance by_ with
  | some balance => .ok { v with balance := balance }
  | none => .error .balance_overflow

def sub_balance (by_ : U256) (v : AccountView) : Except Panic AccountView :=
  match U256.checked_sub v.balance by_ with
  | some balance => .ok { v with balance := balance }
  | none => .error .balance_underflow

def set_storage (key : Bytes) (value : U256) (v : AccountView) : AccountView :=
  { v with storage := Function.update v.storage key value }

def init_code (code : Bytes) (v : AccountView) : AccountView :=
  { v with code_hash := keccak code, code := some ⟨code⟩ }

/-- An account with neither code nor changes to its storage. -/
def basic (balance nonce : U256) (storage : Bytes → U256) : AccountView where
  balance := balance
  nonce := nonce
  code_hash := KECCAK_EMPTY
  code := none
  storage := storage
  is_newly_created_contract := false
  invalidated_storage := false

/-- A contract that was just created. -/
def contract (address : Address) (balance nonce : U256) (invalidated : Bool)
    (stored : Bytes → U256) : AccountView where
  balance := balance
  nonce := nonce
  code_hash := KECCAK_EMPTY
  code := none
  storage := if !address.is_builtin_address || invalidated then fun _ => 0 else stored
  is_newly_created_contract := true
  invalidated_storage := invalidated

/-- A contract that was just removed. -/
def removed : AccountView where
  balance := 0
  nonce := 0
  code_hash := KECCAK_EMPTY
  code := none
  storage := fun _ => 0
  is_newly_created_contract := false
  invalidated_storage := true

end AccountView

namespace Ledger

/-- Replaces the account at an address. -/
def setAccount (a : Address) (v : AccountView) (w : Ledger) : Ledger :=
  { w with accounts := Function.update w.accounts a (some v) }

def balanceOf (w : Ledger) (a : Address) : U256 := ((w.accounts a).map AccountView.balance).getD 0

def nonceOf (w : Ledger) (a : Address) : U256 := ((w.accounts a).map AccountView.nonce).getD 0

def storageOf (w : Ledger) (a : Address) (k : Bytes) : U256 :=
  ((w.accounts a).map fun v => v.storage k).getD 0

/-! ## Reads -/

def account (a : Address) : LedgerM (Option AccountView) := Prog.gets fun w => w.accounts a

def balance (a : Address) : LedgerM U256 := Prog.gets fun w => w.balanceOf a

def nonce (a : Address) : LedgerM U256 := Prog.gets fun w => w.nonceOf a

def code_hash (a : Address) : LedgerM (Option H256) :=
  Prog.gets fun w => (w.accounts a).map AccountView.code_hash

def is_contract_with_code (a : Address) : LedgerM Bool :=
  Prog.gets fun w => (w.accounts a).any fun v => v.code_hash != KECCAK_EMPTY

/-- The account with its code, which must be there if the code hash says so. -/
def account_with_code (a : Address) : LedgerM (Option AccountView) := do
  match ← account a with
  | none => return none
  | some v =>
    if v.code.isNone && v.code_hash != KECCAK_EMPTY then Prog.fail (.IncompleteDatabase a)
    else return some v

def code (a : Address) : LedgerM (Option Bytes) := do
  return ((← account_with_code a).bind AccountView.code).map CodeInfo.code

def code_size (a : Address) : LedgerM (Option Nat) := do
  return ((← account_with_code a).bind AccountView.code).map CodeInfo.code_size

def «exists» (a : Address) : LedgerM Bool := Prog.gets fun w => (w.accounts a).isSome

def exists_and_not_null (a : Address) : LedgerM Bool :=
  Prog.gets fun w => (w.accounts a).any fun v => !v.is_null

def storage_at (a : Address) (k : Bytes) : LedgerM U256 := Prog.gets fun w => w.storageOf a k

/-! ## Writes -/

/-- Writes the account, unless computing it panicked. -/
def write_account (a : Address) (account : Except Panic AccountView) : LedgerM Unit :=
  match account with
  | .error p => Prog.abort p
  | .ok v => Prog.update (setAccount a v)

/-- Changes an existing account by `f`. -/
def modify_existing (a : Address) (f : AccountView → Except Panic AccountView) :
    LedgerM Unit := do
  match ← account a with
  | none => Prog.fail (.IncompleteDatabase a)
  | some v => write_account a (f v)

/-- Changes an account by `f`, a new one with the given nonce if there is none. -/
def modify_or_new (a : Address) (nonce : U256) (f : AccountView → Except Panic AccountView) :
    LedgerM Unit := do
  let v ← Prog.gets fun w => (w.accounts a).getD (.basic 0 nonce (w.stored a))
  write_account a (f v)

def subtract_total_issued (v : U256) : LedgerM Unit :=
  Prog.update fun w =>
    { w with total_issued_tokens := U256.saturating_sub w.total_issued_tokens v }

def new_contract (a : Address) (balance nonce : U256) : LedgerM Unit :=
  Prog.update fun w =>
    let invalidated := (w.accounts a).any AccountView.invalidated_storage
    w.setAccount a (.contract a balance nonce invalidated (w.stored a))

def init_code (a : Address) (code : Bytes) : LedgerM Unit :=
  modify_existing a fun v => .ok (v.init_code code)

def clean_account (a : Address) : LedgerM Unit :=
  Prog.update fun w => w.setAccount a (.basic 0 0 (w.stored a))

def inc_nonce (a : Address) (account_start_nonce : U256) : LedgerM Unit :=
  modify_or_new a account_start_nonce AccountView.inc_nonce

def set_nonce (a : Address) (nonce : U256) : LedgerM Unit :=
  modify_or_new a nonce fun v => .ok { v with nonce := nonce }

def sub_balance (a : Address) (by_ : U256) (cleanup_mode : CleanupMode) :
    LedgerM CleanupMode := do
  Prog.when (by_ != 0) (modify_existing a (AccountView.sub_balance by_))
  match cleanup_mode with
  | .TrackTouched _ => return State.track_touched cleanup_mode a (← «exists» a)
  | _ => return cleanup_mode

def add_balance (a : Address) (by_ : U256) (cleanup_mode : CleanupMode)
    (account_start_nonce : U256) : LedgerM CleanupMode := do
  let ex ← «exists» a
  Prog.when (by_ != 0 || (cleanup_mode == .ForceCreate && !ex))
    (modify_or_new a account_start_nonce (AccountView.add_balance by_))
  return State.track_touched cleanup_mode a ex

def transfer_balance (from_ to_ : Address) (by_ : U256) (cleanup_mode : CleanupMode)
    (account_start_nonce : U256) : LedgerM CleanupMode := do
  let cleanup_mode ← sub_balance from_ by_ cleanup_mode
  add_balance to_ by_ cleanup_mode account_start_nonce

def remove_contract (a : Address) : LedgerM Unit :=
  Prog.update fun w => w.setAccount a .removed

def set_storage (a : Address) (key : Bytes) (value : U256) : LedgerM Unit := do
  let old ← storage_at a key
  Prog.when (old != value) (modify_existing a fun v => .ok (v.set_storage key value))

end Ledger

/-! ## What a state stands for -/

/-- The slots of the database, with zero for those it does not hold. -/
def StateDb.slots (db : StateDb) (a : Address) (k : Bytes) : U256 := (db.storage a k).getD 0

/-- What the reads show of an account that is loaded. -/
def OverlayAccount.view (db : StateDb) (acc : OverlayAccount) : AccountView where
  balance := acc.balance
  nonce := acc.nonce
  code_hash := acc.code_hash
  code := match acc.code with
    | some c => some c
    | none => if acc.code_hash = KECCAK_EMPTY then none else db.codes acc.address
  storage := fun k => (acc.storage_value_write_cache.lookup k).getD
    (if acc.fresh_storage then 0 else db.slots acc.address k)
  is_newly_created_contract := acc.is_newly_created_contract
  invalidated_storage := acc.invalidated_storage

/-- What the reads show of an account that is not in the cache. -/
def StateDb.view (db : StateDb) (a : Address) : Option AccountView :=
  (db.accounts a).map fun acc => (OverlayAccount.from_loaded a acc 0).view db

/-- What the reads show at an address whose cache entry is `entry`. -/
def entryView (db : StateDb) (a : Address) : Option AccountEntry → Option AccountView
  | none => db.view a
  | some e => e.account.map (OverlayAccount.view db)

/-- The accounts after each of the open checkpoints is reverted, from the last one on: what is
    saved replaces the current account, what is not saved stays. -/
def unwind (db : StateDb) : (Address → Option AccountView) →
    List (HashMap Address (Option AccountEntry)) → List (Address → Option AccountView)
  | _, [] => []
  | cur, c :: cs =>
    let reverted := fun a => ((c.lookup a).map (entryView db a)).getD (cur a)
    reverted :: unwind db reverted cs

namespace State

/-- The accounts as the reads show them. -/
def accountViews (s : State) (a : Address) : Option AccountView :=
  entryView s.db a (s.cache.lookup a)

/-- The ledger that the reads show. -/
def ledger (s : State) : Ledger := ⟨s.accountViews, s.total_issued_tokens, s.db.slots⟩

/-- The ledgers that the open checkpoints stand for, the last one first. -/
def savedLedgers (s : State) : List Ledger :=
  List.zipWith (fun accounts total => ⟨accounts, total, s.db.slots⟩)
    (unwind s.db s.accountViews s.checkpoints) s.world_statistics_checkpoints

/-- The current ledger with those of the open checkpoints. -/
def snapshots (s : State) : Snapshots Ledger := ⟨s.ledger, s.savedLedgers⟩

end State

end

end CfxEvm
