import CfxEvm.State.Ledger

/-!
# Sequences of state operations

The operations of the state as data, so that one can speak about every sequence of them. An
operation that returns an error does not end the sequence: the state it leaves is the one the next
operation starts from.
-/

open Lib

namespace CfxEvm

/-- The operations of the state other than those on checkpoints, the reads included. -/
inductive StateOp
  | new_contract (a : Address) (balance nonce : U256)
  | init_code (a : Address) (code : Bytes)
  | inc_nonce (a : Address) (account_start_nonce : U256)
  | set_nonce (a : Address) (nonce : U256)
  | add_balance (a : Address) (by_ : U256) (mode : CleanupMode) (account_start_nonce : U256)
  | sub_balance (a : Address) (by_ : U256) (mode : CleanupMode)
  | transfer_balance (from_ to_ : Address) (by_ : U256) (mode : CleanupMode)
      (account_start_nonce : U256)
  | set_storage (a : Address) (key : Bytes) (value : U256)
  | remove_contract (a : Address)
  | clean_account (a : Address)
  | subtract_total_issued (v : U256)
  | balance (a : Address)
  | nonce (a : Address)
  | code_hash (a : Address)
  | code (a : Address)
  | code_size (a : Address)
  | is_contract_with_code (a : Address)
  | storage_at (a : Address) (key : Bytes)
  | «exists» (a : Address)
  | exists_and_not_null (a : Address)

section
variable [Keccak]

/-- The operation on the state. -/
def StateOp.exec : StateOp → State → Except Panic State
  | new_contract a b n => (State.new_contract a b n).final
  | init_code a c => (State.init_code a c).final
  | inc_nonce a n => (State.inc_nonce a n).final
  | set_nonce a n => (State.set_nonce a n).final
  | add_balance a by_ mode n => (State.add_balance a by_ mode n).final
  | sub_balance a by_ mode => (State.sub_balance a by_ mode).final
  | transfer_balance from_ to_ by_ mode n =>
    (State.transfer_balance from_ to_ by_ mode n).final
  | set_storage a key value => (State.set_storage a key value).final
  | remove_contract a => (State.remove_contract a).final
  | clean_account a => (State.clean_account a).final
  | subtract_total_issued v => (State.subtract_total_issued v).final
  | balance a => (State.balance a).final
  | nonce a => (State.nonce a).final
  | code_hash a => (State.code_hash a).final
  | code a => (State.code a).final
  | code_size a => (State.code_size a).final
  | is_contract_with_code a => (State.is_contract_with_code a).final
  | storage_at a key => (State.storage_at a key).final
  | «exists» a => (State.exists a).final
  | exists_and_not_null a => (State.exists_and_not_null a).final

/-- The same operation on the ledger. -/
def StateOp.onLedger : StateOp → Ledger → Except Panic Ledger
  | new_contract a b n => (Ledger.new_contract a b n).final
  | init_code a c => (Ledger.init_code a c).final
  | inc_nonce a n => (Ledger.inc_nonce a n).final
  | set_nonce a n => (Ledger.set_nonce a n).final
  | add_balance a by_ mode n => (Ledger.add_balance a by_ mode n).final
  | sub_balance a by_ mode => (Ledger.sub_balance a by_ mode).final
  | transfer_balance from_ to_ by_ mode n =>
    (Ledger.transfer_balance from_ to_ by_ mode n).final
  | set_storage a key value => (Ledger.set_storage a key value).final
  | remove_contract a => (Ledger.remove_contract a).final
  | clean_account a => (Ledger.clean_account a).final
  | subtract_total_issued v => (Ledger.subtract_total_issued v).final
  | balance a => (Ledger.balance a).final
  | nonce a => (Ledger.nonce a).final
  | code_hash a => (Ledger.code_hash a).final
  | code a => (Ledger.code a).final
  | code_size a => (Ledger.code_size a).final
  | is_contract_with_code a => (Ledger.is_contract_with_code a).final
  | storage_at a key => (Ledger.storage_at a key).final
  | «exists» a => (Ledger.exists a).final
  | exists_and_not_null a => (Ledger.exists_and_not_null a).final

/-- A command on the state: an operation, or one on the checkpoints. -/
def State.execCmd [HashOrder] (s : State) : Cmd StateOp → Except Panic State
  | .op o => o.exec s
  | .checkpoint => State.checkpoint.final s
  | .discard => State.discard_checkpoint.final s
  | .revert => State.revert_to_checkpoint.final s

/-- A sequence of commands on the state. -/
def State.execCmds [HashOrder] (l : List (Cmd StateOp)) (s : State) : Except Panic State :=
  l.foldlM State.execCmd s

/-- No read tells the two states apart. -/
structure SameReads (s s' : State) : Prop where
  balance : ∀ a, (State.balance a).value s = (State.balance a).value s'
  nonce : ∀ a, (State.nonce a).value s = (State.nonce a).value s'
  code_hash : ∀ a, (State.code_hash a).value s = (State.code_hash a).value s'
  code : ∀ a, (State.code a).value s = (State.code a).value s'
  storage_at : ∀ a k, (State.storage_at a k).value s = (State.storage_at a k).value s'
  «exists» : ∀ a, (State.exists a).value s = (State.exists a).value s'
  exists_and_not_null :
    ∀ a, (State.exists_and_not_null a).value s = (State.exists_and_not_null a).value s'
  total_issued_tokens : s.total_issued_tokens = s'.total_issued_tokens

/-- What is stored at the address, apart from the balance and the nonce, reads the same. -/
structure SameContent (a : Address) (s s' : State) : Prop where
  code_hash : (State.code_hash a).value s = (State.code_hash a).value s'
  code : (State.code a).value s = (State.code a).value s'
  storage_at : ∀ k, (State.storage_at a k).value s = (State.storage_at a k).value s'
  «exists» : (State.exists a).value s = (State.exists a).value s'

/-- No read of the address tells the two states apart. -/
structure SameReadsAt (a : Address) (s s' : State) : Prop extends SameContent a s s' where
  balance : (State.balance a).value s = (State.balance a).value s'
  nonce : (State.nonce a).value s = (State.nonce a).value s'
  exists_and_not_null :
    (State.exists_and_not_null a).value s = (State.exists_and_not_null a).value s'

end

end CfxEvm
