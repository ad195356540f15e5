import CfxEvm.Execution.Executor

/-!
# Virtual execution

A transaction is executed to see what it would do and how much gas it would need, with as much of it
made up as the request leaves open; then the state is to be as if nothing had happened.
-/

open Lib

namespace CfxEvm

structure EstimateRequest where
  has_sender : Bool
  has_gas_limit : Bool
  has_gas_price : Bool
  has_nonce : Bool
  has_storage_limit : Bool
  deriving DecidableEq, Repr

namespace EstimateRequest

def recheck_gas_fee (request : EstimateRequest) : Bool :=
  request.has_sender && request.has_gas_price

def charge_gas (request : EstimateRequest) : Bool :=
  request.has_sender && request.has_gas_limit && request.has_gas_price

end EstimateRequest

def TransactCheckSettings.from_estimate_request (request : EstimateRequest) :
    TransactCheckSettings where
  charge_gas := request.charge_gas
  real_execution := false

def TransactOptions.estimate_first_pass (request : EstimateRequest) : TransactOptions where
  observer := .virtual_call
  check_settings := .from_estimate_request request

def ONE_CFX_IN_DRIP : Nat := 1000000000000000000

namespace TXExecutor

/-- What a made-up sender is given: the value and a billion CFX, at most `2 ^ 128`. -/
def balance_inc (tx : Transaction) : U256 :=
  let given := U256.saturating_add tx.value (BitVec.ofNat 256 (1000000000 * ONE_CFX_IN_DRIP))
  if given.toNat ≤ 2 ^ 128 then given else BitVec.ofNat 256 (2 ^ 128)

section
variable [Keccak] (g : Globals)

/-- Sets up the sender: without one in the request it is `random_hex`, and has enough balance. -/
def set_up_sender (random_hex : Address) (tx : Transaction) (request : EstimateRequest) :
    TxM Transaction := do
  if !request.has_sender then
    let _ ← onState (State.add_balance random_hex (balance_inc tx) .NoEmpty
      g.spec.account_start_nonce)
    onState (State.add_total_issued (balance_inc tx))
    return { tx with sender := random_hex }
  else return tx

/-- Sets up the nonce: the one of the transaction if the request has one, else that of the
    sender. -/
def set_up_nonce (tx : Transaction) (request : EstimateRequest) : TxM Transaction := do
  if request.has_nonce then
    onState (State.set_nonce tx.sender tx.nonce)
    return tx
  else
    let nonce ← onState (State.nonce tx.sender)
    return { tx with nonce := nonce }

/-- Revises the gas used in the result, if the gas limit was a default that is large enough. -/
def revise (tx : Transaction) (request : EstimateRequest) (executed : Executed) : TxM Executed := do
  if !request.has_gas_limit then
    let limit ← Prog.expect .estimate_request executed.estimated_gas_limit
    let charged := limit - limit / 4
    let gas_charged := if charged.toNat ≤ executed.gas_used.toNat then executed.gas_used
      else charged
    return { executed with
      gas_charged := gas_charged
      fee := U256.saturating_mul gas_charged tx.gas_price }
  else return executed

/-- The fee that the balance is rechecked for. -/
def gas_fee (tx : Transaction) (request : EstimateRequest) (executed : Executed) : TxM U256 := do
  if request.recheck_gas_fee then
    let limit ← Prog.expect .estimate_request executed.estimated_gas_limit
    return U256.saturating_mul limit tx.gas_price
  else return 0

/-- If the request has a sender, rechecks that the balance is enough. -/
def recheck (tx : Transaction) (request : EstimateRequest) (balance : U256) (executed : Executed) :
    TxM ExecutionOutcome := do
  if request.has_sender then
    let gas_fee ← gas_fee tx request executed
    let value_and_fee := U256.saturating_add tx.value gas_fee
    if balance.toNat < value_and_fee.toNat then
      return .ExecutionErrorBumpNonce
        (.NotEnoughCash (U512.of_u256 value_and_fee) (U512.of_u256 balance)
          (if balance.toNat ≤ gas_fee.toNat then balance else gas_fee)) executed
    else
      Prog.assert (!request.has_storage_limit) .estimate_request
      return .Finished executed
  else
    Prog.assert (!request.has_storage_limit) .estimate_request
    return .Finished executed

variable [HashOrder]

/-- What precedes the first pass: the sender and the nonce are set up, the balance is read. -/
def set_up (random_hex : Address) (tx : Transaction) (request : EstimateRequest) :
    TxM (Transaction × U256) := do
  let tx ← set_up_sender g random_hex tx request
  let tx ← set_up_nonce tx request
  let balance ← onState (State.balance tx.sender)
  return (tx, balance)

/-- The first pass, in a checkpoint of its own. -/
def first_pass (tx : Transaction) (fuel : Nat) (request : EstimateRequest) :
    TxM (Option ExecutionOutcome) := do
  onState State.checkpoint
  transact g tx fuel (.estimate_first_pass request)

/-- Executes a transaction virtually; none if `fuel` rounds are not enough to run its frames. The
    sender that is made up for a request without one is `random_hex`. -/
def transact_virtual (random_hex : Address) (tx : Transaction) (fuel : Nat)
    (request : EstimateRequest) : TxM (Option ExecutionOutcome) := do
  let (tx, balance) ← set_up g random_hex tx request
  match ← first_pass g tx fuel request with
  | none => return none
  | some (.Finished executed) =>
    onState State.revert_to_checkpoint
    let executed ← revise tx request executed
    let outcome ← recheck tx request balance executed
    return some outcome
  | some res => return some res

end

end TXExecutor

end CfxEvm
