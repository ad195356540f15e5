import CfxEvm.Frame.Stack

/-!
# Execution of transactions

A transaction is checked and charged, its frames are run, and then the rest of the gas is refunded
and the destroyed contracts are removed.
-/

open Lib

namespace CfxEvm

/-- What a transaction asks for. -/
inductive TxAction
  | Create
  | Call (address : Address)
  deriving DecidableEq, Repr

/-- `TransactionInfo`. -/
structure Transaction where
  sender : Address
  nonce : U256
  gas : U256
  gas_price : U256
  data : Bytes
  action : TxAction
  value : U256
  deriving DecidableEq, Repr

structure TransactCheckSettings where
  charge_gas : Bool
  real_execution : Bool
  deriving DecidableEq, Repr

/-- Transaction execution options. -/
structure TransactOptions where
  observer : MultiObservers
  check_settings : TransactCheckSettings
  deriving DecidableEq, Repr

/-! ## Outcomes -/

structure Executed where
  gas_used : U256
  fee : U256
  gas_charged : U256
  logs : List LogEntry
  contracts_created : List Address
  output : Bytes
  trace : List ExecTrace
  estimated_gas_limit : Option U256
  deriving DecidableEq, Repr

inductive ToRepackError
  | InvalidNonce (expected got : U256)
  | SenderDoesNotExist
  deriving DecidableEq, Repr

inductive TxDropError
  | OldNonce (expected got : U256)
  | NotEnoughBaseGas (expected actual : Nat)
  deriving DecidableEq, Repr

inductive ExecutionError
  | NotEnoughCash (required got : U512) (actual_gas_cost : U256)
  | VmError (error : VmError)
  deriving DecidableEq, Repr

inductive ExecutionOutcome
  | NotExecutedDrop (error : TxDropError)
  | NotExecutedToReconsiderPacking (error : ToRepackError)
  | ExecutionErrorBumpNonce (error : ExecutionError) (executed : Executed)
  | Finished (executed : Executed)
  deriving DecidableEq, Repr

namespace Executed

def not_enough_balance_fee_charged (tx : Transaction) (fee : U256) (trace : List ExecTrace) :
    Executed where
  gas_used := tx.gas
  gas_charged := if tx.gas_price = 0 then 0 else fee / tx.gas_price
  fee := fee
  logs := []
  contracts_created := []
  output := []
  trace := trace
  estimated_gas_limit := none

def execution_error_fully_charged (tx : Transaction) (trace : List ExecTrace) : Executed where
  gas_used := tx.gas
  gas_charged := tx.gas
  fee := U256.saturating_mul tx.gas tx.gas_price
  logs := []
  contracts_created := []
  output := []
  trace := trace
  estimated_gas_limit := none

end Executed

/-! ## The executor -/

/-- What a transaction works on: the state, and the cache of the virtual machine. -/
structure TxState where
  state : State
  shared_cache : SharedCache

abbrev TxM (α : Type) := Prog Panic TxState DbError α

/-- What the checks come to. -/
inductive PreCheckResult
  | Pass (top_frame : CallCreateFrame) (tx_substate : Substate) (observer : MultiObservers)
      (base_gas_required : Nat)
  | Fail (outcome : ExecutionOutcome)

namespace TXExecutor

/-- Runs a program over the state. -/
def onState {α : Type} (x : StateM α) : TxM α :=
  Prog.zoom TxState.state (fun s t => { t with state := s }) x

section
variable [Keccak] (g : Globals) (tx : Transaction)

/-- The parameters of a transaction that creates a contract. -/
def create_params (nonce init_gas : U256) : ActionParams :=
  let new_address := (contract_address .FromSenderNonce tx.sender nonce tx.data).1
  { code_address := new_address
    code_hash := none
    address := new_address
    sender := tx.sender
    original_sender := tx.sender
    gas := init_gas
    gas_price := tx.gas_price
    value := .Transfer tx.value
    code := some tx.data
    data := none
    call_type := .None
    create_type := .CREATE
    params_type := .Embedded }

/-- The parameters of a transaction that calls an address with the given code. -/
def call_params (address : Address) (init_gas : U256) (code : Option Bytes)
    (code_hash : Option H256) : ActionParams :=
  { code_address := address
    address := address
    sender := tx.sender
    original_sender := tx.sender
    gas := init_gas
    gas_price := tx.gas_price
    value := .Transfer tx.value
    code := code
    code_hash := code_hash
    data := some tx.data
    call_type := .Call
    create_type := .None
    params_type := .Separate }

def top_frame (nonce init_gas : U256) : TxM CallCreateFrame :=
  match tx.action with
  | .Create => return .new_create_raw (create_params tx nonce init_gas) 0 false
  | .Call address => do
    let code ← onState (State.code address)
    let code_hash ← onState (State.code_hash address)
    return .new_call_raw g (call_params tx address init_gas code code_hash) 0 false

/-- What is charged for the gas. -/
def gas_cost (options : TransactOptions) : U512 :=
  if options.check_settings.charge_gas then U256.full_mul tx.gas tx.gas_price else 0

/-- The sender is responsible for the insufficient balance: it pays what it has of the gas. -/
def not_enough_cash (options : TransactOptions) (gas_cost sender_balance total_cost : U512) :
    TxM PreCheckResult := do
  let actual_gas_cost ← Prog.expect .executor_overflow
    (U256.try_from (if gas_cost.toNat ≤ sender_balance.toNat then gas_cost else sender_balance))
  let ex ← onState (State.exists tx.sender)
  if !ex && options.check_settings.real_execution then
    return .Fail (.NotExecutedToReconsiderPacking .SenderDoesNotExist)
  else
    onState (State.inc_nonce tx.sender g.spec.account_start_nonce)
    let _ ← onState (State.sub_balance tx.sender actual_gas_cost (cleanup_mode .new g.spec))
    let observer := options.observer.trace_internal_transfer (.Balance tx.sender) .GasPayment
      actual_gas_cost
    return .Fail (.ExecutionErrorBumpNonce
      (.NotEnoughCash total_cost sender_balance actual_gas_cost)
      (.not_enough_balance_fee_charged tx actual_gas_cost observer.drain))

/-- Charges for the gas and makes the top frame. -/
def charge (options : TransactOptions) (nonce : U256) (base_gas_required : Nat) (gas_cost : U512) :
    TxM PreCheckResult := do
  onState (State.inc_nonce tx.sender g.spec.account_start_nonce)
  let gas_cost ← Prog.expect .executor_overflow (U256.try_from gas_cost)
  let observer :=
    options.observer.trace_internal_transfer (.Balance tx.sender) .GasPayment gas_cost
  let tx_substate := Substate.new
  let mode ← onState (State.sub_balance tx.sender gas_cost (cleanup_mode tx_substate g.spec))
  let init_gas ← Prog.expect .executor_overflow
    (U256.checked_sub tx.gas (BitVec.ofNat 256 base_gas_required))
  let top_frame ← top_frame g tx nonce init_gas
  return .Pass top_frame (tx_substate.set_touched mode) observer base_gas_required

def transact_preprocessing (options : TransactOptions) : TxM PreCheckResult := do
  let nonce ← onState (State.nonce tx.sender)
  if tx.nonce.toNat < nonce.toNat then
    return .Fail (.NotExecutedDrop (.OldNonce nonce tx.nonce))
  else if nonce.toNat < tx.nonce.toNat then
    return .Fail (.NotExecutedToReconsiderPacking (.InvalidNonce nonce tx.nonce))
  else
    let base_gas_required ← Prog.expect .executor_overflow
      (gas_required_for (tx.action = .Create) tx.data g.spec)
    if tx.gas.toNat < base_gas_required then
      let actual ← Prog.expect .executor_overflow tx.gas.as_u64
      return .Fail (.NotExecutedDrop (.NotEnoughBaseGas base_gas_required actual))
    else
      let balance ← onState (State.balance tx.sender)
      let gas_cost := gas_cost tx options
      let sender_balance := U512.of_u256 balance
      let total_cost ← Prog.expect .executor_overflow
        (U512.checked_add (U512.of_u256 tx.value) gas_cost)
      if sender_balance.toNat < total_cost.toNat then
        not_enough_cash g tx options gas_cost sender_balance total_cost
      else charge g tx options nonce base_gas_required gas_cost

/-! ## After the execution -/

/-- Removes a destroyed contract; what it still holds is burnt. -/
def kill (observer : MultiObservers) (contract_address : Address) : TxM MultiObservers := do
  let contract_balance ← onState (State.balance contract_address)
  onState (State.remove_contract contract_address)
  onState (State.subtract_total_issued contract_balance)
  return observer.trace_internal_transfer (.Balance contract_address) .MintBurn contract_balance

def kill_process [HashOrder] (suicides : List Address) (observer : MultiObservers) :
    TxM MultiObservers :=
  (HashOrder.iter suicides).foldlM kill observer

/-- The gas that the execution left: none if it failed. -/
def gas_left (result : Except VmError FinalizationResult) : U256 :=
  match result with
  | .ok r => r.gas_left
  | .error _ => 0

/-- Gas charged, fee and refund: at most a quarter of the gas limit is refunded. -/
def settle (gas_left : U256) : TxM (U256 × U256 × U256 × U256) := do
  let gas_used ← Prog.expect .gas_used_underflow (U256.checked_sub tx.gas gas_left)
  let twice ← Prog.expect .executor_overflow (U256.checked_add gas_left gas_left)
  let thrice ← Prog.expect .executor_overflow (U256.checked_add twice gas_left)
  if gas_used.toNat ≤ thrice.toNat then
    let gas_refunded := tx.gas >>> 2
    let gas_charged ← Prog.expect .executor_overflow (U256.checked_sub tx.gas gas_refunded)
    return (gas_used, gas_charged, U256.saturating_mul gas_charged tx.gas_price,
      U256.saturating_mul gas_refunded tx.gas_price)
  else
    return (gas_used, gas_used, U256.saturating_mul gas_used tx.gas_price,
      U256.saturating_mul gas_left tx.gas_price)

/-- `gas_required() * 7 / 6 + base_gas_required`. -/
def estimated_gas_limit (m : GasMan) (base_gas_required : Nat) : Option U256 := do
  let raised ← U256.checked_mul m.gas_limit 7
  U256.checked_add (raised / 6) (BitVec.ofNat 256 base_gas_required)

/-- The bytes of the returned data. -/
def output_bytes (result : Except VmError FinalizationResult) : TxM Bytes :=
  match result with
  | .ok res => Prog.expect .memory_out_of_range res.return_data.deref
  | .error _ => return []

/-- The estimate, if the execution was observed for it. -/
def estimate (output : FrameStackOutput) : TxM (Option U256) :=
  match output.observer.gas_man with
  | some m => do
    let limit ← Prog.expect .gas_estimate_overflow
      (estimated_gas_limit m output.base_gas_required)
    return some limit
  | none => return none

/-- The outcome of a transaction whose frames have been run. -/
def outcome (result : Except VmError FinalizationResult) (executed : Executed) :
    TxM ExecutionOutcome :=
  match result with
  | .error (.StateDbError e) => Prog.fail e
  | .error exception =>
    return .ExecutionErrorBumpNonce (.VmError exception)
      (.execution_error_fully_charged tx executed.trace)
  | .ok r =>
    if r.apply_state then return .Finished executed
    else return .ExecutionErrorBumpNonce (.VmError .Reverted) executed

/-- Finalizes the transaction (does refunds and suicides). -/
def transact_postprocessing [HashOrder] (frame_stack_output : FrameStackOutput) :
    TxM ExecutionOutcome := do
  let ⟨result, substate, observer, _⟩ := frame_stack_output
  let output ← output_bytes result
  let estimated_gas_limit ← estimate frame_stack_output
  let (gas_used, gas_charged, fees_value, refund_value) ← settle tx (gas_left result)
  let observer := observer.trace_internal_transfer .GasPayment (.Balance tx.sender) refund_value
  let mode ← onState (State.add_balance tx.sender refund_value (cleanup_mode substate g.spec)
    g.spec.account_start_nonce)
  let substate := substate.set_touched mode
  let observer ← kill_process substate.suicides observer
  outcome tx result
    { gas_used := gas_used
      gas_charged := gas_charged
      fee := fees_value
      logs := substate.logs
      contracts_created := substate.contracts_created
      output := output
      trace := observer.drain
      estimated_gas_limit := estimated_gas_limit }

/-- Runs the frames, in at most `fuel` rounds. -/
def run_frames [HashOrder] (fuel : Nat) (tx_substate : Substate) (observer : MultiObservers)
    (base_gas_required : Nat) (top_frame : CallCreateFrame) : TxM (Option FrameStackOutput) :=
  Prog.zoom
    (fun t => FrameStack.new t.state t.shared_cache tx_substate observer
      base_gas_required top_frame)
    (fun s _ => ⟨s.host.state, s.host.shared_cache⟩) (FrameStack.exec g fuel)

/-- Executes a transaction; none if `fuel` rounds are not enough to run its frames. -/
def transact [HashOrder] (fuel : Nat) (options : TransactOptions) :
    TxM (Option ExecutionOutcome) := do
  match ← transact_preprocessing g tx options with
  | .Fail outcome => return some outcome
  | .Pass top_frame tx_substate observer base_gas_required =>
    match ← run_frames g fuel tx_substate observer base_gas_required top_frame with
    | none => return none
    | some output => do
      let outcome ← transact_postprocessing g tx output
      return some outcome

end

end TXExecutor

end CfxEvm
