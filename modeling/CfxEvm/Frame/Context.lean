import CfxEvm.Vm.Machine

/-!
# The context of a frame

What running code can ask of its host. The substate and the shared parts are in the `Host`; the
rest of the frame context never changes while the frame lives.
-/

open Lib

namespace CfxEvm

/-- Transaction properties that the host needs to know about. -/
structure OriginInfo where
  address : Address
  original_sender : Address
  gas_price : U256
  value : U256
  deriving DecidableEq, Repr

def OriginInfo.of_params (params : ActionParams) : OriginInfo where
  address := params.address
  original_sender := params.original_sender
  gas_price := params.gas_price
  value := params.value.value

/-- The constant part of the context of a frame. -/
structure FrameContext where
  depth : Nat
  is_create : Bool
  origin : OriginInfo
  static_flag : Bool
  deriving DecidableEq, Repr

/-- The implementation of `suicide`: the balance goes to the refund address, and is burnt when that
    is the contract itself. -/
def suicide [Keccak] (contract_address refund_address : Address) (spec : Spec)
    (account_start_nonce : U256) : HostM Unit := do
  Prog.update fun h =>
    { h with substate := { h.substate with
      suicides := h.substate.suicides.insert contract_address } }
  let balance ← Host.onState (State.balance contract_address)
  if refund_address = contract_address then
    Host.trace_internal_transfer (.Balance contract_address) .MintBurn balance
    Host.onTouched spec (State.sub_balance contract_address balance)
    Host.onState (State.subtract_total_issued balance)
  else
    Host.trace_internal_transfer (.Balance contract_address) (.Balance refund_address) balance
    Host.onTouched spec fun mode =>
      State.transfer_balance contract_address refund_address balance mode account_start_nonce

namespace Context

variable [Keccak] (g : Globals) (ctx : FrameContext)

def storage_at (key : Bytes) : HostM U256 := Host.onState (State.storage_at ctx.origin.address key)

def set_storage (key : Bytes) (value : U256) : HostM Unit :=
  if ctx.static_flag then Prog.fail .MutableCallInStaticContext
  else Host.onState (State.set_storage ctx.origin.address key value)

def «exists» (address : Address) : HostM Bool := Host.onState (State.exists address)

def exists_and_not_null (address : Address) : HostM Bool :=
  Host.onState (State.exists_and_not_null address)

def balance (address : Address) : HostM U256 := Host.onState (State.balance address)

def origin_balance : HostM U256 := balance ctx.origin.address

/-- The hash of the previous block; the numbers of the others give zero. -/
def blockhash (number : U256) : HostM H256 := do
  let next ← Prog.expect .word_overflow (U256.checked_add number 1)
  let current := if g.spec.cip98 then g.env.epoch_height else g.env.number
  return if BitVec.ofNat 256 current.toNat = next then g.env.last_hash else 0

/-- The parameters of a creation. The nonce of the creator is increased. -/
def create (gas value : U256) (code : Bytes) (address_scheme : CreateContractAddress) :
    HostM TrapKind := do
  let caller := ctx.origin.address
  let nonce ← Host.onState (State.nonce caller)
  let (address, code_hash) := contract_address address_scheme caller nonce code
  let params : ActionParams :=
    { code_address := address
      address := address
      sender := caller
      original_sender := ctx.origin.original_sender
      gas := gas
      gas_price := ctx.origin.gas_price
      value := .Transfer value
      code := some code
      code_hash := code_hash
      data := none
      call_type := .None
      create_type := .from_address_scheme address_scheme
      params_type := .Embedded }
  Prog.when (!ctx.static_flag && (!g.spec.keep_unsigned_nonce || params.sender != UNSIGNED_SENDER))
    (Host.onState (State.inc_nonce caller g.spec.contract_start_nonce))
  return .Create params

/-- Code of an address, which is a fixed one for an active internal contract. -/
def extcode (address : Address) : HostM (Option Bytes) :=
  match g.machine.contract address g.spec with
  | some _ => return some InternalContract.code
  | none => Host.onState (State.code address)

def extcodehash (address : Address) : HostM (Option H256) :=
  match g.machine.contract address g.spec with
  | some _ => return some InternalContract.code_hash
  | none => Host.onState (State.code_hash address)

def extcodesize (address : Address) : HostM (Option Nat) :=
  match g.machine.contract address g.spec with
  | some _ => return some InternalContract.code_size
  | none => Host.onState (State.code_size address)

/-- The parameters of a message call. -/
def call (gas : U256) (sender_address receive_address : Address) (value : Option U256)
    (data : Bytes) (code_address : Address) (call_type : CallType) : HostM TrapKind := do
  let code ← extcode g code_address
  let code_hash ← extcodehash g code_address
  return .Call
    { sender := sender_address
      address := receive_address
      value := match value with
        | some value => .Transfer value
        | none => .Apparent ctx.origin.value
      code_address := code_address
      original_sender := ctx.origin.original_sender
      gas := gas
      gas_price := ctx.origin.gas_price
      code := code
      code_hash := code_hash
      data := some data
      call_type := call_type
      create_type := .None
      params_type := .Separate }

def log (topics : List H256) (data : Bytes) : HostM Unit :=
  if ctx.static_flag then Prog.fail .MutableCallInStaticContext
  else Prog.update fun h =>
    { h with substate :=
      { h.substate with logs := h.substate.logs ++ [⟨ctx.origin.address, topics, data⟩] } }

/-- Charges for the code of a new contract and stores it. -/
def ret (gas : U256) (data : ReturnData) (apply_state : Bool) : HostM U256 := do
  if ctx.is_create && apply_state then
    let code ← Prog.expect .memory_out_of_range data.deref
    let create_data_gas := g.spec.create_data_gas * g.spec.evm_gas_ratio
    let return_cost := code.length * create_data_gas
    if return_cost > gas.toNat || code.length > g.spec.create_data_limit then
      if g.spec.exceptional_failed_code_deposit then Prog.fail .OutOfGas else return gas
    else
      Host.onState (State.init_code ctx.origin.address code)
      return gas - BitVec.ofNat 256 return_cost
  else
    return gas

def suicide (refund_address : Address) (account_start_nonce : U256) : HostM Unit :=
  if ctx.static_flag then Prog.fail .MutableCallInStaticContext
  else CfxEvm.suicide ctx.origin.address refund_address g.spec account_start_nonce

end Context

/-- Consume the context, call return if necessary, and produce the call result. -/
def finalize [Keccak] (g : Globals) (ctx : FrameContext) (result : Except VmError GasLeft) :
    HostM FinalizationResult :=
  match result with
  | .ok (.Known gas_left) => return ⟨gas_left, true, .empty⟩
  | .ok (.NeedsReturn gas_left data apply_state) => do
    let gas_left ← Context.ret g ctx gas_left data apply_state
    return ⟨gas_left, apply_state, data⟩
  | .error err => Prog.fail err

end CfxEvm
