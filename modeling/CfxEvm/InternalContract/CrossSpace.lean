import CfxEvm.InternalContract.Function

/-!
# The internal contracts

The functions of the cross-space contract move balances between the contract, the mapped account of
the caller and the receiver, and run calls and creations with a part of the gas. The other contracts
only answer questions about the block.
-/

open Lib

namespace CfxEvm

/-! ## The EIP-1820 registry -/

namespace eip_1820

def ADDRESS : Address := 0x1820a4b7618bde71dce8cdc73aab6c95905fad24

/-- The byte code, 32 bytes a word and five more at the end. -/
def BYTE_CODE : Bytes :=
  [0x608060405234801561001057600080fd5b50600436106100a5576000357c0100,
    0x00000000000000000000000000000000000000000000000000000090048063a4,
    0x1e7d5111610078578063a41e7d51146101d4578063aabbb8ca1461020a578063,
    0xb705676514610236578063f712f3e814610280576100a5565b806329965a1d14,
    0x6100aa5780633d584063146100e25780635df8122f1461012457806365ba36c1,
    0x14610152575b600080fd5b6100e0600480360360608110156100c057600080fd,
    0x5b50600160a060020a038135811691602081013591604090910135166102b656,
    0x5b005b610108600480360360208110156100f857600080fd5b5035600160a060,
    0x020a0316610570565b60408051600160a060020a039092168252519081900360,
    0x200190f35b6100e06004803603604081101561013a57600080fd5b50600160a0,
    0x60020a03813581169160200135166105bc565b6101c260048036036020811015,
    0x61016857600080fd5b8101906020810181356401000000008111156101835760,
    0x0080fd5b82018360208201111561019557600080fd5b80359060200191846001,
    0x8302840111640100000000831117156101b757600080fd5b5090925090506106,
    0xb3565b60408051918252519081900360200190f35b6100e06004803603604081,
    0x10156101ea57600080fd5b508035600160a060020a03169060200135600160e0,
    0x60020a0319166106ee565b6101086004803603604081101561022057600080fd,
    0x5b50600160a060020a038135169060200135610778565b61026c600480360360,
    0x4081101561024c57600080fd5b508035600160a060020a031690602001356001,
    0x60e060020a0319166107ef565b604080519115158252519081900360200190f3,
    0x5b61026c6004803603604081101561029657600080fd5b508035600160a06002,
    0x0a03169060200135600160e060020a0319166108aa565b6000600160a060020a,
    0x038416156102cd57836102cf565b335b9050336102db82610570565b600160a0,
    0x60020a031614610339576040805160e560020a62461bcd028152602060048201,
    0x52600f60248201527f4e6f7420746865206d616e616765720000000000000000,
    0x000000000000000000604482015290519081900360640190fd5b610342836109,
    0x2a565b15610397576040805160e560020a62461bcd0281526020600482015260,
    0x1a60248201527f4d757374206e6f7420626520616e2045524331363520686173,
    0x68000000000000604482015290519081900360640190fd5b600160a060020a03,
    0x8216158015906103b85750600160a060020a0382163314155b156104ff576040,
    0x5160200180807f455243313832305f4143434550545f4d414749430000000000,
    0x0000000000000081525060140190506040516020818303038152906040528051,
    0x906020012082600160a060020a031663249cb3fa85846040518363ffffffff16,
    0x7c01000000000000000000000000000000000000000000000000000000000281,
    0x526004018083815260200182600160a060020a0316600160a060020a03168152,
    0x6020019250505060206040518083038186803b15801561047e57600080fd5b50,
    0x5afa158015610492573d6000803e3d6000fd5b505050506040513d6020811015,
    0x6104a857600080fd5b5051146104ff576040805160e560020a62461bcd028152,
    0x60206004820181905260248201527f446f6573206e6f7420696d706c656d656e,
    0x742074686520696e74657266616365604482015290519081900360640190fd5b,
    0x600160a060020a03818116600081815260208181526040808320888452909152,
    0x808220805473ffffffffffffffffffffffffffffffffffffffff191694871694,
    0x85179055518692917f93baa6efbd2244243bfee6ce4cfdd1d04fc4c0e9a786ab,
    0xd3a41313bd352db15391a450505050565b600160a060020a0381811660009081,
    0x5260016020526040812054909116151561059a5750806105b7565b50600160a0,
    0x60020a03808216600090815260016020526040902054165b919050565b336105,
    0xc683610570565b600160a060020a031614610624576040805160e560020a6246,
    0x1bcd02815260206004820152600f60248201527f4e6f7420746865206d616e61,
    0x6765720000000000000000000000000000000000604482015290519081900360,
    0x640190fd5b81600160a060020a031681600160a060020a031614610643578061,
    0x0646565b60005b600160a060020a038381166000818152600160205260408082,
    0x20805473ffffffffffffffffffffffffffffffffffffffff1916958516959095,
    0x1790945592519184169290917f605c2dbf762e5f7d60a546d42e7205dcb1b011,
    0xebc62a61736a57c9089d3a43509190a35050565b600082826040516020018083,
    0x8380828437808301925050509250505060405160208183030381529060405280,
    0x51906020012090505b92915050565b6106f882826107ef565b61070357600061,
    0x0705565b815b600160a060020a03928316600081815260208181526040808320,
    0x600160e060020a031996909616808452958252808320805473ffffffffffffff,
    0xffffffffffffffffffffffffff19169590971694909417909555908152600284,
    0x528181209281529190925220805460ff19166001179055565b600080600160a0,
    0x60020a038416156107905783610792565b335b905061079d8361092a565b1561,
    0x07c357826107ad82826108aa565b6107b85760006107ba565b815b9250505061,
    0x06e8565b600160a060020a039081166000908152602081815260408083208684,
    0x5290915290205416905092915050565b6000808061081d857f01ffc9a7000000,
    0x0000000000000000000000000000000000000000000000000061094c565b9092,
    0x50905081158061082d575080155b1561083d576000925050506106e8565b6108,
    0x4f85600160e060020a031961094c565b90925090508115806108605750801515,
    0x5b15610870576000925050506106e8565b61087a858561094c565b9092509050,
    0x60018214801561088f5750806001145b1561089f576001925050506106e8565b,
    0x506000949350505050565b600160a060020a0382166000908152600260209081,
    0x526040808320600160e060020a03198516845290915281205460ff1615156108,
    0xf2576108eb83836107ef565b90506106e8565b50600160a060020a0380831660,
    0x0081815260208181526040808320600160e060020a0319871684529091529020,
    0x549091161492915050565b7bffffffffffffffffffffffffffffffffffffffff,
    0xffffffffffffffff161590565b6040517f01ffc9a70000000000000000000000,
    0x0000000000000000000000000000000000808252600482018390526000918291,
    0x9060208160248189617530fa90519096909550935050505056fea165627a7a72,
    0x305820377f4a2d4301ede9949f163f319021a6e9c687c292a5e2b2c4734c126b].flatMap
    (bigEndian 32) ++ bigEndian 5 0x524e6c0029

end eip_1820

/-! ## Gas -/

/-- `gas_required_for(..) + tx_gas`, as a `u64`. -/
def transaction_gas (is_create : Bool) (data : Bytes) (spec : Spec) : HostM Nat := do
  let required ← Prog.expect .internal_gas_overflow (gas_required_for is_create data spec)
  Prog.assert (required + spec.tx_gas < 2 ^ 64) .internal_gas_overflow
  return required + spec.tx_gas

/-- The gas of the event that reports a call or creation with `data`. -/
def call_log_gas (spec : Spec) (data : Bytes) : Nat :=
  spec.log_gas + 3 * spec.log_topic_gas +
    spec.log_data_gas * (32 * 4 + (data.length + 31) / 32 * 32)

def return_log_gas (spec : Spec) : Nat :=
  spec.log_gas + spec.log_topic_gas + spec.log_data_gas * 32

def create_gas (spec : Spec) (code : Bytes) : HostM U256 := do
  let transaction_gas ← transaction_gas true code spec
  gas_sum (spec.create_gas + transaction_gas + spec.sha3_gas * 2 + call_log_gas spec code +
    return_log_gas spec)

def call_gas [Keccak] (receiver : Address) (params : ActionParams) (spec : Spec) (data : Bytes) :
    HostM U256 := do
  let transaction_gas ← transaction_gas false data spec
  let new_account := !(← Host.onState (State.exists_and_not_null receiver))
  let new_account_gas := if new_account then spec.call_new_account_gas * spec.evm_gas_ratio else 0
  let transfer_gas := if params.value.value.is_zero then 0 else spec.call_value_transfer_gas
  gas_sum (spec.call_gas + new_account_gas + transfer_gas + transaction_gas + spec.sha3_gas * 2 +
    call_log_gas spec data + return_log_gas spec)

def static_call_gas (spec : Spec) : Nat := spec.call_gas + spec.sha3_gas * 2

def withdraw_gas (spec : Spec) : Nat :=
  spec.call_value_transfer_gas + spec.tx_gas + spec.sha3_gas +
    (spec.log_gas + spec.log_topic_gas * 3 + spec.log_data_gas * 32 * 2)

/-! ## Events -/

def CallEvent : H256 := 0x124d1efd3ac32fa6aadb7a06e066c113471e0411fb56a5079cedbc3cdf7796e4

def CreateEvent : H256 := 0xd4f6dc315981682d51417b7092f1a151bfc6ebc3f637532f97ac479b86c4076d

def WithdrawEvent : H256 := 0x31328e08abcc622b23d8be96d45b371b10e42989dafc8ac56c85b33bb3584b92

def ReturnEvent : H256 := 0xbc11eabb6efd378a0a489b58a574c6e0d0403060e8a8c7b8eab45db47900edfe

/-! ## The cross-space contract -/

/-- The mapped account of an address. -/
def evm_map [Keccak] (address : Address) : Address := .from_hash (keccak address.to_bytes)

section
variable [Keccak] (g : Globals) (ctx : FrameContext)

/-- The gas that a cross-space call or creation passes on, and what is kept. -/
def split_gas (spec : Spec) (gas_left value : U256) : HostM (U256 × U256) := do
  let part := gas_left.toNat / CROSS_SPACE_GAS_RATIO
  let call_gas ← gas_sum (part + if value.is_zero then 0 else spec.call_stipend)
  return (call_gas, gas_left - BitVec.ofNat 256 part)

/-- Moves the value of the call on to the mapped account of the sender. -/
def forward_value (params : ActionParams) : HostM Unit := do
  let mapped_sender := evm_map params.sender
  Host.onTouched g.spec fun mode => State.transfer_balance params.address mapped_sender
    params.value.value mode g.spec.account_start_nonce
  Host.trace_internal_transfer (.Balance params.address) (.Balance mapped_sender)
    params.value.value

def call_to_evmcore (receiver : Address) (data : Bytes) (call_type : CallType)
    (params : ActionParams) (gas_left : U256) : HostM (Answer Bytes) := do
  if g.spec.max_depth ≤ ctx.depth then Prog.fail (.InternalContract "Exceed Depth")
  else
    let value := params.value.value
    let (call_gas, reserved_gas) ← split_gas g.spec gas_left value
    let mapped_sender := evm_map params.sender
    forward_value g params
    let code ← Host.onState (State.code receiver)
    let code_hash ← Host.onState (State.code_hash receiver)
    let next_params : ActionParams :=
      { sender := mapped_sender
        address := receiver
        value := .Transfer value
        code_address := receiver
        original_sender := evm_map params.original_sender
        gas := call_gas
        gas_price := params.gas_price
        code := code
        code_hash := code_hash
        data := some data
        call_type := call_type
        create_type := .None
        params_type := .Separate }
    Prog.when (call_type = .Call) do
      let nonce ← Host.onState (State.nonce mapped_sender)
      Host.onState (State.inc_nonce mapped_sender g.spec.account_start_nonce)
      log_event CallEvent ctx (mapped_sender.to_fixed_bytes, receiver.to_fixed_bytes)
        (value, nonce, data) params
    return .SubCallCreate (.Call next_params) ⟨params, reserved_gas⟩

def create_to_evmcore (init : Bytes) (salt : Option H256) (params : ActionParams)
    (gas_left : U256) : HostM (Answer (FixedBytes 20)) := do
  if g.spec.max_depth ≤ ctx.depth then Prog.fail (.InternalContract "Exceed Depth")
  else
    let value := params.value.value
    let (call_gas, reserved_gas) ← split_gas g.spec gas_left value
    let mapped_sender := evm_map params.sender
    forward_value g params
    let address_scheme : CreateContractAddress := match salt with
      | none => .FromSenderNonce
      | some salt => .FromSenderSaltAndCodeHash salt
    let nonce ← Host.onState (State.nonce mapped_sender)
    let (address, code_hash) := contract_address address_scheme mapped_sender nonce init
    let next_params : ActionParams :=
      { code_address := address
        address := address
        sender := mapped_sender
        original_sender := evm_map params.original_sender
        gas := call_gas
        gas_price := params.gas_price
        value := .Transfer value
        code := some init
        code_hash := code_hash
        data := none
        call_type := .None
        create_type := .from_address_scheme address_scheme
        params_type := .Embedded }
    let nonce ← Host.onState (State.nonce mapped_sender)
    Host.onState (State.inc_nonce mapped_sender g.spec.account_start_nonce)
    log_event CreateEvent ctx (mapped_sender.to_fixed_bytes, address.to_fixed_bytes)
      (value, nonce, init) params
    return .SubCallCreate (.Create next_params) ⟨params, reserved_gas⟩

def withdraw_from_evmcore (sender : Address) (value : U256) (params : ActionParams) :
    HostM Unit := do
  let mapped_address := evm_map sender
  let balance ← Host.onState (State.balance mapped_address)
  if balance.toNat < value.toNat then
    Prog.fail (.InternalContract "Not enough balance for withdrawing from mapped address")
  else
    Host.onTouched g.spec fun mode =>
      State.transfer_balance mapped_address sender value mode g.spec.account_start_nonce
    Host.trace_internal_transfer (.Balance mapped_address) (.Balance sender) value
    let nonce ← Host.onState (State.nonce mapped_address)
    Host.onState (State.inc_nonce mapped_address g.spec.account_start_nonce)
    log_event WithdrawEvent ctx (mapped_address.to_fixed_bytes, sender) (value, nonce) params

def mapped_balance (address : Address) : HostM U256 :=
  Host.onState (State.balance (evm_map address))

def mapped_nonce (address : Address) : HostM U256 := Host.onState (State.nonce (evm_map address))

/-- Deploys the EIP-1820 registry. -/
def deploy_eip1820 : HostM Unit := do
  let address := eip_1820.ADDRESS
  if ← Host.onState (State.is_contract_with_code address) then
    Prog.fail (.InternalContract "eip-1820 contract has been deployed.")
  else
    Host.onState (State.new_contract address 0 1)
    Host.onState (State.init_code address eip_1820.BYTE_CODE)
    Prog.update fun h =>
      { h with substate :=
        { h.substate with contracts_created := h.substate.contracts_created ++ [address] } }

end

/-! ## The tables of functions -/

/-- The functions of the internal contracts. -/
inductive SolidityFunction
  | CreateToEVM
  | TransferToEVM
  | CallToEVM
  | StaticCallToEVM
  | Withdraw
  | MappedBalance
  | MappedNonce
  | DeployEip1820
  | EpochNumber
  | PoSHeight
  | FinalizedEpoch
  deriving DecidableEq, Repr

namespace SolidityFunction

/-- The first bytes of the hash of the signature. -/
def FUNC_SIG : SolidityFunction → Bytes
  | CreateToEVM => [0xff, 0x31, 0x16, 0x01]
  | TransferToEVM => [0xda, 0x8d, 0x5d, 0xaf]
  | CallToEVM => [0xbe, 0xa0, 0x5e, 0xe3]
  | StaticCallToEVM => [0x30, 0xb4, 0xef, 0x7d]
  | Withdraw => [0xc2, 0x3e, 0xf0, 0x31]
  | MappedBalance => [0x14, 0x2b, 0x37, 0xc7]
  | MappedNonce => [0xb5, 0x91, 0x49, 0x44]
  | DeployEip1820 => [0x36, 0x20, 0x17, 0x22]
  | EpochNumber => [0xf4, 0x14, 0x5a, 0x83]
  | PoSHeight => [0x22, 0x79, 0x07, 0xb4]
  | FinalizedEpoch => [0x23, 0xad, 0xad, 0x10]

def is_active (f : SolidityFunction) (spec : Spec) : Bool :=
  match f with
  | EpochNumber | PoSHeight | FinalizedEpoch => spec.cip64
  | _ => spec.cip90

def function_type : SolidityFunction → FunctionType
  | CreateToEVM | TransferToEVM | CallToEVM => .payable_write
  | Withdraw | DeployEip1820 => .non_payable_write
  | _ => .query

variable [Keccak] (g : Globals) (ctx : FrameContext)

/-- A question about the block, with the price of the `NUMBER` instruction. -/
def block_query (answer : U256) (input : Bytes) (params : ActionParams) : HostM (Answer GasLeft) :=
  run_function g.spec .query
    (fun _ : Unit => gas_sum ((g.spec.tier_step_gas[GasPriceTier.Base.idx]?).getD 0))
    (simple fun _ => return answer) input params

def execute (f : SolidityFunction) (input : Bytes) (params : ActionParams) :
    HostM (Answer GasLeft) :=
  let spec := g.spec
  match f with
  | CreateToEVM => run_function spec f.function_type
      (fun init : Bytes => create_gas spec init)
      (fun init gas_left => create_to_evmcore g ctx init none params gas_left) input params
  | TransferToEVM => run_function spec f.function_type
      (fun receiver : FixedBytes 20 => call_gas receiver.to_address params spec [])
      (fun to_ gas_left => call_to_evmcore g ctx to_.to_address [] .Call params gas_left)
      input params
  | CallToEVM => run_function spec f.function_type
      (fun i : FixedBytes 20 × Bytes => call_gas i.1.to_address params spec i.2)
      (fun i gas_left => call_to_evmcore g ctx i.1.to_address i.2 .Call params gas_left)
      input params
  | StaticCallToEVM => run_function spec f.function_type
      (fun _ : FixedBytes 20 × Bytes => gas_sum (static_call_gas spec))
      (fun i gas_left => call_to_evmcore g ctx i.1.to_address i.2 .StaticCall params gas_left)
      input params
  | Withdraw => run_function spec f.function_type
      (fun _ : U256 => gas_sum (withdraw_gas spec))
      (simple fun value => withdraw_from_evmcore g ctx params.sender value params) input params
  | MappedBalance => run_function spec f.function_type
      (fun _ : Address => gas_sum (spec.balance_gas + spec.sha3_gas))
      (simple mapped_balance) input params
  | MappedNonce => run_function spec f.function_type
      (fun _ : Address => gas_sum (spec.balance_gas + spec.sha3_gas))
      (simple mapped_nonce) input params
  | DeployEip1820 => run_function spec f.function_type
      (fun _ : Unit => gas_sum spec.eip1820_gas) (simple fun _ => deploy_eip1820) input params
  | EpochNumber => block_query g (BitVec.ofNat 256 g.env.epoch_height.toNat) input params
  | PoSHeight => block_query g 0 input params
  | FinalizedEpoch => block_query g 0 input params

end SolidityFunction

namespace InternalContract

def get_func_table : InternalContract → List SolidityFunction
  | Context => [.EpochNumber, .PoSHeight, .FinalizedEpoch]
  | CrossSpaceCall => [.CreateToEVM, .TransferToEVM, .CallToEVM, .StaticCallToEVM, .Withdraw,
      .MappedBalance, .MappedNonce, .DeployEip1820]
  | _ => []

/-- The function that the data asks for, and its input. -/
def load_solidity_fn (data : Option Bytes) (func_table : List SolidityFunction) (spec : Spec) :
    Except VmError (SolidityFunction × Bytes) :=
  match data with
  | none => .error (abi_decode_error "None call data")
  | some call_data =>
    if call_data.length < 4 then .error (abi_decode_error "Incomplete function signature")
    else
      let func := func_table.find? fun f => f.FUNC_SIG == call_data.take 4
      match func.filter fun f => f.is_active spec with
      | some f => .ok (f, call_data.drop 4)
      | none => .error (.InternalContract "unsupported function")

/-- The data of the call asks for the deployment of the EIP-1820 registry. -/
def Deploys (g : Globals) (c : InternalContract) (params : ActionParams) : Prop :=
  ∃ input, load_solidity_fn params.data c.get_func_table g.spec = .ok (.DeployEip1820, input)

variable [Keccak] (g : Globals) (ctx : FrameContext)

def execute (c : InternalContract) (params : ActionParams) : HostM (Answer GasLeft) := do
  let (solidity_fn, call_params) ←
    Prog.ofExcept (load_solidity_fn params.data c.get_func_table g.spec)
  solidity_fn.execute g ctx call_params params

/-- `InternalContractExec::exec`. -/
def exec (c : InternalContract) (params : ActionParams) : HostM (Answer GasLeft) :=
  if params.call_type = .Call || params.call_type = .StaticCall then c.execute g ctx params
  else Prog.fail (.InternalContract "Incorrect call type.")

end InternalContract

/-! ## The way back -/

/-- The result of a call or creation on its way back to the caller of the cross-space contract. -/
structure PassResult where
  resume : Resume
  gas_left : U256
  return_data : Except VmError ReturnData
  apply_state : Bool

namespace Resume

/-- The result with the encoded output of a call or creation that succeeded. -/
def pass_output (self : Resume) (gas_left : U256) (output : Except Panic Bytes) :
    Except Panic PassResult :=
  output.map fun output => ⟨self, gas_left, .ok ⟨output, 0, output.length⟩, true⟩

def resume_create (self : Resume) (result : ContractCreateResult) : Except Panic PassResult :=
  match result with
  | .Created address gas_left => self.pass_output gas_left (abi_encode address.to_fixed_bytes)
  | .Failed err => .ok ⟨self, 0, .error err, false⟩
  | .Reverted gas_left data => .ok ⟨self, gas_left, .ok data, false⟩

def resume_call (self : Resume) (result : MessageCallResult) : Except Panic PassResult :=
  match result with
  | .Success gas_left data => self.pass_output gas_left
      (match data.deref with
        | some bytes => abi_encode bytes
        | none => .error .memory_out_of_range)
  | .Failed err => .ok ⟨self, 0, .error err, false⟩
  | .Reverted gas_left data => .ok ⟨self, gas_left, .ok data, false⟩

end Resume

/-- Reports the outcome and charges for the returned data. -/
def PassResult.exec [Keccak] (g : Globals) (ctx : FrameContext) (self : PassResult) :
    HostM GasLeft := do
  Prog.when (!ctx.static_flag) do
    let logged ← Prog.result
      (log_event ReturnEvent ctx () self.apply_state self.resume.params)
    Prog.assert logged.isOk .return_event
  let data ← Prog.ofExcept self.return_data
  let return_cost := (data.len + 31) / 32 * g.spec.memory_gas
  let gas_left ← Prog.expect .internal_gas_overflow
    (U256.checked_add self.gas_left self.resume.gas_retained)
  if gas_left.toNat < return_cost then Prog.fail .OutOfGas
  else return .NeedsReturn (gas_left - BitVec.ofNat 256 return_cost) data self.apply_state

end CfxEvm
