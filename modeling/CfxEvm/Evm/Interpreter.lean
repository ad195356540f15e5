import CfxEvm.Evm.Arith
import CfxEvm.Evm.Gasometer
import CfxEvm.Evm.Memory
import CfxEvm.Lib.Loop

/-!
# The interpreter

One call of `step` fetches, prices and executes one instruction, or takes up the result of a call
or creation that was run in between. The instructions work on the local part of the interpreter and
on the host; the arms that touch the local part alone are marked by `plain`.
-/

open Lib

namespace CfxEvm

/-- Maximal subroutine stack size. -/
def MAX_SUB_STACK_SIZE : Nat := 1023

/-- ActionParams without code. -/
structure InterpreterParams where
  code_address : Address
  code_hash : Option H256
  address : Address
  sender : Address
  original_sender : Address
  gas : U256
  gas_price : U256
  value : ActionValue
  data : Option Bytes
  call_type : CallType
  params_type : ParamsType
  deriving DecidableEq, Repr

def InterpreterParams.of_params (params : ActionParams) : InterpreterParams where
  code_address := params.code_address
  code_hash := params.code_hash
  address := params.address
  sender := params.sender
  original_sender := params.original_sender
  gas := params.gas
  gas_price := params.gas_price
  value := params.value
  data := params.data
  call_type := params.call_type
  params_type := params.params_type

/-- What executing an instruction asks the interpreter to do next. -/
inductive InstructionResult (c : CostType)
  | Ok
  | UnusedGas (gas : Cost c)
  | JumpToPosition (position : U256)
  | JumpToSubroutine (position : U256)
  | ReturnFromSubroutine (pos : Nat)
  | StopExecutionNeedsReturn (gas : Cost c) (init_off init_size : U256) (apply : Bool)
  | StopExecution
  | Trap (trap : TrapKind)

/-- Stepping result returned by the interpreter. -/
inductive InterpreterResult
  | Stopped
  | Done (result : Except VmError GasLeft)
  | Continue
  | Trap (trap : TrapKind)

/-- Interpreter EVM implementation. -/
structure Interpreter (c : CostType) extends Local where
  params : InterpreterParams
  /-- `reader.code`. -/
  code : Bytes
  done : Bool
  valid_jump_destinations : Option Bits
  valid_subroutine_destinations : Option Bits
  gasometer : Option (Gasometer c)
  resume_result : Option (InstructionResult c)

/-- Programs over the local part of the interpreter and the host. -/
abbrev ExecM (α : Type) := Prog Panic (Local × Host State) VmError α

namespace Interpreter

def onLocal {α : Type} (x : LocalM α) : ExecM α :=
  Prog.zoom Prod.fst (fun l p => (l, p.2)) x

def onHost {α : Type} (x : HostM α) : ExecM α :=
  Prog.zoom Prod.snd (fun h p => (p.1, h)) x

section
variable {c : CostType}

/-- An arm that does not ask the host for anything and falls through to `Ok`. -/
def plain (x : LocalM Unit) : ExecM (InstructionResult c) := do
  onLocal x
  return .Ok

/-- An arm with two operands. -/
def binary (f : U256 → U256 → U256) : ExecM (InstructionResult c) := plain do
  let a ← Local.pop_back
  let b ← Local.pop_back
  Local.push (f a b)

/-- An arm that puts a word on the stack. -/
def constant (value : U256) : ExecM (InstructionResult c) := plain (Local.push value)

/-- A length or a number of the environment as a word. -/
def word (n : Nat) : U256 := BitVec.ofNat 256 n

section
variable [Keccak] (g : Globals) (ctx : FrameContext) (params : InterpreterParams) (code : Bytes)

/-- An arm that replaces the address on top of the stack by what the host says about it. -/
def query {α : Type} (read : Address → HostM α) (f : α → U256) : ExecM (InstructionResult c) := do
  let address := u256_to_address (← onLocal Local.pop_back)
  let answer ← onHost (read address)
  onLocal (Local.push (f answer))
  return .Ok

/-- How the address of the new contract is computed: `CREATE2` takes a salt. -/
def pop_address_scheme (instruction : Instruction) : LocalM CreateContractAddress :=
  if instruction = .CREATE2 then do return .FromSenderSaltAndCodeHash (← Local.pop_back)
  else return .FromSenderNonce

/-- `CREATE` and `CREATE2`. -/
def exec_create (instruction : Instruction) (provided : Option (Cost c)) :
    ExecM (InstructionResult c) := do
  let endowment ← onLocal Local.pop_back
  let init_off ← onLocal Local.pop_back
  let init_size ← onLocal Local.pop_back
  let address_scheme ← onLocal (pop_address_scheme instruction)
  let create_gas ← Prog.expect .provided_missing provided
  if ctx.static_flag then Prog.fail .MutableCallInStaticContext
  else
    -- clear return data buffer before creating new call frame.
    onLocal (Prog.update fun l => { l with return_data := .empty })
    let balance ← onHost (Context.balance params.address)
    if endowment.toNat ≤ balance.toNat && ctx.depth < g.spec.max_depth then
      let contract_code ← onLocal (Local.read_slice init_off init_size)
      let trap ← onHost
        (Context.create g ctx (Cost.as_u256 create_gas) endowment contract_code address_scheme)
      return .Trap trap
    else
      onLocal (Local.push 0)
      return .UnusedGas create_gas

/-- The value operand of a call instruction: none for a delegate call. -/
def call_value (instruction : Instruction) : LocalM (Option U256) :=
  if instruction = .DELEGATECALL then return none
  else if instruction = .STATICCALL then return some 0
  else do return some (← Local.pop_back)

/-- The stipend of a call with the given value. -/
def stipend (spec : Spec) (value : Option U256) : Nat :=
  match value with
  | some val => if val.is_zero then 0 else spec.call_stipend
  | none => 0

/-- Sender and receiver of a call, whether the balance is enough for it, and its type. -/
def call_target (instruction : Instruction) (code_address : Address) (value : Option U256) :
    HostM (Address × Address × Bool × CallType) :=
  match instruction with
  | .CALL =>
    if ctx.static_flag && !(value.getD 0).is_zero then Prog.fail .MutableCallInStaticContext
    else do
      let balance ← Context.balance params.address
      return (params.address, code_address, (value.getD 0).toNat ≤ balance.toNat, .Call)
  | .CALLCODE => do
    let balance ← Context.balance params.address
    return (params.address, params.address, (value.getD 0).toNat ≤ balance.toNat, .CallCode)
  | .DELEGATECALL => return (params.sender, params.address, true, .DelegateCall)
  | _ => return (params.address, code_address, true, .StaticCall)

/-- `CALL`, `CALLCODE`, `DELEGATECALL` and `STATICCALL`. -/
def exec_call (instruction : Instruction) (provided : Option (Cost c)) :
    ExecM (InstructionResult c) := do
  Prog.assert (g.spec.call_stipend < g.spec.call_value_transfer_gas) .overflow_possible
  let _ ← onLocal Local.pop_back
  let call_gas ← Prog.expect .provided_missing provided
  let code_address := u256_to_address (← onLocal Local.pop_back)
  let value ← onLocal (call_value instruction)
  let in_off ← onLocal Local.pop_back
  let in_size ← onLocal Local.pop_back
  let out_off ← onLocal Local.pop_back
  let out_size ← onLocal Local.pop_back
  -- Add stipend (only CALL|CALLCODE when value > 0)
  let call_gas ← Prog.expect .cost_overflow
    (Cost.checked_add call_gas (Cost.from (stipend g.spec value)))
  let (sender_address, receive_address, has_balance, call_type) ←
    onHost (call_target ctx params instruction code_address value)
  -- clear return data buffer before creating new call frame.
  onLocal (Prog.update fun l => { l with return_data := .empty })
  if has_balance && ctx.depth < g.spec.max_depth then
    let input ← onLocal (Local.read_slice in_off in_size)
    let trap ← onHost (Context.call g ctx (Cost.as_u256 call_gas) sender_address receive_address
      value input code_address call_type)
    onLocal (Prog.update fun l => { l with resume_output_range := some (out_off, out_size) })
    return .Trap trap
  else
    onLocal (Local.push 0)
    return .UnusedGas call_gas

/-- Executes an instruction that has been paid for; `gas` is what is left. -/
def exec_instruction (gas : Cost c) (instruction : Instruction) (provided : Option (Cost c)) :
    ExecM (InstructionResult c) :=
  match instruction with
  | .JUMP => do return .JumpToPosition (← onLocal Local.pop_back)
  | .JUMPI => do
    let jump ← onLocal Local.pop_back
    let condition ← onLocal Local.pop_back
    return if !condition.is_zero then .JumpToPosition jump else .Ok
  | .JUMPDEST => return .Ok
  | .BEGINSUB => Prog.fail .InvalidSubEntry
  | .JUMPSUB => do
    let return_stack ← Prog.gets fun p => p.1.return_stack
    if MAX_SUB_STACK_SIZE ≤ return_stack.length then Prog.fail (.OutOfSubStack 1 MAX_SUB_STACK_SIZE)
    else return .JumpToSubroutine (← onLocal Local.pop_back)
  | .RETURNSUB => do
    match ← Prog.gets fun p => p.1.return_stack with
    | pos :: rest =>
      onLocal (Prog.update fun l => { l with return_stack := rest })
      return .ReturnFromSubroutine pos
    | [] => Prog.fail (.SubStackUnderflow 1 0)
  | .CREATE | .CREATE2 => exec_create g ctx params instruction provided
  | .CALL | .CALLCODE | .DELEGATECALL | .STATICCALL =>
    exec_call g ctx params instruction provided
  | .RETURN => do
    let init_off ← onLocal Local.pop_back
    let init_size ← onLocal Local.pop_back
    return .StopExecutionNeedsReturn gas init_off init_size true
  | .REVERT => do
    let init_off ← onLocal Local.pop_back
    let init_size ← onLocal Local.pop_back
    return .StopExecutionNeedsReturn gas init_off init_size false
  | .STOP => return .StopExecution
  | .SUICIDE => do
    let refund_address := u256_to_address (← onLocal Local.pop_back)
    onHost (Context.suicide g ctx refund_address g.spec.account_start_nonce)
    return .StopExecution
  | .LOG no_of_topics => do
    let offset ← onLocal Local.pop_back
    let size ← onLocal Local.pop_back
    let topics ← onLocal (Local.pop_n no_of_topics)
    let data ← onLocal (Local.read_slice offset size)
    onHost (Context.log ctx topics data)
    return .Ok
  | .PUSH i => plain do Local.push (← Local.read code (i + 1))
  | .MLOAD => plain do
    let offset ← Local.pop_back
    let word ← Prog.expect .memory_out_of_range (Memory.read (← Prog.gets Local.mem) offset)
    Local.push word
  | .MSTORE => plain do
    let offset ← Local.pop_back
    let word ← Local.pop_back
    Local.set_mem (Memory.write (← Prog.gets Local.mem) offset word)
  | .MSTORE8 => plain do
    let offset ← Local.pop_back
    let byte ← Local.pop_back
    Local.set_mem (Memory.write_byte (← Prog.gets Local.mem) offset byte)
  | .MSIZE => plain do Local.push (word (← Prog.gets Local.mem).length)
  | .SHA3 => plain do
    let offset ← Local.pop_back
    let size ← Local.pop_back
    Local.push (keccak (← Local.read_slice offset size))
  | .SLOAD => do
    let key := (← onLocal Local.pop_back).to_big_endian
    let word ← onHost (Context.storage_at ctx key)
    onLocal (Local.push word)
    return .Ok
  | .SSTORE => do
    let key := (← onLocal Local.pop_back).to_big_endian
    let val ← onLocal Local.pop_back
    onHost (Context.set_storage ctx key val)
    return .Ok
  | .PC => plain do Local.push (word ((← Prog.gets Local.position) - 1))
  | .GAS => constant (Cost.as_u256 gas)
  | .ADDRESS => constant (address_to_u256 params.address)
  | .ORIGIN => constant (address_to_u256 params.original_sender)
  | .BALANCE => query Context.balance id
  | .CALLER => constant (address_to_u256 params.sender)
  | .CALLVALUE => constant params.value.value
  | .CALLDATALOAD => plain do
    let big_id ← Local.pop_back
    let id := big_id.low_u64
    let data := params.data.getD []
    let bound := min data.length ((id + 32) % 2 ^ 64)
    Local.push (if id < bound && big_id.toNat < data.length
      then U256.from_big_endian ((data.drop id).take (bound - id) ++
        List.replicate (32 - (bound - id)) 0) else 0)
  | .CALLDATASIZE => constant (word (params.data.getD []).length)
  | .CODESIZE => constant (word code.length)
  | .RETURNDATASIZE => plain do Local.push (word (← Local.return_bytes).length)
  | .EXTCODESIZE => query (Context.extcodesize g) fun len => word (len.getD 0)
  | .EXTCODEHASH => query (Context.extcodehash g) fun hash => hash.getD 0
  | .CALLDATACOPY => plain (Local.copy_data_to_memory (params.data.getD []))
  | .RETURNDATACOPY => plain do
    let source_offset ← Local.peek 1
    let size ← Local.peek 2
    let return_data ← Local.return_bytes
    if return_data.length < (U256.saturating_add source_offset size).toNat
    then Prog.fail .OutOfBounds
    else Local.copy_data_to_memory return_data
  | .CODECOPY => plain (Local.copy_data_to_memory code)
  | .EXTCODECOPY => do
    let address := u256_to_address (← onLocal Local.pop_back)
    let code ← onHost (Context.extcode g address)
    onLocal (Local.copy_data_to_memory (code.getD []))
    return .Ok
  | .GASPRICE => constant params.gas_price
  | .BLOCKHASH => do
    let block_number ← onLocal Local.pop_back
    let block_hash ← onHost (Context.blockhash g block_number)
    onLocal (Local.push block_hash)
    return .Ok
  | .COINBASE => constant (address_to_u256 g.env.author)
  | .TIMESTAMP => constant (word g.env.timestamp.toNat)
  | .NUMBER => constant (word g.env.epoch_height.toNat)
  | .DIFFICULTY => constant g.env.difficulty
  | .GASLIMIT => constant g.env.gas_limit
  | .CHAINID => constant (word (g.machine.chain_id g.env.epoch_height).toNat)
  | .SELFBALANCE => do
    let balance ← onHost (Context.balance params.address)
    onLocal (Local.push balance)
    return .Ok
  | .DUP i => plain do Local.push (← Local.peek i)
  | .SWAP i => plain (Local.swap_with_top (i + 1))
  | .POP => plain do
    let _ ← Local.pop_back
    return ()
  | .ADD => binary fun a b => a + b
  | .MUL => binary fun a b => a * b
  | .SUB => binary fun a b => a - b
  | .DIV => binary Word.div
  | .MOD => binary Word.mod
  | .SDIV => binary Word.sdiv
  | .SMOD => binary Word.smod
  | .EXP => binary U256.overflowing_pow
  | .NOT => plain do Local.push (~~~(← Local.pop_back))
  | .LT => binary fun a b => Word.bool_to_u256 (a.toNat < b.toNat)
  | .SLT => binary Word.slt
  | .GT => binary fun a b => Word.bool_to_u256 (b.toNat < a.toNat)
  | .SGT => binary Word.sgt
  | .EQ => binary fun a b => Word.bool_to_u256 (a == b)
  | .ISZERO => plain do Local.push (Word.bool_to_u256 (← Local.pop_back).is_zero)
  | .AND => binary fun a b => a &&& b
  | .OR => binary fun a b => a ||| b
  | .XOR => binary fun a b => a ^^^ b
  | .BYTE => binary Word.byte
  | .ADDMOD => plain do
    let a ← Local.pop_back
    let b ← Local.pop_back
    let c ← Local.pop_back
    Local.push (← Prog.expect .word_overflow (Word.addmod a b c))
  | .MULMOD => plain do
    let a ← Local.pop_back
    let b ← Local.pop_back
    let c ← Local.pop_back
    Local.push (← Prog.expect .word_overflow (Word.mulmod a b c))
  | .SIGNEXTEND => plain do
    let bit ← Local.pop_back
    Prog.when (bit.toNat < 32) do
      let number ← Local.pop_back
      Local.push (Word.signextend bit number)
  | .SHL => binary Word.shl
  | .SHR => binary Word.shr
  | .SAR => binary Word.sar

end

/-! ## Steps -/

/-- Programs of an interpreter. Their errors end the execution of the frame. -/
abbrev StepM (c : CostType) (α : Type) := Prog Panic (Interpreter c × Host State) VmError α

/-- Runs a program over the local part and the host. -/
def onExec {α : Type} (x : ExecM α) : StepM c α :=
  Prog.zoom (fun p => (p.1.toLocal, p.2)) (fun q p => ({ p.1 with toLocal := q.1 }, q.2)) x

/-- Runs a program over the host. -/
def onStepHost {α : Type} (x : HostM α) : StepM c α :=
  Prog.zoom Prod.snd (fun h p => (p.1, h)) x

/-- Changes the interpreter. -/
def modify (f : Interpreter c → Interpreter c) : StepM c Unit := Prog.update fun p => (f p.1, p.2)

def get_gasometer : StepM c (Gasometer c) := do
  Prog.expect .gasometer_missing (← Prog.gets fun p => p.1.gasometer)

def verify_instruction (spec : Spec) (stack_size : Nat) (info : InstructionInfo) :
    StepM c Unit :=
  if stack_size < info.args then Prog.fail (.StackUnderflow info.name info.args stack_size)
  else if spec.stack_limit < stack_size - info.args + info.ret then do
    Prog.assert (info.args ≤ info.ret) .stack_out_of_range
    Prog.fail (.OutOfStack info.name (info.ret - info.args) spec.stack_limit)
  else return ()

def verify_jump (jump_u : U256) (valid_jump_destinations : Bits) : Except VmError Nat :=
  let jump := jump_u.low_u64
  if valid_jump_destinations.members.contains jump && jump == jump_u.toNat then .ok jump
  else .error (.BadJumpDestination jump)

section
variable [Keccak] (g : Globals) (ctx : FrameContext)

/-- Fetches the next instruction, charges for it and executes it. -/
def exec_next : StepM c (InstructionResult c) := do
  let self ← Prog.gets Prod.fst
  let opcode ← Prog.expect .code_out_of_range self.code[self.position]?
  modify fun i => { i with position := i.position + 1 }
  match Instruction.from_u8 opcode with
  | none => Prog.fail (.BadInstruction opcode)
  | some instruction =>
    verify_instruction g.spec self.stack.length instruction.info
    let gasometer ← get_gasometer
    let requirements ← onStepHost
      (gasometer.requirements g ctx instruction self.stack self.mem.length)
    Prog.ofExcept (gasometer.verify_gas requirements.gas_cost)
    let current_gas ← Prog.expect .cost_underflow
      (Cost.checked_sub gasometer.current_gas requirements.gas_cost)
    modify fun i =>
      { i with
        mem := Memory.expand i.mem requirements.memory_required_size
        gasometer := some ⟨current_gas, requirements.memory_total_gas⟩ }
    onExec (exec_instruction g ctx self.params self.code current_gas instruction
      requirements.provide_gas)

/-- The jump destinations of the code, found on the first jump. -/
def jump_destinations : StepM c Bits := do
  match ← Prog.gets fun p => p.1.valid_jump_destinations with
  | some dests => return dests
  | none =>
    let (self, host) ← Prog.gets id
    let (item, cache) :=
      host.shared_cache.jump_and_sub_destinations self.params.code_hash self.code
    Prog.update fun p =>
      ({ p.1 with valid_jump_destinations := some item.jump_destination },
        { p.2 with shared_cache := cache })
    return item.jump_destination

/-- The subroutine entries of the code, found on the first jump to one. -/
def subroutine_destinations : StepM c Bits := do
  match ← Prog.gets fun p => p.1.valid_subroutine_destinations with
  | some dests => return dests
  | none =>
    let (self, host) ← Prog.gets id
    let (item, cache) :=
      host.shared_cache.jump_and_sub_destinations self.params.code_hash self.code
    Prog.update fun p =>
      ({ p.1 with valid_subroutine_destinations := some item.sub_entrypoint },
        { p.2 with shared_cache := cache })
    return item.sub_entrypoint

/-- The gas left so far, when the execution stops by itself. -/
def known_gas : StepM c InterpreterResult := do
  let gasometer ← get_gasometer
  return .Done (.ok (.Known (Cost.as_u256 gasometer.current_gas)))

/-- Stops at the end of the code. -/
def check_end : StepM c InterpreterResult := do
  let self ← Prog.gets Prod.fst
  if self.code.length ≤ self.position then known_gas else return .Continue

/-- Moves on after an instruction, according to its result. -/
def advance (result : InstructionResult c) : StepM c InterpreterResult :=
  match result with
  | .Trap trap => return .Trap trap
  | .UnusedGas gas => do
    let gasometer ← get_gasometer
    let current_gas ← Prog.expect .cost_overflow (Cost.checked_add gasometer.current_gas gas)
    modify fun i => { i with gasometer := some { gasometer with current_gas := current_gas } }
    check_end
  | .JumpToPosition position => do
    let dests ← jump_destinations
    let pos ← Prog.ofExcept (verify_jump position dests)
    modify fun i => { i with position := pos }
    check_end
  | .JumpToSubroutine position => do
    let dests ← subroutine_destinations
    let pos ← Prog.ofExcept (verify_jump position dests)
    -- JUMPSUB will land on the next position after BEGINSUB
    modify fun i => { i with return_stack := i.position :: i.return_stack, position := pos + 1 }
    check_end
  | .ReturnFromSubroutine pos => do
    modify fun i => { i with position := pos }
    check_end
  | .StopExecutionNeedsReturn gas init_off init_size apply => do
    let mem ← Prog.gets fun p => p.1.mem
    modify fun i => { i with mem := [] }
    let data ← Prog.expect .memory_out_of_range (Memory.into_return_data mem init_off init_size)
    return .Done (.ok (.NeedsReturn (Cost.as_u256 gas) data apply))
  | .StopExecution => known_gas
  | .Ok => check_end

/-- The result that was waited for if there is one, else the one of the next instruction. -/
def next_result : StepM c (InstructionResult c) := do
  match ← Prog.gets fun p => p.1.resume_result with
  | some result =>
    modify fun i => { i with resume_result := none }
    return result
  | none => exec_next g ctx

/-- Inner helper function for step. -/
def step_inner : StepM c InterpreterResult := do
  let result ← next_result g ctx
  advance result

/-- Marks the interpreter as done once it is. -/
def mark_done (result : InterpreterResult) : StepM c InterpreterResult :=
  match result with
  | .Done _ => do
    modify fun i => { i with done := true }
    return result
  | _ => return result

/-- Execute a single step on the VM. -/
def step : StepM c InterpreterResult := do
  let self ← Prog.gets Prod.fst
  if self.done then return .Stopped
  else
    match self.gasometer with
    | none => mark_done (.Done (.error .OutOfGas))
    | some gasometer =>
      if self.code.isEmpty then
        mark_done (.Done (.ok (.Known (Cost.as_u256 gasometer.current_gas))))
      else
        match ← Prog.result (step_inner g ctx) with
        | .ok result => mark_done result
        | .error e => mark_done (.Done (.error e))

/-- One round of the loop of `exec`. -/
def round : StepM c (Option InterpreterResult) := do
  match ← step g ctx with
  | .Continue => return none
  | result => return some result

/-- The loop of `exec`, in at most `fuel` steps. -/
def exec (fuel : Nat) : StepM c (Option InterpreterResult) := Prog.loop (round g ctx) fuel

end

/-! ## Creation and resumption -/

/-- Create a new interpreter. -/
def new (params : ActionParams) (code : Bytes) : Interpreter c where
  params := .of_params params
  code := code
  mem := []
  position := 0
  return_data := .empty
  stack := []
  return_stack := []
  resume_output_range := none
  done := false
  valid_jump_destinations := none
  valid_subroutine_destinations := none
  gasometer := match (Cost.from_u256 params.gas : Except VmError (Cost c)) with
    | .ok gas => some (Gasometer.new gas)
    | .error _ => none
  resume_result := none

/-- `Cost::from_u256(gas_left).expect(..)`. -/
def unused_gas (gas_left : U256) : Except Panic (InstructionResult c) :=
  match (Cost.from_u256 gas_left : Except VmError (Cost c)) with
  | .ok gas => .ok (.UnusedGas gas)
  | .error _ => .error .gas_left_cannot_be_greater

/-- The interpreter after a call that returned data: the output is copied to the memory. -/
def returned (self : Interpreter c) (out : U256 × U256) (flag : U256) (gas_left : U256)
    (data : ReturnData) : Except Panic (Interpreter c) :=
  match data.deref with
  | none => .error .memory_out_of_range
  | some bytes =>
    match Memory.write_output self.mem out.1 out.2 bytes with
    | none => .error .memory_out_of_range
    | some mem => (unused_gas gas_left).map fun result =>
      { self with
        mem := mem
        return_data := data
        stack := flag :: self.stack
        resume_output_range := none
        resume_result := some result }

def resume_call (self : Interpreter c) (result : MessageCallResult) :
    Except Panic (Interpreter c) :=
  match self.resume_output_range with
  | none => .error .resume_output_range_missing
  | some out =>
    match result with
    | .Success gas_left data => self.returned out 1 gas_left data
    | .Reverted gas_left data => self.returned out 0 gas_left data
    | .Failed _ => .ok
      { self with
        stack := 0 :: self.stack
        resume_output_range := none
        resume_result := some .Ok }

def resume_create (self : Interpreter c) (result : ContractCreateResult) :
    Except Panic (Interpreter c) :=
  match result with
  | .Created address gas_left => (unused_gas gas_left).map fun result =>
      { self with stack := address_to_u256 address :: self.stack, resume_result := some result }
  | .Reverted gas_left return_data => (unused_gas gas_left).map fun result =>
      { self with
        stack := 0 :: self.stack, return_data := return_data, resume_result := some result }
  | .Failed _ => .ok { self with stack := 0 :: self.stack, resume_result := some .Ok }

/-! ## What the next step works on -/

/-- An opcode is fetched by the next step. -/
def Fetches (self : Interpreter c) : Prop :=
  self.done = false ∧ self.gasometer.isSome ∧ self.code ≠ [] ∧ self.resume_result = none

/-- The instruction under the position. -/
def fetched (self : Interpreter c) : Option Instruction :=
  self.code[self.position]?.bind Instruction.from_u8

/-! ## The gas it holds -/

/-- `current_gas`, or nothing when the gas of the frame did not fit. -/
def gas (self : Interpreter c) : Nat :=
  match self.gasometer with
  | some m => m.current_gas.toNat
  | none => 0

/-- The gas that came back with a result which has not been taken up yet. -/
def pending (self : Interpreter c) : Nat :=
  match self.resume_result with
  | some (.UnusedGas gas) => gas.toNat
  | _ => 0

end

end Interpreter

end CfxEvm
