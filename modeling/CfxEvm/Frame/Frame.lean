import CfxEvm.Evm.Interpreter
import CfxEvm.InternalContract.CrossSpace

/-!
# Frames

A frame is one call or creation: it opens a checkpoint, moves the value, runs what stands behind its
address and closes the checkpoint again. What runs in a frame may ask for a call or creation; the
frame then waits for the result.
-/

open Lib

namespace CfxEvm

/-! ## What runs in a frame -/

/-- An object that can be executed. -/
inductive Exec
  | NoopExec (gas : U256)
  | BuiltinExec (builtin : Builtin) (params : ActionParams)
  | InternalContractExec (internal : InternalContract) (params : ActionParams)
  | Interpreter (c : CostType) (interpreter : Interpreter c)
  | PassResult (pass : PassResult)

/-- An object that waits for the result of a call or creation. -/
inductive Suspended
  | Interpreter (c : CostType) (interpreter : Interpreter c)
  | Resume (resume : Resume)

/-- How far an execution has come: it goes on with `exec`, or it has an output. -/
inductive Progress
  | Continue (exec : Exec)
  | Output (output : TrapResult GasLeft Suspended)

def BuiltinExec.exec (builtin : Builtin) (params : ActionParams) : Except VmError GasLeft :=
  let data := params.data.getD []
  let cost := builtin.cost data
  if cost.toNat ≤ params.gas.toNat then
    match builtin.execute data with
    | .ok out => .ok (.NeedsReturn (params.gas - cost) ⟨out, 0, out.length⟩ true)
    | .error e => .error (.BuiltIn e)
  else .error .OutOfGas

namespace Exec

/-- `Factory::create`. The gas is counted in a `usize` if it fits. -/
def create (params : ActionParams) : Except Panic Exec :=
  match params.code with
  | some code => .ok (if params.gas.toNat < 2 ^ 64
      then .Interpreter .usize (.new params code) else .Interpreter .U256 (.new params code))
  | none => .error .code_missing

section
variable [Keccak] (g : Globals) (ctx : FrameContext)

/-- The output of an internal contract. -/
def internal_output (result : Except VmError (Answer GasLeft)) : TrapResult GasLeft Suspended :=
  match result with
  | .ok (.Return output) => .Return (.ok output)
  | .ok (.SubCallCreate trap resume) => .SubCallCreate trap (.Resume resume)
  | .error e => .Return (.error e)

/-- One iteration of the loop of `Interpreter::exec`. -/
def interpreter_step {c : CostType} (i : CfxEvm.Interpreter c) : DbM Progress := do
  let (result, i) ← Prog.withPart i (CfxEvm.Interpreter.step g ctx)
  match result with
  | .ok .Continue => return .Continue (.Interpreter c i)
  | .ok (.Done value) => return .Output (.Return value)
  | .ok (.Trap trap) => return .Output (.SubCallCreate trap (.Interpreter c i))
  | .ok .Stopped => Prog.abort .already_stopped
  | .error e => return .Output (.Return (.error e))

/-- Executes the object, an interpreter up to the end of its next step. -/
def step : Exec → DbM Progress
  | NoopExec gas => return .Output (.Return (.ok (.Known gas)))
  | BuiltinExec builtin params => return .Output (.Return (CfxEvm.BuiltinExec.exec builtin params))
  | InternalContractExec internal params => do
    return .Output (internal_output (← Prog.result (internal.exec g ctx params)))
  | Interpreter _ i => interpreter_step g ctx i
  | PassResult pass => do return .Output (.Return (← Prog.result (pass.exec g ctx)))

end

end Exec

/-! ## Results of frames -/

namespace FrameReturn

def new (result : FinalizationResult) (create_address : Option Address)
    (substate : Option Substate) : FrameReturn :=
  ⟨result.gas_left, result.apply_state, result.return_data, create_address, substate⟩

def into_finalization_result (r : FrameReturn) : FinalizationResult :=
  ⟨r.gas_left, r.apply_state, r.return_data⟩

end FrameReturn

/-- Whether a finalized result has its state changes applied. -/
def applied (result : Except VmError FinalizationResult) : Bool :=
  match result with
  | .ok r => r.apply_state
  | .error _ => false

/-- The substate of the parent after the one of an applied frame is merged into it. -/
def accrue_substate (parent_substate : Substate) (result : Except VmError FrameReturn) :
    Substate :=
  match result with
  | .ok r => match r.substate with
    | some substate => parent_substate.accrue substate
    | none => parent_substate
  | .error _ => parent_substate

/-- Convert a finalization result into a VM message call result. -/
def into_message_call_result (result : Except VmError FrameReturn) : MessageCallResult :=
  match result with
  | .ok r => if r.apply_state then .Success r.gas_left r.return_data
    else .Reverted r.gas_left r.return_data
  | .error err => .Failed err

/-- Convert a finalization result into a VM contract create result. -/
def into_contract_create_result (result : Except VmError FrameReturn) :
    Except Panic ContractCreateResult :=
  match result with
  | .ok r =>
    if r.apply_state then
      match r.create_address with
      | some address => .ok (.Created address r.gas_left)
      | none => .error .create_address_missing
    else .ok (.Reverted r.gas_left r.return_data)
  | .error err => .ok (.Failed err)

/-- Database errors are not results of the virtual machine. -/
def separate_out_db_error {α : Type} (result : Except VmError α) : DbM (Except VmError α) :=
  match result with
  | .error (.StateDbError e) => Prog.fail e
  | x => return x

/-! ## Frames -/

inductive FrameKind
  | Transfer
  | CallBuiltin (builtin : Builtin)
  | CallInternalContract (internal : InternalContract)
  | ExecCall
  | ExecCreate

inductive FrameStatus
  | Input (params : ActionParams)
  | Running
  | ResumeCall (resume : Suspended)
  | ResumeCreate (resume : Suspended)
  | Done

/-- A frame. While it runs, its substate is in the host. -/
structure CallCreateFrame where
  context : FrameContext
  substate : Substate
  status : FrameStatus
  create_address : Option Address
  kind : FrameKind

namespace CallCreateFrame

variable (g : Globals)

/-- Create a new call executive using raw data. -/
def new_call_raw (params : ActionParams) (depth : Nat) (parent_static_flag : Bool) :
    CallCreateFrame where
  context :=
    { depth := depth
      is_create := false
      origin := .of_params params
      static_flag := parent_static_flag || params.call_type = .StaticCall }
  substate := .new
  status := .Input params
  create_address := none
  kind := match g.machine.builtin params.code_address g.env.number.toNat with
    | some builtin => .CallBuiltin builtin
    | none => match g.machine.contract params.code_address g.spec with
      | some internal => .CallInternalContract internal
      | none => if params.code.isSome then .ExecCall else .Transfer

/-- Create a new create executive using raw data. -/
def new_create_raw (params : ActionParams) (depth : Nat) (static_flag : Bool) :
    CallCreateFrame where
  context :=
    { depth := depth
      is_create := true
      origin := .of_params params
      static_flag := static_flag }
  substate := .new
  status := .Input params
  create_address := some params.code_address
  kind := .ExecCreate

def check_static_flag (params : ActionParams) (static_flag is_create : Bool) :
    Except VmError Unit :=
  if is_create then
    if static_flag then .error .MutableCallInStaticContext else .ok ()
  else if static_flag && (params.call_type = .StaticCall || params.call_type = .Call) &&
      !params.value.value.is_zero then
    .error .MutableCallInStaticContext
  else .ok ()

variable [Keccak]

def transfer_exec_balance (params : ActionParams) (spec : Spec) (account_start_nonce : U256) :
    DbM Unit :=
  match params.value with
  | .Transfer val => Host.inTouched spec fun mode =>
      State.transfer_balance params.sender params.address val mode account_start_nonce
  | .Apparent _ => return ()

/-- It is possible to first send money to a pre-calculated contract address. -/
def transfer_exec_balance_and_init_contract (params : ActionParams) (spec : Spec) : DbM Unit :=
  match params.value with
  | .Transfer val => do
    let prev_balance ← Host.inState (State.balance params.address)
    Host.inTouched spec (State.sub_balance params.sender val)
    Host.inState (State.new_contract params.address (U256.saturating_add val prev_balance) 1)
  | .Apparent _ => Prog.abort .create_value_apparent

/-- Pre execution: transfer value and init contract. -/
def pre_exec (params : ActionParams) (spec : Spec) (is_create : Bool) : DbM Unit :=
  if is_create then transfer_exec_balance_and_init_contract params spec
  else transfer_exec_balance params spec spec.account_start_nonce

/-- The object that runs in the frame. -/
def exec_object (kind : FrameKind) (params : ActionParams) : Except Panic Exec :=
  match kind with
  | .Transfer => .ok (.NoopExec params.gas)
  | .CallBuiltin builtin => .ok (.BuiltinExec builtin params)
  | .CallInternalContract internal => .ok (.InternalContractExec internal params)
  | .ExecCall | .ExecCreate => Exec.create params

/-- The beginning of the execution of a frame, up to the object that runs in it. -/
def exec [HashOrder] (self : CallCreateFrame) : DbM (CallCreateFrame × Exec) :=
  match self.status with
  | .Input params => do
    let is_create := self.create_address.isSome
    Prog.assert (is_create == self.context.is_create) .frame_status
    Prog.assert (check_static_flag params self.context.static_flag is_create).isOk
      .check_static_flag
    Prog.update fun h => { h with observer :=
      if is_create then h.observer.record_create params else h.observer.record_call params }
    Host.inState State.checkpoint
    let callstack ← Prog.gets Host.callstack
    let callstack ← Prog.ofPanic (callstack.push self.context.origin.address is_create)
    Prog.update fun h => { h with callstack := callstack }
    pre_exec params g.spec is_create
    let exec ← Prog.ofPanic (exec_object self.kind params)
    return ({ self with status := .Running }, exec)
  | _ => Prog.abort .frame_status

/-- Adds the address of a creation to the contracts that the substate lists. -/
def note_created (create_address : Option Address) (substate : Substate) : Substate :=
  match create_address with
  | some a => { substate with contracts_created := substate.contracts_created ++ [a] }
  | none => substate

/-- Closes the checkpoint of the frame; gives the substate of a frame that is applied. -/
def close [HashOrder] (self : CallCreateFrame) (apply_state : Bool) : DbM (Option Substate) := do
  if apply_state then
    Prog.update fun h => { h with substate := note_created self.create_address h.substate }
    Host.inState State.discard_checkpoint
    return some (← Prog.gets Host.substate)
  else
    Host.inState State.revert_to_checkpoint
    return none

/-- Settles a frame whose execution has returned: its changes are kept or reverted. -/
def process_return [HashOrder] (self : CallCreateFrame) (result : Except VmError GasLeft) :
    DbM (Except VmError FrameReturn) := do
  let finalized_result ← Prog.result (finalize g self.context result)
  let finalized_result ← separate_out_db_error finalized_result
  let maybe_substate ← self.close (applied finalized_result)
  let executive_result :=
    finalized_result.map (FrameReturn.new · self.create_address maybe_substate)
  let observer ← Prog.gets Host.observer
  let observer ← Prog.ofPanic (if self.context.is_create
    then observer.record_create_result executive_result
    else observer.record_call_result executive_result)
  let callstack ← Prog.gets Host.callstack
  let (_, callstack) ← Prog.ofPanic callstack.pop
  Prog.update fun h => { h with observer := observer, callstack := callstack }
  return executive_result

/-- The frame that waits for the result of the trap. -/
def process_trap (self : CallCreateFrame) (trap : TrapKind) (resume : Suspended)
    (substate : Substate) : CallCreateFrame :=
  { self with
    substate := substate
    status := match trap with
      | .Call _ => .ResumeCall resume
      | .Create _ => .ResumeCreate resume }

def process_output [HashOrder] (self : CallCreateFrame) (output : TrapResult GasLeft Suspended) :
    DbM (TrapResult FrameReturn CallCreateFrame) := do
  match output with
  | .Return result => return .Return (← self.process_return g result)
  | .SubCallCreate trap resume =>
    let substate ← Prog.gets Host.substate
    return .SubCallCreate trap (self.process_trap trap resume substate)

end CallCreateFrame

namespace Suspended

def resume_call (self : Suspended) (result : MessageCallResult) : Except Panic Exec :=
  match self with
  | Interpreter c i => (i.resume_call result).map (Exec.Interpreter c)
  | Resume r => (r.resume_call result).map Exec.PassResult

def resume_create (self : Suspended) (result : ContractCreateResult) : Except Panic Exec :=
  match self with
  | Interpreter c i => (i.resume_create result).map (Exec.Interpreter c)
  | Resume r => (r.resume_create result).map Exec.PassResult

end Suspended

namespace CallCreateFrame

/-- The object that takes up the result that the frame has waited for. -/
def resume_object (status : FrameStatus) (result : Except VmError FrameReturn) :
    Except Panic Exec :=
  match status with
  | .ResumeCreate resume => do resume.resume_create (← into_contract_create_result result)
  | .ResumeCall resume => resume.resume_call (into_message_call_result result)
  | _ => .error .frame_status

/-- The frame that takes up the result it has waited for, and the object that runs in it now. -/
def resume (self : CallCreateFrame) (result : Except VmError FrameReturn) :
    Except Panic (CallCreateFrame × Exec) :=
  (resume_object self.status result).map fun exec =>
    ({ self with substate := accrue_substate self.substate result, status := .Running }, exec)

/-- The frame that a trap asks for. -/
def from_trap_error (g : Globals) (trap : TrapKind) (parent : CallCreateFrame) : CallCreateFrame :=
  match trap with
  | .Call params =>
    new_call_raw g params (parent.context.depth + 1) parent.context.static_flag
  | .Create params =>
    new_create_raw params (parent.context.depth + 1) parent.context.static_flag

end CallCreateFrame

end CfxEvm
