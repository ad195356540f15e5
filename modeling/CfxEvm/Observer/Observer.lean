import CfxEvm.Vm.Types
import CfxEvm.State.Substate

/-!
# Observers of an execution

The executive tracer records the calls, creations and internal transfers of a transaction together
with the indices of those that were not reverted; the gas observer keeps, for each live frame, what
an estimate of the gas limit needs.
-/

open Lib

namespace CfxEvm

/-- The result of a frame. -/
structure FrameReturn where
  gas_left : U256
  apply_state : Bool
  return_data : ReturnData
  create_address : Option Address
  /-- The substate to merge into the one of the parent. -/
  substate : Option Substate
  deriving DecidableEq, Repr

/-! ## Traces -/

inductive AddressPocket
  | Balance (address : Address)
  | MintBurn
  | GasPayment
  deriving DecidableEq, Repr

inductive Outcome
  | Success
  | Reverted
  | Fail
  deriving DecidableEq, Repr

/-- What the tracer records; the fields are those of the actions of the trace. -/
inductive Action
  | Call (from_ to_ : Address) (value gas : U256) (input : Bytes) (call_type : CallType)
  | Create (from_ : Address) (value gas : U256) (init : Bytes) (create_type : CreateType)
  | CallResult (outcome : Outcome) (gas_left : U256) (return_data : Bytes)
  | CreateResult (outcome : Outcome) (addr : Address) (gas_left : U256) (return_data : Bytes)
  | InternalTransferAction (from_ to_ : AddressPocket) (value : U256)
  deriving DecidableEq, Repr

structure ExecTrace where
  action : Action
  valid : Bool
  deriving DecidableEq, Repr

/-- The text of `format!("{:?}", err)`. A database error never becomes the result of a frame. -/
def VmError.debug : VmError → String
  | .OutOfGas => "OutOfGas"
  | .BadJumpDestination d => "BadJumpDestination \x7b destination: " ++ toString d ++ " \x7d"
  | .BadInstruction i => "BadInstruction \x7b instruction: " ++ toString i.toNat ++ " \x7d"
  | .StackUnderflow i w o => "StackUnderflow \x7b instruction: \"" ++ i ++ "\", wanted: " ++
      toString w ++ ", on_stack: " ++ toString o ++ " \x7d"
  | .OutOfStack i w l => "OutOfStack \x7b instruction: \"" ++ i ++ "\", wanted: " ++
      toString w ++ ", limit: " ++ toString l ++ " \x7d"
  | .SubStackUnderflow w o => "SubStackUnderflow \x7b wanted: " ++ toString w ++ ", on_stack: " ++
      toString o ++ " \x7d"
  | .OutOfSubStack w l => "OutOfSubStack \x7b wanted: " ++ toString w ++ ", limit: " ++
      toString l ++ " \x7d"
  | .InvalidSubEntry => "InvalidSubEntry"
  | .BuiltIn name => "BuiltIn(\"" ++ name ++ "\")"
  | .InternalContract name => "InternalContract(\"" ++ name ++ "\")"
  | .MutableCallInStaticContext => "MutableCallInStaticContext"
  | .StateDbError _ => "StateDbError"
  | .OutOfBounds => "OutOfBounds"
  | .Reverted => "Reverted"

namespace Action

def of_call (p : ActionParams) : Action :=
  match p.call_type with
  | .DelegateCall | .CallCode =>
    .Call p.address p.code_address p.value.value p.gas (p.data.getD []) p.call_type
  | _ => .Call p.sender p.address p.value.value p.gas (p.data.getD []) p.call_type

def of_create (p : ActionParams) : Action :=
  .Create p.sender p.value.value p.gas (p.code.getD []) p.create_type

/-- The outcome, the gas left and the data of the result of a frame. -/
def result_parts (r : Except VmError FrameReturn) : Option (Outcome × U256 × Bytes) :=
  match r with
  | .ok r => r.return_data.deref.map fun data =>
      (if r.apply_state then .Success else .Reverted, r.gas_left, data)
  | .error err => some (.Fail, 0, err.debug.toUTF8.toList)

def of_call_result (r : Except VmError FrameReturn) : Except Panic Action :=
  match result_parts r with
  | some (outcome, gas_left, data) => .ok (.CallResult outcome gas_left data)
  | none => .error .trace_data_out_of_range

def of_create_result (r : Except VmError FrameReturn) : Except Panic Action :=
  match result_parts r with
  | some (.Success, gas_left, data) =>
    match r with
    | .ok ⟨_, _, _, some addr, _⟩ => .ok (.CreateResult .Success addr gas_left data)
    | _ => .error .trace_address_missing
  | some (outcome, gas_left, data) => .ok (.CreateResult outcome 0 gas_left data)
  | none => .error .trace_data_out_of_range

end Action

/-- Simple executive tracer. `checkpoints` has the last one at the head. -/
structure ExecutiveTracer where
  traces : List Action
  valid_indices : List Nat
  checkpoints : List Nat
  deriving DecidableEq, Repr

namespace ExecutiveTracer

def default : ExecutiveTracer := ⟨[], [], []⟩

/-- Records an action that is valid so far. -/
def record (t : ExecutiveTracer) (action : Action) : ExecutiveTracer :=
  { t with traces := t.traces ++ [action], valid_indices := t.valid_indices ++ [t.traces.length] }

def checkpoint (t : ExecutiveTracer) : ExecutiveTracer :=
  { t with checkpoints := t.valid_indices.length :: t.checkpoints }

/-- Records the result of a frame and closes its checkpoint: what was recorded since is valid only
    if the frame is applied. -/
def record_result (t : ExecutiveTracer) (action : Action) (success : Bool) :
    Except Panic ExecutiveTracer :=
  match t.checkpoints with
  | [] => .error .tracer_checkpoint_missing
  | start :: rest =>
    let t' := t.record action
    .ok { t' with
      checkpoints := rest
      valid_indices := if success then t'.valid_indices else t'.valid_indices.take start }

def drain (t : ExecutiveTracer) : List ExecTrace :=
  t.traces.zipIdx.map fun (action, i) => ⟨action, t.valid_indices.contains i⟩

end ExecutiveTracer

/-! ## Gas observer -/

/-- Address of the cross-space contract. -/
def CROSS_SPACE_CONTRACT_ADDRESS : Address := 0x0888000000000000000000000000000000000006

def CROSS_SPACE_GAS_RATIO : Nat := 10

def EVM_RATIO : Nat × Nat := (64, 63)

def CROSS_SPACE_RATIO : Nat × Nat := .mk CROSS_SPACE_GAS_RATIO 1

structure ExecutiveLevel where
  init_gas : U256
  gas_cost_in_subcall : U256
  gas_limit_for_subcall : U256
  cross_space_internal : Bool
  deriving DecidableEq, Repr

namespace ExecutiveLevel

def gas_cost (l : ExecutiveLevel) (gas_left : U256) : U256 :=
  U256.saturating_sub l.init_gas gas_left

def gas_cost_this_level (l : ExecutiveLevel) (gas_left : U256) : U256 :=
  U256.saturating_sub (l.gas_cost gas_left) l.gas_cost_in_subcall

/-- Panics when the product or one of the sums overflows. -/
def minimum_init_gas (l : ExecutiveLevel) (gas_left : U256) (ratio : Nat × Nat) : Option U256 := do
  let scaled ← U256.checked_mul l.gas_limit_for_subcall (BitVec.ofNat 256 ratio.1)
  let raised ← U256.checked_add scaled (BitVec.ofNat 256 ratio.2)
  U256.checked_add (l.gas_cost_this_level gas_left) ((raised - 1) / BitVec.ofNat 256 ratio.2)

end ExecutiveLevel

/-- The gas observer; `gas_record` has the innermost level at the head. -/
structure GasMan where
  gas_limit : U256
  gas_record : List ExecutiveLevel
  deriving DecidableEq, Repr

namespace GasMan

def default : GasMan := ⟨0, []⟩

def record_call_create (m : GasMan) (gas_pass_in : U256) (cross_space_internal : Bool) : GasMan :=
  { m with gas_record := ⟨gas_pass_in, 0, 0, cross_space_internal⟩ :: m.gas_record }

def record_return (m : GasMan) (gas_left : U256) : Except Panic GasMan :=
  match m.gas_record with
  | [] => .error .gas_record_missing
  | child_level :: rest =>
    let ratio := if child_level.cross_space_internal then CROSS_SPACE_RATIO else EVM_RATIO
    match child_level.minimum_init_gas gas_left ratio with
    | none => .error .gas_record_overflow
    | some minimum =>
      match rest with
      | [] => .ok ⟨minimum, []⟩
      | parent :: rest =>
        match U256.checked_add parent.gas_cost_in_subcall (child_level.gas_cost gas_left),
          U256.checked_add parent.gas_limit_for_subcall minimum with
        | some cost, some limit =>
          let parent := { parent with gas_cost_in_subcall := cost, gas_limit_for_subcall := limit }
          .ok { m with gas_record := parent :: rest }
        | _, _ => .error .gas_record_overflow

end GasMan

/-! ## Both together -/

structure MultiObservers where
  tracer : Option ExecutiveTracer
  gas_man : Option GasMan
  deriving DecidableEq, Repr

namespace MultiObservers

def with_tracing : MultiObservers := ⟨some .default, none⟩

def with_no_tracing : MultiObservers := ⟨none, none⟩

def virtual_call : MultiObservers := ⟨some .default, some .default⟩

def trace_internal_transfer (o : MultiObservers) (from_ to_ : AddressPocket) (value : U256) :
    MultiObservers :=
  { o with tracer := o.tracer.map (·.record (.InternalTransferAction from_ to_ value)) }

def record_call (o : MultiObservers) (params : ActionParams) : MultiObservers where
  tracer := o.tracer.map (·.checkpoint.record (.of_call params))
  gas_man := o.gas_man.map
    (·.record_call_create params.gas (params.code_address == CROSS_SPACE_CONTRACT_ADDRESS))

def record_create (o : MultiObservers) (params : ActionParams) : MultiObservers where
  tracer := o.tracer.map (·.checkpoint.record (.of_create params))
  gas_man := o.gas_man.map (·.record_call_create params.gas false)

/-- Shows the result of a frame to both observers; `action` is what the tracer records of it. -/
def record_result (o : MultiObservers) (action : Except Panic Action)
    (result : Except VmError FrameReturn) : Except Panic MultiObservers := do
  let success := match result with
    | .ok r => r.apply_state
    | .error _ => false
  let gas_left := match result with
    | .ok r => r.gas_left
    | .error _ => 0
  let tracer ← o.tracer.mapM fun t => do t.record_result (← action) success
  let gas_man ← o.gas_man.mapM fun m => m.record_return gas_left
  return ⟨tracer, gas_man⟩

def record_call_result (o : MultiObservers) (result : Except VmError FrameReturn) :
    Except Panic MultiObservers :=
  o.record_result (Action.of_call_result result) result

def record_create_result (o : MultiObservers) (result : Except VmError FrameReturn) :
    Except Panic MultiObservers :=
  o.record_result (Action.of_create_result result) result

/-- The trace that ends up in the outcome. -/
def drain (o : MultiObservers) : List ExecTrace := (o.tracer.map ExecutiveTracer.drain).getD []

end MultiObservers

/-- The places where only an observer panics: the tracer when it records the result of a frame, the
    gas observer when it closes a level, and the estimate that is made of what it has recorded. -/
def ObserverPanic : Panic → Prop
  | .tracer_checkpoint_missing | .trace_data_out_of_range | .trace_address_missing => True
  | .gas_record_missing | .gas_record_overflow | .gas_estimate_overflow => True
  | _ => False

end CfxEvm
