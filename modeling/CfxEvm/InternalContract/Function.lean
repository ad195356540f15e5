import CfxEvm.Abi.Abi
import CfxEvm.Frame.Context

/-!
# Functions of internal contracts

A function of an internal contract checks how it was called, decodes its input, charges for itself
in advance and then either returns a value or asks for a call or creation to be run first.
-/

open Lib

namespace CfxEvm

/-- What is left to do when the call or creation of an internal contract comes back. -/
structure Resume where
  params : ActionParams
  gas_retained : U256
  deriving DecidableEq, Repr

/-- A value, or a call or creation that has to be run first. Errors are those of the program. -/
inductive Answer (α : Type)
  | Return (output : α)
  | SubCallCreate (trap : TrapKind) (resume : Resume)

/-- How a function may be called. -/
structure FunctionType where
  PAYABLE : Bool
  HAS_WRITE_OP : Bool
  deriving DecidableEq, Repr

namespace FunctionType

def non_payable_write : FunctionType := ⟨false, true⟩

def payable_write : FunctionType := ⟨true, true⟩

def query : FunctionType := ⟨false, false⟩

end FunctionType

def pre_execution_check (t : FunctionType) (params : ActionParams) : Except VmError Unit :=
  if !t.PAYABLE && !params.value.value.is_zero then
    .error (.InternalContract "should not transfer balance to Staking contract")
  else if t.HAS_WRITE_OP && params.call_type = .StaticCall then
    .error .MutableCallInStaticContext
  else .ok ()

/-- The error of a failed decoding. -/
def abi_decode_error (text : String) : VmError := .InternalContract ("ABI decode error: " ++ text)

/-- A sum of prices as a word. -/
def gas_sum (gas : Nat) : HostM U256 :=
  if gas < 2 ^ 256 then return BitVec.ofNat 256 gas else Prog.abort .internal_gas_overflow

/-- `InternalRefContext::log`. -/
def internal_log (ctx : FrameContext) (params : ActionParams) (topics : List H256) (data : Bytes) :
    HostM Unit :=
  if ctx.static_flag then Prog.fail .MutableCallInStaticContext
  else Prog.update fun h =>
    { h with substate :=
      { h.substate with logs := h.substate.logs ++ [⟨params.address, topics, data⟩] } }

/-- `SolidityEventTrait::log`. -/
def log_event [Keccak] {α β : Type} [EventIndexEncodable α] [ABIEncodable β] (event_sig : H256)
    (ctx : FrameContext) (indexed : α) (non_indexed : β) (params : ActionParams) :
    HostM Unit := do
  let topics ← Prog.ofPanic (indexed_event_encode indexed)
  let data ← Prog.ofPanic (abi_encode non_indexed)
  internal_log ctx params (event_sig :: topics) data

/-- Runs a function: `upfront_gas_payment` and `execute_inner` are its own. -/
def run_function {α β : Type} [ABIDecodable α] [ABIEncodable β] (spec : Spec) (t : FunctionType)
    (upfront_gas_payment : α → HostM U256) (execute_inner : α → U256 → HostM (Answer β))
    (input : Bytes) (params : ActionParams) : HostM (Answer GasLeft) := do
  Prog.ofExcept (pre_execution_check t params)
  let solidity_params ← Prog.ofExcept ((abi_decode input).mapError abi_decode_error)
  let cost ← upfront_gas_payment solidity_params
  if params.gas.toNat < cost.toNat then Prog.fail .OutOfGas
  else
    let gas_left := params.gas - cost
    match ← execute_inner solidity_params gas_left with
    | .Return output =>
      let output ← Prog.ofPanic (abi_encode output)
      let return_cost := (output.length + 31) / 32 * spec.memory_gas
      if gas_left.toNat < return_cost then Prog.fail .OutOfGas
      else return .Return (.NeedsReturn (gas_left - BitVec.ofNat 256 return_cost)
        ⟨output, 0, output.length⟩ true)
    | .SubCallCreate trap resume => return .SubCallCreate trap resume

/-- A function that cannot ask for a call. -/
def simple {α β : Type} (execute_inner : α → HostM β) : α → U256 → HostM (Answer β) :=
  fun input _ => do return .Return (← execute_inner input)

end CfxEvm
