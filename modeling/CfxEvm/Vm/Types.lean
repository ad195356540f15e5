import CfxEvm.Types.Words
import CfxEvm.State.State

/-!
# Actions, results and errors of the virtual machine
-/

open Lib

namespace CfxEvm

inductive CallType
  | None
  | Call
  | CallCode
  | DelegateCall
  | StaticCall
  deriving DecidableEq, Repr

inductive CreateType
  | None
  | CREATE
  | CREATE2
  deriving DecidableEq, Repr

def CreateType.from_address_scheme : CreateContractAddress → CreateType
  | .FromSenderNonce => .CREATE
  | .FromSenderSaltAndCodeHash _ => .CREATE2

/-- Transaction value. -/
inductive ActionValue
  /-- Value that should be transferred. -/
  | Transfer (value : U256)
  /-- Apparent value for the transaction (not transferred). -/
  | Apparent (value : U256)
  deriving DecidableEq, Repr

def ActionValue.value : ActionValue → U256
  | .Transfer x => x
  | .Apparent x => x

inductive ParamsType
  | Embedded
  | Separate
  deriving DecidableEq, Repr

/-- Action (call/create) input params. -/
structure ActionParams where
  code_address : Address
  code_hash : Option H256
  /-- Receive address, usually equal to `code_address`. -/
  address : Address
  sender : Address
  original_sender : Address
  gas : U256
  gas_price : U256
  value : ActionValue
  code : Option Bytes
  data : Option Bytes
  call_type : CallType
  create_type : CreateType
  params_type : ParamsType
  deriving DecidableEq, Repr

/-- A call or creation that the running code asks for. -/
inductive TrapKind
  | Call (params : ActionParams)
  | Create (params : ActionParams)
  deriving DecidableEq, Repr

def TrapKind.params : TrapKind → ActionParams
  | .Call params => params
  | .Create params => params

/-- Errors of the virtual machine. -/
inductive VmError
  | OutOfGas
  | BadJumpDestination (destination : Nat)
  | BadInstruction (instruction : UInt8)
  | StackUnderflow (instruction : String) (wanted on_stack : Nat)
  | OutOfStack (instruction : String) (wanted limit : Nat)
  | SubStackUnderflow (wanted on_stack : Nat)
  | OutOfSubStack (wanted limit : Nat)
  | InvalidSubEntry
  | BuiltIn (name : String)
  | InternalContract (name : String)
  | MutableCallInStaticContext
  | StateDbError (error : DbError)
  | OutOfBounds
  | Reverted
  deriving DecidableEq, Repr

/-- Return data buffer: a part of the memory it was taken from. -/
structure ReturnData where
  mem : Bytes
  offset : Nat
  size : Nat
  deriving DecidableEq, Repr

namespace ReturnData

def empty : ReturnData := ⟨[], 0, 0⟩

/-- The bytes seen through `deref`; none when the slice is out of range. -/
def deref (r : ReturnData) : Option Bytes :=
  if r.offset + r.size ≤ r.mem.length then some ((r.mem.drop r.offset).take r.size) else none

/-- `len` of the slice seen through `deref`. -/
def len (r : ReturnData) : Nat := r.size

end ReturnData

/-- Gas left: either it is a known value, or it needs to be computed by processing a return. -/
inductive GasLeft
  | Known (gas_left : U256)
  | NeedsReturn (gas_left : U256) (data : ReturnData) (apply_state : Bool)
  deriving DecidableEq, Repr

/-- Finalization result: gas left, return data and whether to apply the state changes. -/
structure FinalizationResult where
  gas_left : U256
  apply_state : Bool
  return_data : ReturnData
  deriving DecidableEq, Repr

/-- Result of a contract creation, for the frame that asked for it. -/
inductive ContractCreateResult
  | Created (address : Address) (gas_left : U256)
  | Failed (error : VmError)
  | Reverted (gas_left : U256) (data : ReturnData)

/-- Result of a message call, for the frame that asked for it. -/
inductive MessageCallResult
  | Success (gas_left : U256) (data : ReturnData)
  | Failed (error : VmError)
  | Reverted (gas_left : U256) (data : ReturnData)

/-- What running code comes to: a result, or a call or creation to be run first. -/
inductive TrapResult (α ρ : Type)
  | Return (result : Except VmError α)
  | SubCallCreate (trap : TrapKind) (resume : ρ)

end CfxEvm
