import CfxEvm.Evm.SharedCache
import CfxEvm.Observer.Observer

/-!
# The machine

The builtin and internal contracts, and the environment a transaction runs in. A builtin contract
is a price and a function of the input.
-/

open Lib

namespace CfxEvm

/-- Native implementation of a builtin contract. -/
structure Builtin where
  cost : Bytes → U256
  execute : Bytes → Except String Bytes
  activate_at : Nat

def Builtin.is_active (b : Builtin) (at_ : Nat) : Bool := b.activate_at ≤ at_

/-- The internal contracts. The reserved ones are placeholders that are never active. -/
inductive InternalContract
  | Context
  | CrossSpaceCall
  | SystemStorage
  | Reserved3
  | Reserved8
  | Reserved9
  | Reserved11
  deriving DecidableEq, Repr

namespace InternalContract

def address : InternalContract → Address
  | Context => 0x0888000000000000000000000000000000000004
  | CrossSpaceCall => CROSS_SPACE_CONTRACT_ADDRESS
  | SystemStorage => 0x088800000000000000000000000000000000000a
  | Reserved3 => 0x0888000000000000000000000000000000000003
  | Reserved8 => 0x0888000000000000000000000000000000000008
  | Reserved9 => 0x0888000000000000000000000000000000000009
  | Reserved11 => 0x088800000000000000000000000000000000000b

def is_active (c : InternalContract) (spec : Spec) : Bool :=
  match c with
  | Context => spec.cip64
  | CrossSpaceCall => spec.cip90
  | SystemStorage => spec.cip94
  | _ => false

def code : Bytes := [0, 0, 0, 0]

def code_hash [Keccak] : H256 := keccak code

def code_size : Nat := code.length

end InternalContract

def all_internal_contracts : List InternalContract :=
  [.Context, .CrossSpaceCall, .SystemStorage, .Reserved3, .Reserved8, .Reserved9, .Reserved11]

structure Machine where
  builtins : Address → Option Builtin
  internal_contracts : List InternalContract
  /-- The chain id of the space at an epoch height. -/
  chain_id : UInt64 → UInt32

namespace Machine

def builtin (m : Machine) (address : Address) (block_number : Nat) : Option Builtin :=
  (m.builtins address).filter fun b => b.is_active block_number

/-- `InternalContractMap::contract`. -/
def contract (m : Machine) (address : Address) (spec : Spec) : Option InternalContract :=
  (m.internal_contracts.find? fun c => c.address == address).filter fun c => c.is_active spec

end Machine

/-- What is fixed while a transaction runs. -/
structure Globals where
  env : Env
  machine : Machine
  spec : Spec

/-- A machine without builtin contracts. -/
def bareMachine : Globals where
  env := ⟨1, 0, 0, 0, 0, 0, 1⟩
  machine := ⟨fun _ => none, [], fun _ => 1⟩
  spec := .genesis_spec

/-- What the frames of a transaction share, over the representation `σ` of the state, together with
    the substate of the running frame. -/
structure Host (σ : Type) where
  state : σ
  callstack : FrameStackInfo
  substate : Substate
  observer : MultiObservers
  shared_cache : SharedCache

/-- A host at the beginning of a transaction, over an empty database. -/
def emptyHost : Host State := ⟨.new .empty, .new, .new, .with_no_tracing, .new 0⟩

/-- Programs of a frame. -/
abbrev HostM (α : Type) := Prog Panic (Host State) VmError α

/-- Programs of a frame whose errors are those of the database alone. -/
abbrev DbM (α : Type) := Prog Panic (Host State) DbError α

namespace Host

/-- Runs a program over the state. -/
def inState {α : Type} (x : StateM α) : DbM α :=
  Prog.zoom state (fun s h => { h with state := s }) x

/-- Runs a transfer that tracks the touched accounts of the substate. -/
def inTouched (spec : Spec) (x : CleanupMode → StateM CleanupMode) : DbM Unit := do
  let substate ← Prog.gets substate
  let mode ← inState (x (cleanup_mode substate spec))
  Prog.update fun h => { h with substate := h.substate.set_touched mode }

/-- Runs a program over the state; its errors become errors of the virtual machine. -/
def onState {α : Type} (x : StateM α) : HostM α := Prog.mapErr .StateDbError (inState x)

/-- Runs a transfer; its errors become errors of the virtual machine. -/
def onTouched (spec : Spec) (x : CleanupMode → StateM CleanupMode) : HostM Unit :=
  Prog.mapErr .StateDbError (inTouched spec x)

def trace_internal_transfer (from_ to_ : AddressPocket) (value : U256) : HostM Unit :=
  Prog.update fun h => { h with observer := h.observer.trace_internal_transfer from_ to_ value }

end Host

end CfxEvm
