import CfxEvm.Observer.TraceFilter
import CfxEvm.Primitives.RlpTypes

/-!
# Traces on the wire

How the traces of a block are written and read. The encoders of the descriptions of the actions are
derived from their fields; those of the kinds and of the actions themselves are written by hand,
with a tag.
-/

open Lib
open Lib.Rlp (Misuse DecoderError)

namespace CfxEvm

/-! ## Kinds -/

instance : Rlp.Encodable Space where
  rlp_append v s :=
    let type_int : UInt8 :=
      match v with
      | .Ethereum => 1
    Rlp.Encodable.rlp_append type_int s

instance : Rlp.Readable Space where
  read rlp := do
    let type_int : UInt8 ← rlp.as_val
    match type_int with
    | 1 => return .Ethereum
    | _ => .error (.Custom "Unrecognized space byte.")

instance : Rlp.Encodable CallType where
  rlp_append v s :=
    let v : UInt32 :=
      match v with
      | .None => 0
      | .Call => 1
      | .CallCode => 2
      | .DelegateCall => 3
      | .StaticCall => 4
    Rlp.Encodable.rlp_append v s

instance : Rlp.Readable CallType where
  read rlp := do
    let v : UInt32 ← rlp.as_val
    match v with
    | 0 => return .None
    | 1 => return .Call
    | 2 => return .CallCode
    | 3 => return .DelegateCall
    | 4 => return .StaticCall
    | _ => .error (.Custom "Invalid value of CallType item")

instance : Rlp.Encodable CreateType where
  rlp_append v s :=
    let v : UInt32 :=
      match v with
      | .None => 0
      | .CREATE => 1
      | .CREATE2 => 2
    Rlp.Encodable.rlp_append v s

instance : Rlp.Readable CreateType where
  read rlp := do
    let v : UInt32 ← rlp.as_val
    match v with
    | 0 => return .None
    | 1 => return .CREATE
    | 2 => return .CREATE2
    | _ => .error (.Custom "Invalid value of CreateType item")

instance : Rlp.Encodable Outcome where
  rlp_append v s :=
    let v : UInt32 :=
      match v with
      | .Success => 0
      | .Reverted => 1
      | .Fail => 2
    Rlp.Encodable.rlp_append v s

instance : Rlp.Readable Outcome where
  read rlp := do
    let v : UInt32 ← rlp.as_val
    match v with
    | 0 => return .Success
    | 1 => return .Reverted
    | 2 => return .Fail
    | _ => .error (.Custom "Invalid value of CallType item")

/-! ## Pockets -/

namespace AddressPocket

def inner_address : AddressPocket → Option Address
  | .Balance address => some address
  | .MintBurn => none
  | .GasPayment => none

def type_number : AddressPocket → UInt8
  | .MintBurn => 0
  | .GasPayment => 1
  | .Balance _ => 2

end AddressPocket

instance : Rlp.Encodable AddressPocket where
  rlp_append v s :=
    match v.inner_address with
    | some address => do
      let s ← s.begin_list 2
      let s ← s.append v.type_number
      s.append address
    | none => do
      let s ← s.begin_list 1
      s.append v.type_number

instance : Rlp.Readable AddressPocket where
  read rlp := do
    let type_number : UInt8 ← rlp.val_at 0
    match type_number with
    | 0 => return .MintBurn
    | 1 => return .GasPayment
    | 2 => return .Balance (← rlp.val_at 1)
    | _ => .error (.Custom "Invalid internal transfer address.")

/-! ## Actions -/

namespace Trace

/-- The fields of a call, with its space. -/
structure Call where
  space : Space
  from_ : Address
  to_ : Address
  value : U256
  gas : U256
  input : Bytes
  call_type : CallType

structure Create where
  space : Space
  from_ : Address
  value : U256
  gas : U256
  init : Bytes
  create_type : CreateType

structure CallResult where
  outcome : Outcome
  gas_left : U256
  return_data : Bytes

structure CreateResult where
  outcome : Outcome
  addr : Address
  gas_left : U256
  return_data : Bytes

structure InternalTransferAction where
  from_ : AddressPocket
  to_ : AddressPocket
  value : U256

instance : Rlp.Encodable Call where
  rlp_append v s := do
    let s ← s.begin_list 7
    let s ← s.append v.space
    let s ← s.append v.from_
    let s ← s.append v.to_
    let s ← s.append v.value
    let s ← s.append v.gas
    let s ← s.append v.input
    s.append v.call_type

instance : Rlp.Readable Call where
  read rlp := do
    return ⟨← rlp.val_at 0, ← rlp.val_at 1, ← rlp.val_at 2, ← rlp.val_at 3, ← rlp.val_at 4,
      ← rlp.val_at 5,
      ← rlp.val_at 6⟩

instance : Rlp.Encodable Create where
  rlp_append v s := do
    let s ← s.begin_list 6
    let s ← s.append v.space
    let s ← s.append v.from_
    let s ← s.append v.value
    let s ← s.append v.gas
    let s ← s.append v.init
    s.append v.create_type

instance : Rlp.Readable Create where
  read rlp := do
    return ⟨← rlp.val_at 0, ← rlp.val_at 1, ← rlp.val_at 2, ← rlp.val_at 3, ← rlp.val_at 4,
      ← rlp.val_at 5⟩

instance : Rlp.Encodable CallResult where
  rlp_append v s := do
    let s ← s.begin_list 3
    let s ← s.append v.outcome
    let s ← s.append v.gas_left
    s.append v.return_data

instance : Rlp.Readable CallResult where
  read rlp := do
    return ⟨← rlp.val_at 0, ← rlp.val_at 1, ← rlp.val_at 2⟩

instance : Rlp.Encodable CreateResult where
  rlp_append v s := do
    let s ← s.begin_list 4
    let s ← s.append v.outcome
    let s ← s.append v.addr
    let s ← s.append v.gas_left
    s.append v.return_data

instance : Rlp.Readable CreateResult where
  read rlp := do
    return ⟨← rlp.val_at 0, ← rlp.val_at 1, ← rlp.val_at 2, ← rlp.val_at 3⟩

instance : Rlp.Encodable InternalTransferAction where
  rlp_append v s := do
    let s ← s.begin_list 3
    let s ← s.append v.from_
    let s ← s.append v.to_
    s.append v.value

instance : Rlp.Readable InternalTransferAction where
  read rlp := do
    return ⟨← rlp.val_at 0, ← rlp.val_at 1, ← rlp.val_at 2⟩

end Trace

instance : Rlp.Encodable Action where
  rlp_append v s := do
    let s ← s.begin_list 2
    match v with
    | .Call from_ to_ value gas input call_type =>
      let s ← s.append (0 : UInt8)
      s.append (⟨.Ethereum, from_, to_, value, gas, input, call_type⟩ : Trace.Call)
    | .Create from_ value gas init create_type =>
      let s ← s.append (1 : UInt8)
      s.append (⟨.Ethereum, from_, value, gas, init, create_type⟩ : Trace.Create)
    | .CallResult outcome gas_left return_data =>
      let s ← s.append (2 : UInt8)
      s.append (⟨outcome, gas_left, return_data⟩ : Trace.CallResult)
    | .CreateResult outcome addr gas_left return_data =>
      let s ← s.append (3 : UInt8)
      s.append (⟨outcome, addr, gas_left, return_data⟩ : Trace.CreateResult)
    | .InternalTransferAction from_ to_ value =>
      let s ← s.append (4 : UInt8)
      s.append (⟨from_, to_, value⟩ : Trace.InternalTransferAction)

instance : Rlp.Readable Action where
  read rlp := do
    let action_type : UInt8 ← rlp.val_at 0
    match action_type with
    | 0 =>
      let v : Trace.Call ← rlp.val_at 1
      return .Call v.from_ v.to_ v.value v.gas v.input v.call_type
    | 1 =>
      let v : Trace.Create ← rlp.val_at 1
      return .Create v.from_ v.value v.gas v.init v.create_type
    | 2 =>
      let v : Trace.CallResult ← rlp.val_at 1
      return .CallResult v.outcome v.gas_left v.return_data
    | 3 =>
      let v : Trace.CreateResult ← rlp.val_at 1
      return .CreateResult v.outcome v.addr v.gas_left v.return_data
    | 4 =>
      let v : Trace.InternalTransferAction ← rlp.val_at 1
      return .InternalTransferAction v.from_ v.to_ v.value
    | _ => .error (.Custom "Invalid action type.")

/-! ## Traces -/

instance : Rlp.Encodable ExecTrace where
  rlp_append v s := do
    let s ← s.begin_list 2
    let s ← s.append v.action
    s.append v.valid

/-- A trace without the mark, which is the older form, is valid. -/
instance : Rlp.Readable ExecTrace where
  read d := do
    match ← d.item_count with
    | 1 => return ⟨← d.val_at 0, true⟩
    | 2 => return ⟨← d.val_at 0, ← d.val_at 1⟩
    | _ => .error .RlpInvalidLength

/-- Represents all traces produced by a single transaction. -/
structure TransactionExecTraces where
  traces : List ExecTrace
  deriving DecidableEq

instance : Rlp.Encodable TransactionExecTraces where
  rlp_append v s := do
    let s ← s.begin_list 1
    s.append_list v.traces

instance : Rlp.Readable TransactionExecTraces where
  read rlp := do
    return ⟨← rlp.list_at 0⟩

/-- Represents all traces produced by transactions in a single block. -/
structure BlockExecTraces where
  traces : List TransactionExecTraces
  deriving DecidableEq

instance : Rlp.Encodable BlockExecTraces where
  rlp_append v s := do
    let s ← s.begin_list 1
    s.append_list v.traces

instance : Rlp.Readable BlockExecTraces where
  read rlp := do
    return ⟨← rlp.list_at 0⟩

end CfxEvm
