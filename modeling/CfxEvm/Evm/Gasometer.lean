import CfxEvm.Evm.Cost
import CfxEvm.Frame.Context

/-!
# Gasometer

The price of an instruction, from the stack, the size of the memory and what the host says. The
stack is a list with its top at the head.
-/

open Lib

namespace CfxEvm

/-- What an instruction asks for: gas, and an amount of memory it needs. -/
inductive Request (c : CostType)
  | Gas (gas : Cost c)
  | GasMem (gas mem_size : Cost c)
  | GasMemProvide (gas mem_size : Cost c) (requested : Option U256)
  | GasMemCopy (gas mem_size copy : Cost c)

structure InstructionRequirements (c : CostType) where
  gas_cost : Cost c
  provide_gas : Option (Cost c)
  memory_total_gas : Cost c
  memory_required_size : Nat

structure Gasometer (c : CostType) where
  current_gas : Cost c
  current_mem_gas : Cost c
  deriving DecidableEq, Repr

/-- The item `no_from_top` places below the top. -/
def peek (stack : List U256) (no_from_top : Nat) : HostM U256 :=
  Prog.expect .stack_out_of_range stack[no_from_top]?

section
variable {c : CostType}

/-- Rounds up to words. -/
def to_word_size (value : Cost c) : Cost c × Bool :=
  let (gas, overflow) := Cost.overflow_add value (Cost.from 31)
  if overflow then (gas, overflow) else (gas >>> 5, false)

def mem_needed_const (mem : U256) (add : Nat) : Except VmError (Cost c) :=
  match U256.checked_add mem (BitVec.ofNat 256 add) with
  | some needed => Cost.from_u256 needed
  | none => .error .OutOfGas

def mem_needed (offset size : U256) : Except VmError (Cost c) :=
  if size.is_zero then .ok (Cost.from 0)
  else
    match U256.checked_add offset size with
    | some needed => Cost.from_u256 needed
    | none => .error .OutOfGas

namespace Gasometer

def new (current_gas : Cost c) : Gasometer c := ⟨current_gas, Cost.from 0⟩

def verify_gas (m : Gasometer c) (gas_cost : Cost c) : Except VmError Unit :=
  if m.current_gas.toNat < gas_cost.toNat then .error .OutOfGas else .ok ()

/-- How much gas is provided to a CALL/CREATE, given that we need to deduct `needed` for this
    operation and that we `requested` some. -/
def gas_provided (m : Gasometer c) (spec : Spec) (needed : Cost c) (requested : Option U256) :
    Except VmError (Cost c) :=
  let requested : Option (Except VmError (Cost c)) := requested.map Cost.from_u256
  match spec.sub_gas_cap_divisor, decide (needed.toNat ≤ m.current_gas.toNat) with
  | some cap_divisor, true =>
    let gas_remaining := m.current_gas - needed
    let max_gas_provided :=
      if cap_divisor = 64 then gas_remaining - gas_remaining >>> 6
      else gas_remaining - gas_remaining / Cost.from cap_divisor
    match requested with
    | some (.ok r) => .ok (if r.toNat ≤ max_gas_provided.toNat then r else max_gas_provided)
    | _ => .ok max_gas_provided
  | _, enough =>
    match requested with
    | some r => r
    | none => .ok (if enough then m.current_gas - needed else Cost.from 0)

/-- The gas for a memory of the given size. -/
def gas_for_mem (spec : Spec) (mem_size : Cost c) : HostM (Cost c) := do
  let s := mem_size >>> 5
  let a ← Prog.ofExcept (Cost.overflowing (Cost.overflow_mul s (Cost.from spec.memory_gas)))
  Prog.assert (spec.quad_coeff_div == 512) .quad_coeff_div
  let b ← Prog.ofExcept (Cost.overflowing (Cost.overflow_mul_shr s s 9))
  Prog.ofExcept (Cost.overflowing (Cost.overflow_add a b))

/-- The gas of growing the memory to the given size, and the new total for the memory. -/
def growth_cost (m : Gasometer c) (spec : Spec) (current_mem_size : Nat) (mem_size : Cost c) :
    HostM (Cost c × Cost c) :=
  if (Cost.from current_mem_size : Cost c).toNat < mem_size.toNat then do
    let new_mem_gas ← gas_for_mem spec mem_size
    let cost ← Prog.expect .cost_underflow (Cost.checked_sub new_mem_gas m.current_mem_gas)
    return (cost, new_mem_gas)
  else return (Cost.from 0, m.current_mem_gas)

/-- The gas of growing the memory, the new total for the memory, and its new size. -/
def mem_gas_cost (m : Gasometer c) (spec : Spec) (current_mem_size : Nat) (mem_size : Cost c) :
    HostM (Cost c × Cost c × Nat) := do
  let words ← Prog.ofExcept (Cost.overflowing (to_word_size mem_size))
  let req_mem_size_rounded := words <<< 5
  let (mem_gas_cost, new_mem_gas) ← m.growth_cost spec current_mem_size req_mem_size_rounded
  let new_mem_size ← Prog.expect .cost_as_usize (Cost.as_usize req_mem_size_rounded)
  return (mem_gas_cost, new_mem_gas, new_mem_size)

variable [Keccak] (g : Globals) (ctx : FrameContext)

/-- Whether an account that does not exist yet is to receive something. -/
def is_new_account (is_value_transfer : Bool) (address : Address) : HostM Bool :=
  if g.spec.no_empty then
    if is_value_transfer then do return !(← Context.exists_and_not_null address)
    else return false
  else do return !(← Context.exists address)

/-- Only a plain call can bring a new account into being. -/
def calls_new_account (instruction : Instruction) (is_value_transfer : Bool) (address : Address) :
    HostM Bool :=
  if instruction = .CALL then is_new_account g is_value_transfer address else return false

/-- Adds an amount to the gas if the condition holds. -/
def add_if (condition : Bool) (gas : Cost c) (amount : Nat) : HostM (Cost c) :=
  if condition then Prog.ofExcept (Cost.overflowing (Cost.overflow_add gas (Cost.from amount)))
  else return gas

/-- The price of the instruction without memory, and the memory it needs. -/
def request (instruction : Instruction) (stack : List U256) : HostM (Request c) := do
  let spec := g.spec
  let default_gas : Cost c := Cost.from ((spec.tier_step_gas[instruction.info.tier.idx]?).getD 0)
  match instruction with
  | .JUMPDEST => return .Gas (Cost.from 1)
  | .SSTORE =>
    let key := (← peek stack 0).to_big_endian
    let newval ← peek stack 1
    let val ← Context.storage_at ctx key
    return .Gas (Cost.from (if val.is_zero && !newval.is_zero
      then spec.sstore_set_gas * spec.evm_gas_ratio else spec.sstore_reset_gas))
  | .SLOAD => return .Gas (Cost.from spec.sload_gas)
  | .BALANCE => return .Gas (Cost.from spec.balance_gas)
  | .EXTCODESIZE => return .Gas (Cost.from spec.extcodesize_gas)
  | .EXTCODEHASH => return .Gas (Cost.from spec.extcodehash_gas)
  | .SUICIDE =>
    let is_value_transfer := !(← Context.origin_balance ctx).is_zero
    let address := u256_to_address (← peek stack 0)
    let is_new ← is_new_account g is_value_transfer address
    return .Gas (← add_if is_new (Cost.from spec.suicide_gas)
      (spec.suicide_to_new_account_cost * spec.evm_gas_ratio))
  | .MSTORE | .MLOAD =>
    return .GasMem default_gas (← Prog.ofExcept (mem_needed_const (← peek stack 0) 32))
  | .MSTORE8 =>
    return .GasMem default_gas (← Prog.ofExcept (mem_needed_const (← peek stack 0) 1))
  | .RETURN | .REVERT =>
    return .GasMem default_gas (← Prog.ofExcept (mem_needed (← peek stack 0) (← peek stack 1)))
  | .SHA3 =>
    let size ← Prog.ofExcept (Cost.from_u256 (← peek stack 1))
    let words ← Prog.ofExcept (Cost.overflowing (to_word_size size))
    let word_gas ← Prog.ofExcept
      (Cost.overflowing (Cost.overflow_mul (Cost.from spec.sha3_word_gas) words))
    let gas ← Prog.ofExcept
      (Cost.overflowing (Cost.overflow_add (Cost.from spec.sha3_gas) word_gas))
    return .GasMem gas (← Prog.ofExcept (mem_needed (← peek stack 0) (← peek stack 1)))
  | .CALLDATACOPY | .CODECOPY | .RETURNDATACOPY =>
    let mem ← Prog.ofExcept (mem_needed (← peek stack 0) (← peek stack 2))
    return .GasMemCopy default_gas mem (← Prog.ofExcept (Cost.from_u256 (← peek stack 2)))
  | .EXTCODECOPY =>
    let mem ← Prog.ofExcept (mem_needed (← peek stack 1) (← peek stack 3))
    return .GasMemCopy (Cost.from spec.extcodecopy_base_gas) mem
      (← Prog.ofExcept (Cost.from_u256 (← peek stack 3)))
  | .LOG no_of_topics =>
    let log_gas := spec.log_gas + spec.log_topic_gas * no_of_topics.val
    let size ← Prog.ofExcept (Cost.from_u256 (← peek stack 1))
    let data_gas ← Prog.ofExcept
      (Cost.overflowing (Cost.overflow_mul size (Cost.from spec.log_data_gas)))
    let gas ← Prog.ofExcept (Cost.overflowing (Cost.overflow_add data_gas (Cost.from log_gas)))
    return .GasMem gas (← Prog.ofExcept (mem_needed (← peek stack 0) (← peek stack 1)))
  | .CALL | .CALLCODE =>
    let mem_out : Cost c ← Prog.ofExcept (mem_needed (← peek stack 5) (← peek stack 6))
    let mem_in ← Prog.ofExcept (mem_needed (← peek stack 3) (← peek stack 4))
    let mem := if mem_in.toNat ≤ mem_out.toNat then mem_out else mem_in
    let address := u256_to_address (← peek stack 1)
    let is_value_transfer := !(← peek stack 2).is_zero
    let is_new ← calls_new_account g instruction is_value_transfer address
    let gas ← add_if is_new (Cost.from spec.call_gas)
      (spec.call_new_account_gas * spec.evm_gas_ratio)
    let gas ← add_if is_value_transfer gas spec.call_value_transfer_gas
    return .GasMemProvide gas mem (some (← peek stack 0))
  | .DELEGATECALL | .STATICCALL =>
    let mem_out : Cost c ← Prog.ofExcept (mem_needed (← peek stack 4) (← peek stack 5))
    let mem_in ← Prog.ofExcept (mem_needed (← peek stack 2) (← peek stack 3))
    let mem := if mem_in.toNat ≤ mem_out.toNat then mem_out else mem_in
    return .GasMemProvide (Cost.from spec.call_gas) mem (some (← peek stack 0))
  | .CREATE | .CREATE2 =>
    let start ← peek stack 1
    let len ← peek stack 2
    let word ← Prog.ofExcept (Cost.from_u256 len)
    let word ← Prog.ofExcept (Cost.overflowing (to_word_size word))
    let word_gas ← Prog.ofExcept
      (Cost.overflowing (Cost.overflow_mul (Cost.from spec.sha3_word_gas) word))
    let word_gas := if instruction = .CREATE then Cost.from 0 else word_gas
    let gas ← Prog.ofExcept
      (Cost.overflowing (Cost.overflow_add (Cost.from spec.create_gas) word_gas))
    return .GasMemProvide gas (← Prog.ofExcept (mem_needed start len)) none
  | .EXP =>
    let bytes := (U256.bits (← peek stack 1) + 7) / 8
    return .Gas (Cost.from (spec.exp_gas + spec.exp_byte_gas * bytes))
  | .BLOCKHASH => return .Gas (Cost.from spec.blockhash_gas)
  | _ => return .Gas default_gas

/-- The requirements of the memory, the gas for it added to `gas`. -/
def with_mem (m : Gasometer c) (spec : Spec) (current_mem_size : Nat) (gas mem_size : Cost c) :
    HostM (InstructionRequirements c) := do
  let (mem_gas_cost, new_mem_gas, new_mem_size) ← m.mem_gas_cost spec current_mem_size mem_size
  let gas ← Prog.ofExcept (Cost.overflowing (Cost.overflow_add gas mem_gas_cost))
  return ⟨gas, none, new_mem_gas, new_mem_size⟩

/-- Determine how much gas is used by the given instruction, given the machine's state. The
    provided gas is there iff the instruction is one of the CREATE or CALL variants; it is the
    amount of gas that the current context provides to the child context. -/
def requirements (m : Gasometer c) (instruction : Instruction) (stack : List U256)
    (current_mem_size : Nat) : HostM (InstructionRequirements c) := do
  match ← request g ctx instruction stack with
  | .Gas gas => return ⟨gas, none, m.current_mem_gas, 0⟩
  | .GasMem gas mem_size => m.with_mem g.spec current_mem_size gas mem_size
  | .GasMemProvide gas mem_size requested =>
    let r ← m.with_mem g.spec current_mem_size gas mem_size
    let provided ← Prog.ofExcept (m.gas_provided g.spec r.gas_cost requested)
    let total_gas ← Prog.ofExcept (Cost.overflowing (Cost.overflow_add r.gas_cost provided))
    return { r with gas_cost := total_gas, provide_gas := some provided }
  | .GasMemCopy gas mem_size copy =>
    let (mem_gas_cost, new_mem_gas, new_mem_size) ←
      m.mem_gas_cost g.spec current_mem_size mem_size
    let copy ← Prog.ofExcept (Cost.overflowing (to_word_size copy))
    let copy_gas ← Prog.ofExcept
      (Cost.overflowing (Cost.overflow_mul (Cost.from g.spec.copy_gas) copy))
    let gas ← Prog.ofExcept (Cost.overflowing (Cost.overflow_add gas copy_gas))
    let gas ← Prog.ofExcept (Cost.overflowing (Cost.overflow_add gas mem_gas_cost))
    return ⟨gas, none, new_mem_gas, new_mem_size⟩

end Gasometer

end

end CfxEvm
