import CfxEvm.Evm.Gasometer
import CfxEvm.Execution.Executor

/-!
# Call trees

What an execution does with its gas, when neither its instructions nor their prices nor the results
of its calls depend on the gas that is there: each frame pays for instructions, and makes calls and
creations that ask for all the gas. The gas is counted as the interpreter counts it, and the gas
observer is shown every frame.
-/

open Lib

namespace CfxEvm

/-- Whether a frame is called, with a value or without, or creates a contract. -/
inductive SubFrame
  | call (value : Bool)
  | create
  deriving DecidableEq, Repr

namespace SubFrame

variable (spec : Spec)

/-- The gas that a frame gets beyond what the caller pays for it. -/
def stipend : SubFrame → Nat
  | .call true => spec.call_stipend
  | _ => 0

/-- What a call or creation costs at least. -/
def price : SubFrame → Nat
  | .call true => spec.call_gas + spec.call_value_transfer_gas
  | .call false => spec.call_gas
  | .create => spec.create_gas

/-- All the gas is asked for. A creation does not say how much. -/
def requested : SubFrame → Option U256
  | .call _ => some (BitVec.allOnes 256)
  | .create => none

end SubFrame

/-- What a frame does. It returns or reverts in the end, and keeps its gas in both cases. -/
inductive CallTree (spec : Spec)
  | done
  /-- Instructions of this price. -/
  | own (cost : U256) (rest : CallTree spec)
  /-- A call or creation of this price. -/
  | sub (kind : SubFrame) (cost : U256) (h : kind.price spec ≤ cost.toNat)
    (callee rest : CallTree spec)
  /-- A call or creation of this price for which the balance is too low, or the depth too large. -/
  | refused (kind : SubFrame) (cost : U256) (h : kind.price spec ≤ cost.toNat)
    (rest : CallTree spec)

/-- What sees the gas of an execution. -/
abbrev GasM (α : Type) := Prog Panic (Option GasMan) VmError α

namespace GasM

def record_call (gas : U256) : GasM Unit :=
  Prog.update fun observer => observer.map (·.record_call_create gas false)

def record_result (gas_left : U256) : GasM Unit := do
  match ← Prog.gets id with
  | some m =>
    let m ← Prog.ofPanic (m.record_return gas_left)
    Prog.update fun _ => some m
  | none => return ()

end GasM

namespace CallTree

/-- The type in which a frame counts gas. -/
def costType (gas : U256) : CostType := if gas.toNat < 2 ^ 64 then .usize else .U256

section
variable {c : CostType}

/-- Pays for an instruction. -/
def pay (m : Gasometer c) (cost : U256) : GasM (Gasometer c) := do
  let gas_cost ← Prog.ofExcept (Cost.from_u256 cost)
  Prog.ofExcept (m.verify_gas gas_cost)
  return { m with current_gas := m.current_gas - gas_cost }

/-- Pays for a call, and for the gas that it gets. -/
def provide (spec : Spec) (kind : SubFrame) (m : Gasometer c) (cost : U256) :
    GasM (Gasometer c × Cost c) := do
  let needed ← Prog.ofExcept (Cost.from_u256 cost)
  let provided ← Prog.ofExcept (m.gas_provided spec needed kind.requested)
  let gas_cost ← Prog.ofExcept (Cost.overflowing (Cost.overflow_add needed provided))
  Prog.ofExcept (m.verify_gas gas_cost)
  let call_gas ← Prog.expect .cost_overflow
    (Cost.checked_add provided (Cost.from (kind.stipend spec)))
  return ({ m with current_gas := m.current_gas - gas_cost }, call_gas)

/-- Takes back the gas that was not used. -/
def unused (m : Gasometer c) (gas : Cost c) : GasM (Gasometer c) := do
  let current_gas ← Prog.expect .cost_overflow (Cost.checked_add m.current_gas gas)
  return { m with current_gas := current_gas }

/-- The gas that a frame left, in the type of its caller. -/
def gasLeft (gas_left : U256) : GasM (Cost c) :=
  match (Cost.from_u256 gas_left : Except VmError (Cost c)) with
  | .ok gas => return gas
  | .error _ => Prog.abort .gas_left_cannot_be_greater

end

/-- Runs a frame with the given gas and shows it to the observer; the gas it leaves. -/
def enter (gas : U256) (body : Gasometer (costType gas) → GasM (Gasometer (costType gas))) :
    GasM U256 := do
  GasM.record_call gas
  let start ← Prog.ofExcept (Cost.from_u256 gas)
  let finish ← body (.new start)
  GasM.record_result finish.current_gas.as_u256
  return finish.current_gas.as_u256

variable {spec : Spec}

/-- Executes the rest of a frame. -/
def exec : (t : CallTree spec) → {c : CostType} → Gasometer c → GasM (Gasometer c)
  | .done, _, m => return m
  | .own cost rest, _, m => do
    let m ← pay m cost
    rest.exec m
  | .sub kind cost _ callee rest, _, m => do
    let (m, call_gas) ← provide spec kind m cost
    let gas_left ← enter call_gas.as_u256 fun start => callee.exec start
    let m ← unused m (← gasLeft gas_left)
    rest.exec m
  | .refused kind cost _ rest, _, m => do
    let (m, call_gas) ← provide spec kind m cost
    let m ← unused m call_gas
    rest.exec m

/-- Executes a transaction with the given gas limit. The first frame gets what is left of it beyond
    the base gas. -/
def transact (t : CallTree spec) (base_gas_required : Nat) (gas : U256) : GasM U256 :=
  if gas.toNat < base_gas_required then Prog.fail .OutOfGas
  else enter (gas - BitVec.ofNat 256 base_gas_required) fun start => t.exec start

end CallTree

end CfxEvm
