import CfxEvm.Evm.Proofs.GasProofs
import CfxEvm.InternalContract.CrossSpace

/-!
# Proofs: gas of the internal contracts

A function of an internal contract is charged for in advance. What a cross-space call or creation
keeps and what it passes on, the stipend included, is not more than was there: the stipend is paid
for in advance by the price of the transfer.
-/

open Lib Lib.Prog

namespace CfxEvm

variable {α β : Type} {spec : Spec}

/-- A function that traps passes on and keeps at most `gas`, its base price included. -/
def Answer.Within (spec : Spec) (gas : Nat) : Answer α → Prop
  | .Return _ => True
  | .SubCallCreate trap resume =>
    resume.gas_retained.toNat + trap.params.gas.toNat + trap.base_price spec ≤ gas

/-- A frame of an internal contract has at most `gas` when it returns or traps. -/
def Answer.GasWithin (spec : Spec) (gas : Nat) (answer : Answer GasLeft) : Prop :=
  answer.Within spec gas ∧ ∀ output, answer = .Return output → output.gas.toNat ≤ gas

theorem gas_sum_yields (gas : Nat) : Yields (fun r => r.toNat = gas) (gas_sum gas) := by
  refine .ite (fun h => .pure ?_) fun _ => .abort _
  exact (BitVec.toNat_ofNat _ _).trans (Nat.mod_eq_of_lt h)

theorem toNat_sub_add {x y : U256} (h : y.toNat ≤ x.toNat) : (x - y).toNat + y.toNat = x.toNat := by
  rw [BitVec.toNat_sub_of_le (BitVec.le_def.mpr h)]
  omega

/-- The stipend of a cross-space call or creation. -/
def value_stipend (spec : Spec) (value : U256) : Nat :=
  if value.is_zero then 0 else spec.call_stipend

/-- Together the two parts are the gas that was there, and the stipend. -/
theorem split_gas_total (gas_left value : U256) :
    Yields (fun r => r.2.toNat + r.1.toNat = gas_left.toNat + value_stipend spec value)
      (split_gas spec gas_left value) := by
  refine .bind (gas_sum_yields _) fun call_gas h => .pure ?_
  have hlt := gas_left.isLt
  have hle : gas_left.toNat / CROSS_SPACE_GAS_RATIO ≤ gas_left.toNat := Nat.div_le_self _ _
  have hpart : (BitVec.ofNat 256 (gas_left.toNat / CROSS_SPACE_GAS_RATIO)).toNat =
      gas_left.toNat / CROSS_SPACE_GAS_RATIO := by
    rw [BitVec.toNat_ofNat, Nat.mod_eq_of_lt (by omega)]
  have hsub := toNat_sub_add (x := gas_left) (hpart.trans_le hle)
  simp only [value_stipend]
  omega

section
variable [Keccak] {g : Globals} {ctx : FrameContext} {params : ActionParams}

theorem call_to_evmcore_gas (receiver : Address) (data : Bytes) (call_type : CallType)
    (gas_left : U256) :
    Yields (Answer.Within g.spec
        (gas_left.toNat + g.spec.call_gas + value_stipend g.spec params.value.value))
      (call_to_evmcore g ctx receiver data call_type params gas_left) := by
  refine .ite (fun _ => .fail _) fun _ => .bind (split_gas_total _ _) fun r hr => .seq fun _ =>
    .seq fun _ => .seq fun _ => .seq fun _ => .pure ?_
  simp only [Answer.Within, TrapKind.params, TrapKind.base_price]
  omega

theorem create_to_evmcore_gas (init : Bytes) (salt : Option H256) (gas_left : U256) :
    Yields (Answer.Within g.spec
        (gas_left.toNat + g.spec.create_gas + value_stipend g.spec params.value.value))
      (create_to_evmcore g ctx init salt params gas_left) := by
  refine .ite (fun _ => .fail _) fun _ => .bind (split_gas_total _ _) fun r hr => .seq fun _ =>
    .seq fun _ => .seq fun _ => .seq fun _ => .seq fun _ => .pure ?_
  simp only [Answer.Within, TrapKind.params, TrapKind.base_price]
  omega

omit [Keccak] in
theorem simple_gas (execute_inner : α → HostM β) (input : α) (gas_left : U256) (gas : Nat) :
    Yields (Answer.Within spec gas) (simple execute_inner input gas_left) :=
  .seq fun _ => .pure trivial

omit [Keccak] in
/-- A function that is charged for at least `price` in advance, and whose trap needs no more than
    that on top of what is left. -/
theorem run_function_gas [ABIDecodable α] [ABIEncodable β] {t : FunctionType}
    {upfront_gas_payment : α → HostM U256} {execute_inner : α → U256 → HostM (Answer β)}
    (price : Nat)
    (hprice : ∀ a, pre_execution_check t params = .ok () →
      Yields (fun cost => price ≤ cost.toNat) (upfront_gas_payment a))
    (hinner : ∀ a gas_left,
      Yields (Answer.Within spec (gas_left.toNat + price)) (execute_inner a gas_left))
    (input : Bytes) :
    Yields (Answer.GasWithin spec params.gas.toNat)
      (run_function spec t upfront_gas_payment execute_inner input params) := by
  refine .bind (.ofExcept fun _ h => h) fun _ hcheck => .seq fun a =>
    .bind (hprice a hcheck) fun cost hcost => .ite (fun _ => .fail _) fun hle => ?_
  have hsub := toNat_sub_add (Nat.le_of_not_lt hle)
  refine .bind (hinner a _) fun answer hwithin => ?_
  cases answer with
  | Return output =>
    refine .seq fun bytes => .ite (fun _ => .fail _) fun hret => .pure ⟨trivial, ?_⟩
    rintro _ ⟨⟩
    have hlt := (params.gas - cost).isLt
    have hcost' : (BitVec.ofNat 256 ((bytes.length + 31) / 32 * spec.memory_gas)).toNat =
        (bytes.length + 31) / 32 * spec.memory_gas := by
      rw [BitVec.toNat_ofNat, Nat.mod_eq_of_lt (by omega)]
    have hsub' := toNat_sub_add (x := params.gas - cost)
      (hcost'.trans_le (Nat.le_of_not_lt hret))
    simp only [GasLeft.gas]
    omega
  | SubCallCreate trap resume =>
    refine .pure ⟨?_, fun _ h => by cases h⟩
    simp only [Answer.Within] at hwithin ⊢
    omega

theorem call_gas_floor (hspec : g.spec.GenesisConstants) (receiver : Address) (data : Bytes) :
    Yields (fun cost => g.spec.call_gas + value_stipend g.spec params.value.value ≤ cost.toNat)
      (call_gas receiver params g.spec data) := by
  have hstipend : g.spec.call_stipend = 2300 := congrArg Spec.call_stipend hspec
  have htransfer : g.spec.call_value_transfer_gas = 9000 :=
    congrArg Spec.call_value_transfer_gas hspec
  have hle : value_stipend g.spec params.value.value ≤
      if params.value.value.is_zero then 0 else g.spec.call_value_transfer_gas := by
    unfold value_stipend
    split <;> omega
  exact .seq fun transaction_gas => .seq fun _ => (gas_sum_yields _).mono fun cost hcost => by omega

omit [Keccak] in
theorem create_gas_floor (hspec : g.spec.GenesisConstants) (code : Bytes) :
    Yields (fun cost => g.spec.create_gas + value_stipend g.spec params.value.value ≤ cost.toNat)
      (create_gas g.spec code) := by
  have hstipend : g.spec.call_stipend = 2300 := congrArg Spec.call_stipend hspec
  have htx : g.spec.tx_gas = 21000 := congrArg Spec.tx_gas hspec
  have hle : value_stipend g.spec params.value.value ≤ 2300 := by
    unfold value_stipend
    split <;> omega
  refine .bind (P := fun n => g.spec.tx_gas ≤ n) ?_ fun transaction_gas h =>
    (gas_sum_yields _).mono fun cost hcost => by omega
  exact .seq fun required => .seq fun _ => .pure (Nat.le_add_left _ _)

/-- The frame of an internal contract never has more gas than it was given. -/
theorem internal_exec_gas (hspec : g.spec.GenesisConstants) (internal : InternalContract) :
    Yields (Answer.GasWithin g.spec params.gas.toNat) (internal.exec g ctx params) := by
  refine .ite (fun _ => .seq fun r => ?_) fun _ => .fail _
  obtain ⟨f, input⟩ := r
  cases f
  case CreateToEVM =>
    refine run_function_gas (g.spec.create_gas + value_stipend g.spec params.value.value)
      (fun init _ => create_gas_floor hspec init) (fun init gas_left => ?_) _
    simpa only [Nat.add_assoc] using create_to_evmcore_gas init none gas_left
  case TransferToEVM =>
    refine run_function_gas _ (fun a _ => call_gas_floor hspec a.to_address [])
      (fun a gas_left => ?_) _
    simpa only [Nat.add_assoc] using call_to_evmcore_gas a.to_address [] .Call gas_left
  case CallToEVM =>
    refine run_function_gas _ (fun a _ => call_gas_floor hspec a.1.to_address a.2)
      (fun a gas_left => ?_) _
    simpa only [Nat.add_assoc] using call_to_evmcore_gas a.1.to_address a.2 .Call gas_left
  case StaticCallToEVM =>
    -- A static call is not payable, so there is no stipend.
    refine run_function_gas (g.spec.call_gas + value_stipend g.spec params.value.value)
      (fun a hcheck => (gas_sum_yields _).mono fun cost hcost => ?_) (fun a gas_left => ?_) _
    · have hzero : params.value.value.is_zero = true := by
        by_contra hne
        simp [pre_execution_check, SolidityFunction.function_type, FunctionType.query,
          hne] at hcheck
      simp only [value_stipend, hzero, if_true, static_call_gas] at hcost ⊢
      omega
    · simpa only [Nat.add_assoc] using call_to_evmcore_gas a.1.to_address a.2 .StaticCall gas_left
  all_goals
    exact run_function_gas 0 (fun _ _ => (Yields.any _).mono fun _ _ => Nat.zero_le _)
      (fun a gas_left => simple_gas _ a gas_left _) _

end

end CfxEvm
