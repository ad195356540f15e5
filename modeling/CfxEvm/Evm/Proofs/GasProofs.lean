import CfxEvm.Evm.Interpreter

/-!
# Proofs: gas of one step

Under the constants of `genesis_spec` every instruction that does not halt costs at least one unit,
and a call or creation costs its base price on top of all the gas that it passes on, the stipend
included. So a step never leaves more gas than there was.
-/

open Lib Lib.Prog

namespace CfxEvm

variable {c : CostType}

/-! ## Prices -/

/-- The stipend of a call with the value that stands third on the stack. -/
def stack_stipend (spec : Spec) (stack : List U256) : Nat := Interpreter.stipend spec stack[2]?

/-- What an instruction costs at least, beside the gas that it passes on without a stipend. -/
def price_floor (spec : Spec) (instruction : Instruction) (stack : List U256) : Nat :=
  match instruction with
  | .STOP | .RETURN | .REVERT => 0
  | .CALL | .CALLCODE => spec.call_gas + stack_stipend spec stack
  | .DELEGATECALL | .STATICCALL => spec.call_gas
  | .CREATE | .CREATE2 => spec.create_gas
  | _ => 1

/-- The gas of a request. -/
def Request.gas : Request c → Cost c
  | Gas gas => gas
  | GasMem gas _ => gas
  | GasMemProvide gas _ _ => gas
  | GasMemCopy gas _ _ => gas

namespace Gasometer

theorem peek_yields (stack : List U256) (n : Nat) :
    Yields (fun v => stack[n]? = some v) (peek stack n) := .expect fun _ h => h

theorem add_if_yields (condition : Bool) (gas : Cost c) {amount : Nat} (h : amount < 2 ^ 64) :
    Yields (fun gas' => gas.toNat + (if condition then amount else 0) = gas'.toNat)
      (add_if condition gas amount) := by
  unfold add_if
  cases condition with
  | false => exact .pure (by simp)
  | true =>
    refine .ofExcept fun gas' hgas => ?_
    rw [Cost.toNat_of_overflow_add hgas, Cost.toNat_from h, if_pos rfl]

variable {g : Globals} {ctx : FrameContext}

/-- The stipend is paid for by the price of a transfer. -/
theorem stack_stipend_le {spec : Spec} (hspec : spec.GenesisConstants) {stack : List U256}
    {v : U256} (hv : stack[2]? = some v) :
    stack_stipend spec stack ≤ if !v.is_zero then spec.call_value_transfer_gas else 0 := by
  have hstipend : spec.call_stipend = 2300 := congrArg Spec.call_stipend hspec
  have htransfer : spec.call_value_transfer_gas = 9000 :=
    congrArg Spec.call_value_transfer_gas hspec
  simp only [stack_stipend, hv, Interpreter.stipend]
  cases v.is_zero <;> simp [hstipend, htransfer]

theorem le_from {k n : Nat} (hk : k ≤ n) (hn : n < 2 ^ 64) : k ≤ (Cost.from n : Cost c).toNat := by
  rwa [Cost.toNat_from hn]

variable [Keccak]

/-- The price of a call with a value. -/
theorem request_call_floor (hspec : g.spec.GenesisConstants) {instruction : Instruction}
    (hcall : instruction = .CALL ∨ instruction = .CALLCODE) (stack : List U256) :
    Yields (fun r => g.spec.call_gas + stack_stipend g.spec stack ≤ r.gas.toNat)
      (request g ctx instruction stack : HostM (Request c)) := by
  have hgas : g.spec.call_gas = 700 := congrArg Spec.call_gas hspec
  have htransfer : g.spec.call_value_transfer_gas = 9000 :=
    congrArg Spec.call_value_transfer_gas hspec
  have hnew : g.spec.call_new_account_gas * g.spec.evm_gas_ratio = 50000 := by
    rw [show g.spec.call_new_account_gas = 25000 from congrArg Spec.call_new_account_gas hspec,
      show g.spec.evm_gas_ratio = 2 from congrArg Spec.evm_gas_ratio hspec]
  rcases hcall with rfl | rfl <;> unfold request <;>
    refine .seq fun _ => .seq fun _ => .seq fun _ => .seq fun _ => .seq fun _ => .seq fun _ =>
      .seq fun _ => .bind (peek_yields stack 2) fun v hv => .seq fun _ =>
      .bind (add_if_yields _ _ (by omega)) fun gas₁ h₁ =>
      .bind (add_if_yields _ _ (by omega)) fun gas₂ h₂ => .seq fun _ => .pure ?_ <;>
    · have hle := stack_stipend_le hspec hv
      have hbase := Cost.toNat_from (c := c) (n := g.spec.call_gas) (by omega)
      simp only [Request.gas]
      omega

/-- An instruction costs at least its floor. -/
theorem request_floor (hspec : g.spec.GenesisConstants) (instruction : Instruction)
    (stack : List U256) :
    Yields (fun r => price_floor g.spec instruction stack ≤ r.gas.toNat)
      (request g ctx instruction stack : HostM (Request c)) := by
  by_cases hcall : instruction = .CALL ∨ instruction = .CALLCODE
  · have hfloor : price_floor g.spec instruction stack =
        g.spec.call_gas + stack_stipend g.spec stack := by
      rcases hcall with rfl | rfl <;> rfl
    rw [hfloor]
    exact request_call_floor hspec hcall stack
  have htier : g.spec.tier_step_gas = [0, 2, 3, 5, 8, 10, 20, 0] :=
    congrArg Spec.tier_step_gas hspec
  have hratio : g.spec.evm_gas_ratio = 2 := congrArg Spec.evm_gas_ratio hspec
  unfold request
  cases instruction
  case CALL => exact absurd (.inl rfl) hcall
  case CALLCODE => exact absurd (.inr rfl) hcall
  case SSTORE =>
    have hset : g.spec.sstore_set_gas = 20000 := congrArg Spec.sstore_set_gas hspec
    have hreset : g.spec.sstore_reset_gas = 5000 := congrArg Spec.sstore_reset_gas hspec
    refine .seq fun _ => .seq fun _ => .seq fun _ => .pure (le_from ?_ ?_) <;>
      simp only [price_floor, hset, hreset, hratio] <;> split <;> decide
  case SLOAD =>
    have hprice : g.spec.sload_gas = 200 := congrArg Spec.sload_gas hspec
    exact .pure (le_from (by simp [price_floor, hprice]) (by omega))
  case BALANCE =>
    have hprice : g.spec.balance_gas = 400 := congrArg Spec.balance_gas hspec
    exact .pure (le_from (by simp [price_floor, hprice]) (by omega))
  case EXTCODESIZE =>
    have hprice : g.spec.extcodesize_gas = 700 := congrArg Spec.extcodesize_gas hspec
    exact .pure (le_from (by simp [price_floor, hprice]) (by omega))
  case EXTCODEHASH =>
    have hprice : g.spec.extcodehash_gas = 400 := congrArg Spec.extcodehash_gas hspec
    exact .pure (le_from (by simp [price_floor, hprice]) (by omega))
  case BLOCKHASH =>
    have hprice : g.spec.blockhash_gas = 20 := congrArg Spec.blockhash_gas hspec
    exact .pure (le_from (by simp [price_floor, hprice]) (by omega))
  case EXTCODECOPY =>
    have hprice : g.spec.extcodecopy_base_gas = 700 := congrArg Spec.extcodecopy_base_gas hspec
    exact .seq fun _ => .seq fun _ => .seq fun _ => .seq fun _ => .seq fun _ =>
      .pure (le_from (by simp [price_floor, hprice]) (by omega))
  case SUICIDE =>
    have hprice : g.spec.suicide_gas = 5000 := congrArg Spec.suicide_gas hspec
    have hnew : g.spec.suicide_to_new_account_cost = 25000 :=
      congrArg Spec.suicide_to_new_account_cost hspec
    refine .seq fun _ => .seq fun _ => .seq fun _ =>
      .bind (add_if_yields _ _ (by rw [hnew, hratio]; decide)) fun gas h => .pure ?_
    have hbase := Cost.toNat_from (c := c) (n := g.spec.suicide_gas) (by omega)
    simp only [Request.gas, price_floor]
    omega
  case SHA3 =>
    have hprice : g.spec.sha3_gas = 30 := congrArg Spec.sha3_gas hspec
    refine .seq fun _ => .seq fun _ => .seq fun _ => .seq fun _ =>
      .bind (.ofExcept fun gas h => Cost.toNat_of_overflow_add h) fun gas h => .seq fun _ =>
      .seq fun _ => .seq fun _ => .pure ?_
    have hbase := Cost.toNat_from (c := c) (n := g.spec.sha3_gas) (by omega)
    simp only [Request.gas, price_floor]
    omega
  case LOG i =>
    have hprice : g.spec.log_gas = 375 := congrArg Spec.log_gas hspec
    have htopic : g.spec.log_topic_gas = 375 := congrArg Spec.log_topic_gas hspec
    refine .seq fun _ => .seq fun _ => .seq fun _ =>
      .bind (.ofExcept fun gas h => Cost.toNat_of_overflow_add h) fun gas h => .seq fun _ =>
      .seq fun _ => .seq fun _ => .pure ?_
    have hbase := Cost.toNat_from (c := c) (n := g.spec.log_gas + g.spec.log_topic_gas * i.val)
      (by rw [hprice, htopic]; omega)
    simp only [Request.gas, price_floor]
    omega
  case CREATE =>
    have hprice : g.spec.create_gas = 32000 := congrArg Spec.create_gas hspec
    refine .seq fun _ => .seq fun _ => .seq fun _ => .seq fun _ => .seq fun _ =>
      .bind (.ofExcept fun gas h => Cost.toNat_of_overflow_add h) fun gas h =>
      .seq fun _ => .pure ?_
    have hbase := Cost.toNat_from (c := c) (n := g.spec.create_gas) (by omega)
    simp only [Request.gas, price_floor]
    omega
  case CREATE2 =>
    have hprice : g.spec.create_gas = 32000 := congrArg Spec.create_gas hspec
    refine .seq fun _ => .seq fun _ => .seq fun _ => .seq fun _ => .seq fun _ =>
      .bind (.ofExcept fun gas h => Cost.toNat_of_overflow_add h) fun gas h =>
      .seq fun _ => .pure ?_
    have hbase := Cost.toNat_from (c := c) (n := g.spec.create_gas) (by omega)
    simp only [Request.gas, price_floor]
    omega
  case EXP =>
    have hprice : g.spec.exp_gas = 10 := congrArg Spec.exp_gas hspec
    have hbyte : g.spec.exp_byte_gas = 50 := congrArg Spec.exp_byte_gas hspec
    refine .seq fun v => .pure (le_from ?_ ?_)
    · simp only [price_floor]
      omega
    · have := U256.bits_le v
      rw [hprice, hbyte]
      omega
  case DELEGATECALL =>
    have hprice : g.spec.call_gas = 700 := congrArg Spec.call_gas hspec
    exact .seq fun _ => .seq fun _ => .seq fun _ => .seq fun _ => .seq fun _ => .seq fun _ =>
      .seq fun _ => .pure (le_from (by simp [price_floor, hprice]) (by omega))
  case STATICCALL =>
    have hprice : g.spec.call_gas = 700 := congrArg Spec.call_gas hspec
    exact .seq fun _ => .seq fun _ => .seq fun _ => .seq fun _ => .seq fun _ => .seq fun _ =>
      .seq fun _ => .pure (le_from (by simp [price_floor, hprice]) (by omega))
  -- the others have the price of their tier, or a price of one
  all_goals
    repeat' first
      | refine .pure (le_from ?_ ?_) <;>
        simp [price_floor, htier, Instruction.info, GasPriceTier.idx]
      | refine .seq fun _ => ?_

omit [Keccak] in
theorem with_mem_yields (m : Gasometer c) (spec : Spec) (size : Nat) (gas mem_size : Cost c) :
    Yields (fun r => r.provide_gas = none ∧ gas.toNat ≤ r.gas_cost.toNat)
      (m.with_mem spec size gas mem_size) := by
  refine .seq fun _ => .bind (.ofExcept fun gas' h => Cost.toNat_of_overflow_add h) fun gas' h =>
    .pure ⟨rfl, ?_⟩
  simp only [h]
  omega

/-- What an instruction costs: its floor, and the gas that it passes on. -/
theorem requirements_floor (hspec : g.spec.GenesisConstants) (m : Gasometer c)
    (instruction : Instruction) (stack : List U256) (size : Nat) :
    Yields (fun r => price_floor g.spec instruction stack +
        (r.provide_gas.map BitVec.toNat).getD 0 ≤ r.gas_cost.toNat)
      (m.requirements g ctx instruction stack size) := by
  refine .bind (request_floor hspec instruction stack) fun request hfloor => ?_
  cases request with
  | Gas gas => exact .pure hfloor
  | GasMem gas mem_size =>
    refine (with_mem_yields m g.spec size gas mem_size).mono fun r hr => ?_
    simpa [hr.1] using hfloor.trans hr.2
  | GasMemProvide gas mem_size requested =>
    refine .bind (with_mem_yields m g.spec size gas mem_size) fun r hr => .seq fun provided =>
      .bind (.ofExcept fun total h => Cost.toNat_of_overflow_add h) fun total h => .pure ?_
    simp only [Request.gas] at hfloor
    simp only [Option.map_some, Option.getD_some]
    omega
  | GasMemCopy gas mem_size copy =>
    refine .seq fun _ => .seq fun _ => .seq fun _ =>
      .bind (.ofExcept fun gas₁ h => Cost.toNat_of_overflow_add h) fun gas₁ h₁ =>
      .bind (.ofExcept fun gas₂ h => Cost.toNat_of_overflow_add h) fun gas₂ h₂ => .pure ?_
    simp only [Request.gas] at hfloor
    simp only [Option.map_none, Option.getD_none]
    omega

end Gasometer

/-! ## Instructions -/

/-- The gas that a result carries. -/
def GasLeft.gas : GasLeft → U256
  | Known gas_left => gas_left
  | NeedsReturn gas_left _ _ => gas_left

/-- The price that a call or creation costs its caller for good. -/
def TrapKind.base_price (spec : Spec) : TrapKind → Nat
  | .Call _ => spec.call_gas
  | .Create _ => spec.create_gas

namespace Interpreter

/-- The gas in the result of an instruction, when `before` was there before it, `after` is left of
    it, and at least `cost` was for the instruction itself. A trap is never for free. -/
def ResultGas (spec : Spec) (cost before after : Nat) : InstructionResult c → Prop
  | .UnusedGas gas => after + gas.toNat + cost ≤ before
  | .StopExecutionNeedsReturn gas _ _ _ => gas.toNat ≤ before
  | .StopExecution => after ≤ before
  | .Trap trap => after + trap.params.gas.toNat + trap.base_price spec ≤ before ∧ 0 < cost
  | _ => after + cost ≤ before

theorem wp_pop_back {l : Local} {h : Host State}
    {Q : Except VmError U256 → Local × Host State → Prop}
    (hq : ∀ top rest, l.stack = top :: rest → Q (.ok top) ({ l with stack := rest }, h)) :
    wp (onLocal Local.pop_back) (fun _ => True) Q (l, h) := by
  refine wp_zoom.mpr (wp_bind.mpr (wp_gets.mpr ?_))
  rcases hs : l.stack with _ | ⟨top, rest⟩
  · trivial
  · exact hq top rest hs

variable [Keccak] {g : Globals} {ctx : FrameContext} {params : InterpreterParams}
  {before after : Nat}

/-- What a creation passes on. -/
theorem exec_create_gas (hspec : g.spec.GenesisConstants) (instruction : Instruction)
    (provided : Option (Cost c))
    (hgas : after + g.spec.create_gas + (provided.map BitVec.toNat).getD 0 ≤ before) :
    Yields (ResultGas g.spec 1 before after) (exec_create g ctx params instruction provided) := by
  have hbase : g.spec.create_gas = 32000 := congrArg Spec.create_gas hspec
  refine .seq fun _ => .seq fun _ => .seq fun _ => .seq fun _ =>
    .bind (.expect fun gas h => h) fun gas hgas' => .ite (fun _ => .fail _) fun _ =>
    .seq fun _ => .seq fun _ => .ite (fun _ => ?_) fun _ => ?_
  all_goals rw [hgas', Option.map_some, Option.getD_some] at hgas
  · refine .seq fun code => .bind (P := fun trap => trap.base_price g.spec = g.spec.create_gas ∧
      trap.params.gas = Cost.as_u256 gas) (.zoom ?_) fun trap htrap => .pure ?_
    · exact .seq fun _ => .seq fun _ => .pure ⟨rfl, rfl⟩
    · simp only [ResultGas, htrap, Cost.toNat_as_u256]
      omega
  · refine .seq fun _ => .pure ?_
    simp only [ResultGas]
    omega

/-- The instructions that call. -/
def is_call (instruction : Instruction) : Prop :=
  instruction = .CALL ∨ instruction = .CALLCODE ∨ instruction = .DELEGATECALL ∨
    instruction = .STATICCALL

omit [Keccak] in
/-- The stipend of a call is in its floor. -/
theorem call_value_stipend {instruction : Instruction} (hcall : is_call instruction) {l : Local}
    (h : Host State) {stack : List U256} {x y : U256} (hstack : stack = x :: y :: l.stack) :
    wp (onLocal (call_value instruction)) (fun _ => True) (fun r _ => ∀ value, r = .ok value →
      g.spec.call_gas + stipend g.spec value = price_floor g.spec instruction stack) (l, h) := by
  have hpop : wp (do return some (← Local.pop_back) : LocalM (Option U256)) (fun _ => True)
      (fun r _ => ∀ value, r = .ok value →
        g.spec.call_gas + stipend g.spec value = g.spec.call_gas + stack_stipend g.spec stack)
      l := by
    refine wp_bind.mpr (wp_bind.mpr (wp_gets.mpr ?_))
    rcases hs : l.stack with _ | ⟨top, rest⟩
    · trivial
    · intro value hvalue
      cases hvalue
      simp only [stack_stipend, hstack, hs, List.getElem?_cons_succ, List.getElem?_cons_zero]
  refine wp_zoom.mpr ?_
  rcases hcall with rfl | rfl | rfl | rfl
  · exact hpop
  · exact hpop
  · intro value hvalue
    cases hvalue
    rfl
  · intro value hvalue
    cases hvalue
    rfl

/-- What a call passes on, the stipend included. -/
theorem exec_call_gas (hspec : g.spec.GenesisConstants) {instruction : Instruction}
    (hcall : is_call instruction) (provided : Option (Cost c)) (l : Local) (h : Host State)
    (hgas : after + price_floor g.spec instruction l.stack +
      (provided.map BitVec.toNat).getD 0 ≤ before) :
    wp (exec_call g ctx params instruction provided) (fun _ => True)
      (fun r _ => ∀ result, r = .ok result → ResultGas g.spec 1 before after result) (l, h) := by
  have hbase : g.spec.call_gas = 700 := congrArg Spec.call_gas hspec
  have hstipend : g.spec.call_stipend = 2300 := congrArg Spec.call_stipend hspec
  refine wp_bind.mpr (wp_assert (fun _ => trivial) fun _ => ?_)
  refine wp_bind.mpr (wp_pop_back fun x rest₁ h₁ => ?_)
  refine wp_bind.mpr (wp_expect (fun _ => trivial) fun call_gas hprov => ?_)
  refine wp_bind.mpr (wp_pop_back fun y rest₂ h₂ => ?_)
  rw [hprov, Option.map_some, Option.getD_some] at hgas
  have hstack : l.stack = x :: y :: rest₂ := h₁.trans (congrArg (x :: ·) h₂)
  refine wp_seq (fun value _ => g.spec.call_gas + stipend g.spec value =
    price_floor g.spec instruction l.stack) ?_ fun value p hvalue => ?_
  · refine wp_post (call_value_stipend (g := g) hcall h hstack) ?_
    rintro (e | value) p hq
    · intro result hr
      exact absurd hr (by simp)
    · exact hq value rfl
  have hsmall : stipend g.spec value < 2 ^ 64 := by
    unfold stipend
    split
    · split <;> omega
    · decide
  -- From here on only the amounts count.
  revert p
  show Yields _ _
  refine .seq fun _ => .seq fun _ => .seq fun _ => .seq fun _ =>
    .bind (.expect fun gas h => Cost.toNat_of_checked_add h) fun gas hsum => .seq fun target =>
    .seq fun _ => .ite (fun _ => ?_) fun _ => ?_
  all_goals rw [Cost.toNat_from hsmall] at hsum
  · refine .seq fun input => .bind (P := fun trap => trap.base_price g.spec = g.spec.call_gas ∧
      trap.params.gas = Cost.as_u256 gas) (.zoom ?_) fun trap htrap => .seq fun _ => .pure ?_
    · exact .seq fun _ => .seq fun _ => .pure ⟨rfl, rfl⟩
    · simp only [ResultGas, htrap, Cost.toNat_as_u256]
      omega
  · refine .seq fun _ => .pure ?_
    simp only [ResultGas]
    omega

/-- What is left after an instruction that does not call. -/
theorem exec_other_gas (hspec : g.spec.GenesisConstants) (code : Bytes) (gas : Cost c)
    {instruction : Instruction} (hcall : ¬is_call instruction) (provided : Option (Cost c))
    {stack : List U256} (hgas : gas.toNat + price_floor g.spec instruction stack +
      (provided.map BitVec.toNat).getD 0 ≤ before) :
    Yields (ResultGas g.spec 1 before gas.toNat)
      (exec_instruction g ctx params code gas instruction provided) := by
  have hle : gas.toNat ≤ before := by omega
  cases instruction
  case CALL => exact absurd (.inl rfl) hcall
  case CALLCODE => exact absurd (.inr (.inl rfl)) hcall
  case DELEGATECALL => exact absurd (.inr (.inr (.inl rfl))) hcall
  case STATICCALL => exact absurd (.inr (.inr (.inr rfl))) hcall
  case CREATE => exact exec_create_gas hspec .CREATE provided hgas
  case CREATE2 => exact exec_create_gas hspec .CREATE2 provided hgas
  case STOP => exact .pure hle
  case RETURN => exact .seq fun _ => .seq fun _ => .pure hle
  case REVERT => exact .seq fun _ => .seq fun _ => .pure hle
  case SUICIDE => exact .seq fun _ => .seq fun _ => .pure hle
  all_goals
    have hone : gas.toNat + 1 ≤ before := by
      simp only [price_floor] at hgas
      omega
  case BEGINSUB => exact .fail _
  case JUMPI =>
    refine .seq fun _ => .seq fun condition => .pure ?_
    cases condition.is_zero <;> exact hone
  case JUMPSUB =>
    exact .seq fun _ => .ite (fun _ => .fail _) fun _ => .seq fun _ => .pure hone
  case RETURNSUB =>
    refine .seq fun stack => ?_
    cases stack with
    | nil => exact .fail _
    | cons pos rest => exact .seq fun _ => .pure hone
  -- the others end with `Ok` or a jump
  all_goals
    unfold exec_instruction
    repeat' first
      | exact .pure hone
      | refine .seq fun _ => ?_

/-- What is left after an instruction that has been paid for. -/
theorem exec_instruction_gas (hspec : g.spec.GenesisConstants) (code : Bytes) (gas : Cost c)
    (instruction : Instruction) (provided : Option (Cost c)) (l : Local) (h : Host State)
    (hgas : gas.toNat + price_floor g.spec instruction l.stack +
      (provided.map BitVec.toNat).getD 0 ≤ before) :
    wp (exec_instruction g ctx params code gas instruction provided) (fun _ => True)
      (fun r _ => ∀ result, r = .ok result → ResultGas g.spec 1 before gas.toNat result)
      (l, h) := by
  by_cases hcall : is_call instruction
  · have hwp : wp (exec_call g ctx params instruction provided) _ _ (l, h) :=
      exec_call_gas hspec hcall provided l h hgas
    rcases hcall with rfl | rfl | rfl | rfl <;> exact hwp
  · exact exec_other_gas hspec code gas hcall provided hgas (l, h)

/-! ## Steps -/

omit [Keccak] in
theorem wp_get_gasometer {p : Interpreter c × Host State} {m : Gasometer c}
    (hm : p.1.gasometer = some m)
    {Q : Except VmError (Gasometer c) → Interpreter c × Host State → Prop}
    (hq : Q (.ok m) p) : wp get_gasometer (fun _ => True) Q p := by
  refine wp_bind.mpr (wp_gets.mpr (wp_expect (fun _ => trivial) fun m' hm' => ?_))
  obtain rfl : m = m' := Option.some_inj.mp (hm.symm.trans hm')
  exact hq

omit [Keccak] in
theorem wp_verify_instruction (spec : Spec) (stack_size : Nat) (info : InstructionInfo)
    (p : Interpreter c × Host State) :
    wp (verify_instruction spec stack_size info) (fun _ => True) (fun _ p' => p' = p) p := by
  unfold verify_instruction
  refine wp_ite (fun _ => rfl) fun _ => wp_ite (fun _ => ?_) fun _ => rfl
  exact wp_bind.mpr (wp_assert (fun _ => trivial) fun _ => rfl)

/-- What is left after the next instruction of the code. -/
theorem exec_next_gas (hspec : g.spec.GenesisConstants) {i : Interpreter c} {m : Gasometer c}
    (hm : i.gasometer = some m) (h : Host State) :
    wp (exec_next g ctx) (fun _ => True) (fun r p => ∀ result, r = .ok result →
      ∃ m', p.1.gasometer = some m' ∧ p.1.resume_result = i.resume_result ∧
        ResultGas g.spec 1 m.current_gas.toNat m'.current_gas.toNat result) (i, h) := by
  refine wp_bind.mpr (wp_gets.mpr ?_)
  refine wp_bind.mpr (wp_expect (fun _ => trivial) fun opcode _ => ?_)
  refine wp_bind.mpr (wp_update.mpr ?_)
  rcases Instruction.from_u8 opcode with _ | instruction
  · intro result hr
    cases hr
  refine wp_seq (fun _ p => p = ({ i with position := i.position + 1 }, h)) ?_ ?_
  · refine wp_post (wp_verify_instruction _ _ _ _) ?_
    rintro (e | _) p hp
    · intro result hr
      cases hr
    · exact hp
  rintro _ _ rfl
  refine wp_bind.mpr (wp_get_gasometer hm ?_)
  refine wp_bind.mpr (wp_zoom.mpr (wp_post (Gasometer.requirements_floor hspec m instruction
    i.stack i.mem.length h) ?_))
  rintro (e | requirements) h₁ hfloor
  · intro result hr
    cases hr
  refine wp_bind.mpr (wp_ofExcept.mpr ?_)
  rcases m.verify_gas requirements.gas_cost with e | _
  · intro result hr
    cases hr
  refine wp_bind.mpr (wp_expect (fun _ => trivial) fun current_gas hsub => ?_)
  have hpaid : current_gas.toNat + price_floor g.spec instruction i.stack +
      (requirements.provide_gas.map BitVec.toNat).getD 0 ≤ m.current_gas.toNat := by
    have hcost := Cost.toNat_of_checked_sub hsub
    have hle := hfloor requirements rfl
    omega
  refine wp_bind.mpr (wp_update.mpr (wp_zoom.mpr (wp_post (exec_instruction_gas hspec i.code
    current_gas instruction requirements.provide_gas _ h₁ hpaid) ?_)))
  intro r p hr result hok
  exact ⟨_, rfl, rfl, hr result hok⟩

/-- The gas in the result of a step that leaves the interpreter `i`, when `before` was there before
    it. A result that was waited for has been taken up. -/
def StepGas (spec : Spec) (cost before : Nat) (i : Interpreter c) : InterpreterResult → Prop
  | .Continue => i.gas + cost ≤ before ∧ i.resume_result = none
  | .Trap trap => i.gas + trap.params.gas.toNat + trap.base_price spec ≤ before ∧ 0 < cost
  | .Done (.ok gas_left) => gas_left.gas.toNat ≤ before
  | _ => True

section
variable {spec : Spec} {cost : Nat} {p : Interpreter c × Host State} {m : Gasometer c}

omit [Keccak] in
theorem wp_known_gas (hm : p.1.gasometer = some m) (hle : m.current_gas.toNat ≤ before) :
    wp known_gas (fun _ => True)
      (fun r p' => ∀ result, r = .ok result → StepGas spec cost before p'.1 result) p := by
  refine wp_bind.mpr (wp_get_gasometer hm ?_)
  intro result hok
  cases hok
  simpa only [StepGas, GasLeft.gas, Cost.toNat_as_u256] using hle

omit [Keccak] in
theorem wp_check_end (hm : p.1.gasometer = some m) (hr : p.1.resume_result = none)
    (hle : m.current_gas.toNat + cost ≤ before) :
    wp check_end (fun _ => True)
      (fun r p' => ∀ result, r = .ok result → StepGas spec cost before p'.1 result) p := by
  refine wp_bind.mpr (wp_gets.mpr (wp_ite (fun _ => ?_) fun _ => ?_))
  · exact wp_known_gas hm (by omega)
  · intro result hok
    cases hok
    exact ⟨by simpa only [gas, hm] using hle, hr⟩

/-- Looking up the destinations of jumps changes neither the gas nor the awaited result. -/
theorem wp_destinations {lookup : StepM c Bits}
    {Q : Except VmError Bits → Interpreter c × Host State → Prop}
    (hlookup : lookup = jump_destinations ∨ lookup = subroutine_destinations)
    (hq : ∀ dests p', p'.1.gasometer = p.1.gasometer → p'.1.resume_result = p.1.resume_result →
      Q (.ok dests) p') : wp lookup (fun _ => True) Q p := by
  rcases hlookup with rfl | rfl <;> refine wp_bind.mpr (wp_gets.mpr ?_)
  · rcases p.1.valid_jump_destinations with _ | dests
    · refine wp_bind.mpr (wp_gets.mpr (wp_bind.mpr (wp_update.mpr ?_)))
      exact hq _ _ rfl rfl
    · exact hq dests p rfl rfl
  · rcases p.1.valid_subroutine_destinations with _ | dests
    · refine wp_bind.mpr (wp_gets.mpr (wp_bind.mpr (wp_update.mpr ?_)))
      exact hq _ _ rfl rfl
    · exact hq dests p rfl rfl

/-- Moving on after an instruction adds no gas. -/
theorem advance_gas (hm : p.1.gasometer = some m) (hr : p.1.resume_result = none)
    (result : InstructionResult c)
    (hres : ResultGas spec cost before m.current_gas.toNat result) :
    wp (advance result) (fun _ => True)
      (fun r p' => ∀ result, r = .ok result → StepGas spec cost before p'.1 result) p := by
  cases result with
  | Ok => exact wp_check_end hm hr hres
  | UnusedGas gas =>
    refine wp_bind.mpr (wp_get_gasometer hm ?_)
    refine wp_bind.mpr (wp_expect (fun _ => trivial) fun sum hsum => ?_)
    refine wp_bind.mpr (wp_update.mpr (wp_check_end rfl hr ?_))
    rw [Cost.toNat_of_checked_add hsum]
    exact hres
  | JumpToPosition position =>
    refine wp_bind.mpr (wp_destinations (.inl rfl) fun dests p' hm' hr' => ?_)
    refine wp_bind.mpr (wp_ofExcept.mpr ?_)
    rcases verify_jump position dests with e | pos
    · intro result hok
      cases hok
    · exact wp_bind.mpr (wp_update.mpr (wp_check_end (hm'.trans hm) (hr'.trans hr) hres))
  | JumpToSubroutine position =>
    refine wp_bind.mpr (wp_destinations (.inr rfl) fun dests p' hm' hr' => ?_)
    refine wp_bind.mpr (wp_ofExcept.mpr ?_)
    rcases verify_jump position dests with e | pos
    · intro result hok
      cases hok
    · exact wp_bind.mpr (wp_update.mpr (wp_check_end (hm'.trans hm) (hr'.trans hr) hres))
  | ReturnFromSubroutine pos => exact wp_bind.mpr (wp_update.mpr (wp_check_end hm hr hres))
  | StopExecutionNeedsReturn gas init_off init_size apply =>
    refine wp_bind.mpr (wp_gets.mpr (wp_bind.mpr (wp_update.mpr ?_)))
    refine wp_bind.mpr (wp_expect (fun _ => trivial) fun data _ => ?_)
    intro result hok
    cases hok
    simpa only [StepGas, GasLeft.gas, ResultGas, Cost.toNat_as_u256] using hres
  | StopExecution => exact wp_known_gas hm hres
  | Trap trap =>
    intro result hok
    cases hok
    simpa only [StepGas, gas, hm, ResultGas] using hres

end

/-- What a resumed interpreter has to take up. -/
def Resumable (i : Interpreter c) : Prop :=
  i.resume_result = none ∨ i.resume_result = some .Ok ∨
    ∃ gas, i.resume_result = some (.UnusedGas gas)

/-- What a step costs at least: taking up a result costs nothing. -/
def step_cost (i : Interpreter c) : Nat := if i.resume_result.isNone then 1 else 0

/-- What is left after the next instruction, or with the result that was waited for. -/
theorem next_result_gas (hspec : g.spec.GenesisConstants) {i : Interpreter c} {m : Gasometer c}
    (hm : i.gasometer = some m) (hres : i.Resumable) (h : Host State) :
    wp (next_result g ctx) (fun _ => True) (fun r p => ∀ result, r = .ok result →
      ∃ m', p.1.gasometer = some m' ∧ p.1.resume_result = none ∧
        ResultGas g.spec i.step_cost (i.gas + i.pending) m'.current_gas.toNat result) (i, h) := by
  have hgas : i.gas = m.current_gas.toNat := by simp only [gas, hm]
  refine wp_bind.mpr (wp_gets.mpr ?_)
  rcases hres with hr | hr | ⟨unused, hr⟩ <;> simp only [hr]
  · refine wp_post (exec_next_gas hspec hm h) fun r p hp result hok => ?_
    simpa only [step_cost, pending, hr, hgas, Option.isNone_none, if_true, Nat.add_zero]
      using hp result hok
  · refine wp_bind.mpr (wp_update.mpr ?_)
    intro result hok
    cases hok
    exact ⟨m, hm, rfl, by simp [ResultGas, step_cost, pending, hr, hgas]⟩
  · refine wp_bind.mpr (wp_update.mpr ?_)
    intro result hok
    cases hok
    exact ⟨m, hm, rfl, by simp [ResultGas, step_cost, pending, hr, hgas]⟩

omit [Keccak] in
theorem wp_mark_done {spec : Spec} {cost : Nat} {p : Interpreter c × Host State}
    {result : InterpreterResult} (hres : StepGas spec cost before p.1 result) :
    wp (mark_done result) (fun _ => True)
      (fun r p' => ∀ result, r = .ok result → StepGas spec cost before p'.1 result) p := by
  cases result <;> intro result hok <;> cases hok <;> exact hres

/-- A step does not add gas: what it leaves, with the gas that it passes on, is not more than what
    was there with the gas that has come back. -/
theorem step_gas (hspec : g.spec.GenesisConstants) {i : Interpreter c} (hres : i.Resumable)
    (h : Host State) :
    wp (step g ctx) (fun _ => True) (fun r p => ∀ result, r = .ok result →
      StepGas g.spec i.step_cost (i.gas + i.pending) p.1 result) (i, h) := by
  refine wp_bind.mpr (wp_gets.mpr (wp_ite (fun _ => ?_) fun _ => ?_))
  · intro result hok
    cases hok
    trivial
  rcases hm : i.gasometer with _ | m
  · exact wp_mark_done trivial
  have hgas : i.gas = m.current_gas.toNat := by simp only [gas, hm]
  refine wp_ite (fun _ => wp_mark_done ?_) fun _ => ?_
  · simp [StepGas, GasLeft.gas, Cost.toNat_as_u256, hgas]
  refine wp_bind.mpr (wp_result.mpr (wp_seq (fun result p => ∃ m', p.1.gasometer = some m' ∧
    p.1.resume_result = none ∧
    ResultGas g.spec i.step_cost (i.gas + i.pending) m'.current_gas.toNat result) ?_ ?_))
  · refine wp_post (next_result_gas hspec hm hres h) ?_
    rintro (e | result) p hp
    · exact wp_mark_done trivial
    · exact hp result rfl
  · rintro result p ⟨m', hm', hr', hres'⟩
    refine wp_post (advance_gas hm' hr' result hres') ?_
    rintro (e | result) p' hp
    · exact wp_mark_done trivial
    · exact wp_mark_done (hp result rfl)

end Interpreter

end CfxEvm
