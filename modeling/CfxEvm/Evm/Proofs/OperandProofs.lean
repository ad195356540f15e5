import CfxEvm.Evm.Proofs.StepProofs
import CfxEvm.Lib.Footprint

/-!
# Proofs: the table of the instructions is right

The table says how many operands an instruction takes from the stack and how many items it leaves
there. The code of the instructions is another description of the same: whatever it does, it does
above the operands that the table allows, and it leaves as many items as the table says. A call or
creation that is trapped into leaves one item less; the resumption puts it there.
-/

open Lib Lib.Prog

namespace CfxEvm

/-- More items below the stack of the local part. -/
def Local.below (rest : List U256) (l : Local) : Local := { l with stack := l.stack ++ rest }

/-- The stack of the local part. -/
def Local.stacked : Stacked Local (List U256) := ⟨fun l => l.stack.length, Local.below⟩

/-- The same beside a host. -/
def Local.stackedBeside : Stacked (Local × Host State) (List U256) :=
  ⟨fun p => p.1.stack.length, fun rest p => (p.1.below rest, p.2)⟩

/-- Items that the result of an instruction is still to put on the stack. -/
def InstructionResult.owed {c : CostType} : InstructionResult c → ℕ
  | .Trap _ => 1
  | _ => 0

namespace Local

variable {b n : ℕ}

theorem pop_back_footprint : Footprint stacked b (n + 1) (fun _ => n) pop_back where
  leaves l hl := by
    refine wp_bind.mpr (wp_gets.mpr ?_)
    rcases hs : l.stack with _ | ⟨top, rest⟩
    · trivial
    · have hlen : l.stack.length = n + 1 := hl
      rw [hs] at hlen
      exact Nat.succ.inj hlen
  framed l rest hl := by
    have hlen : l.stack.length = n + 1 := hl
    rcases hs : l.stack with _ | ⟨top, items⟩
    · rw [hs] at hlen
      cases hlen
    · have hbelow : (l.below rest).stack = top :: (items ++ rest) := by
        rw [below, hs]
        rfl
      show (pop_back).run (l.below rest) = _
      unfold pop_back
      simp only [run_bind, run_gets, hs, hbelow]
      rfl

theorem push_footprint (elem : U256) :
    Footprint stacked b n (fun _ => n + 1) (push elem) :=
  .update (fun _ hl => congrArg (· + 1) hl) fun _ _ _ => rfl

theorem peek_footprint {i : ℕ} (hi : i < n) : Footprint stacked b n (fun _ => n) (peek i) where
  leaves l hl := wp_bind.mpr (wp_gets.mpr (wp_expect (fun _ => trivial) fun _ _ => hl))
  framed l rest hl := by
    have hlen : i < l.stack.length := hi.trans_eq hl.symm
    have hget : (l.below rest).stack[i]? = l.stack[i]? := List.getElem?_append_left hlen
    show (peek i).run (l.below rest) = _
    unfold peek
    simp only [run_bind, run_gets, hget]
    rcases l.stack[i]? with _ | item <;> rfl

theorem swap_with_top_footprint {i : ℕ} (hi : i < n) :
    Footprint stacked b n (fun _ => n) (swap_with_top i) := by
  refine .bind (peek_footprint (Nat.zero_lt_of_lt hi)) fun top =>
    .bind (peek_footprint hi) fun item =>
    .update (fun l hl => ?_) fun l rest hl => ?_
  · show ((l.stack.set i top).set 0 item).length = n
    rw [List.length_set, List.length_set]
    exact hl
  · have hlen : i < l.stack.length := hi.trans_eq hl.symm
    show ({ l.below rest with stack := ((l.stack ++ rest).set i top).set 0 item } : Local) = _
    rw [List.set_append_left _ _ hlen, List.set_append_left _ _ (by rw [List.length_set]; omega)]
    rfl

theorem pop_n_footprint (k : ℕ) (h : n = b + k) {e : ℕ} :
    Footprint stacked e n (fun _ => b) (pop_n k) := by
  subst h
  induction k with
  | zero => exact .pure rfl
  | succ k ih => exact .bind pop_back_footprint fun _ => .bind ih fun _ => .pure rfl

theorem set_mem_footprint (mem : Option Bytes) :
    Footprint stacked b n (fun _ => n) (set_mem mem) :=
  .bind (.expect _ _) fun _ => .update_apart (fun _ => rfl) fun _ _ => rfl

theorem read_slice_footprint (offset size : U256) :
    Footprint stacked b n (fun _ => n) (read_slice offset size) :=
  .bind (.gets fun _ _ => rfl) fun _ => .expect _ _

theorem return_bytes_footprint : Footprint stacked b n (fun _ => n) return_bytes :=
  .bind (.gets fun _ _ => rfl) fun _ => .expect _ _

theorem read_footprint (code : Bytes) (no_of_bytes : ℕ) :
    Footprint stacked b n (fun _ => n) (read code no_of_bytes) :=
  .bind (.gets fun _ _ => rfl) fun _ => .bind (.update_apart (fun _ => rfl) fun _ _ => rfl) fun _ =>
    .bind (.assert _ _) fun _ => .pure rfl

theorem copy_data_to_memory_footprint (source : Bytes) :
    Footprint stacked b (n + 3) (fun _ => n) (copy_data_to_memory source) := by
  have hcopy : ∀ (dest_offset source_offset : U256) (output_end : ℕ),
    Footprint stacked b n (fun _ => n)
      (Prog.when (source_offset.toNat < source.length) do
        let bytes ← Prog.expect .memory_out_of_range
          (Memory.slice source source_offset.low_u64 (output_end - source_offset.low_u64))
        set_mem (Memory.write_slice (← Prog.gets mem) dest_offset bytes)) :=
    fun _ _ _ => .when (.bind (.expect _ _) fun _ => .bind (.gets fun _ _ => rfl) fun _ =>
      set_mem_footprint _) rfl
  refine .bind pop_back_footprint fun _ => .bind pop_back_footprint fun _ =>
    .bind pop_back_footprint fun _ => .ite (fun _ => .ite (fun _ => ?_) fun _ => ?_)
      fun _ => hcopy _ _ _
  · exact .bind (.pure rfl) fun _ => .bind (.gets fun _ _ => rfl) fun _ =>
      .bind (.expect _ _) fun _ =>
      .bind (.gets fun _ _ => rfl) fun _ => .bind (set_mem_footprint _) fun _ =>
      .bind (.pure rfl) fun _ => hcopy _ _ _
  · exact .bind (.expect _ _) fun _ => .bind (.expect _ _) fun _ => .bind (.expect _ _) fun _ =>
      .bind (.expect _ _) fun _ => .bind (.pure rfl) fun _ => .bind (.gets fun _ _ => rfl) fun _ =>
      .bind (.expect _ _) fun _ => .bind (.gets fun _ _ => rfl) fun _ =>
      .bind (set_mem_footprint _) fun _ => .bind (.pure rfl) fun _ => hcopy _ _ _

end Local

/-! ## The gasometer -/

theorem peek_take {stack : List U256} {n i : ℕ} (h : i < n) :
    peek (stack.take n) i = peek stack i := by
  unfold peek
  rw [List.getElem?_take_of_lt h]

namespace Gasometer

variable [Keccak] {g : Globals} {ctx : FrameContext} {c : CostType}

/-- The price is found from the operands alone. -/
theorem request_take (instruction : Instruction) (stack : List U256) :
    (request g ctx instruction (stack.take instruction.info.args) : HostM (Request c)) =
      request g ctx instruction stack := by
  have hpeek : ∀ i, i < instruction.info.args →
      peek (stack.take instruction.info.args) i = peek stack i := fun i hi => peek_take hi
  cases instruction
  case LOG i =>
    have hoffset := hpeek 0 (by show 0 < i.val + 2; omega)
    have hsize := hpeek 1 (by show 1 < i.val + 2; omega)
    unfold request
    simp only [hoffset, hsize]
  case SSTORE | SUICIDE | MSTORE | MLOAD | MSTORE8 | RETURN | REVERT | SHA3 | CALLDATACOPY
      | CODECOPY | RETURNDATACOPY | EXTCODECOPY | CALL | CALLCODE | DELEGATECALL | STATICCALL
      | CREATE | CREATE2 | EXP =>
    unfold request
    simp (disch := decide) only [hpeek]
  all_goals rfl

theorem requirements_take (m : Gasometer c) (instruction : Instruction) (stack : List U256)
    (current_mem_size : ℕ) :
    m.requirements g ctx instruction (stack.take instruction.info.args) current_mem_size =
      m.requirements g ctx instruction stack current_mem_size := by
  unfold requirements
  rw [request_take]

end Gasometer

/-! ## The instructions -/

namespace Interpreter

variable {c : CostType} {b n : ℕ}

theorem onLocal_footprint {α : Type} {m : α → ℕ} {x : LocalM α}
    (h : Footprint Local.stacked b n m x) :
    Footprint Local.stackedBeside b n m (onLocal x) :=
  .zoom h (fun _ => rfl) (fun _ _ => rfl) (fun _ _ => rfl) fun _ _ _ => rfl

theorem onHost_footprint {α : Type} (x : HostM α) (h : n ≤ b) :
    Footprint Local.stackedBeside b n (fun _ => n) (onHost x) :=
  .apart x h (fun _ _ => rfl) (fun _ _ => rfl) fun _ _ _ => rfl

theorem pop_footprint : Footprint Local.stackedBeside b (n + 1) (fun _ => n)
    (onLocal Local.pop_back) :=
  onLocal_footprint Local.pop_back_footprint

/-- The items that the table promises, less the one that is still owed. -/
def leaves (instruction : Instruction) (result : InstructionResult c) : ℕ :=
  instruction.info.ret - result.owed

theorem plain_footprint {instruction : Instruction} {x : LocalM Unit}
    (h : Footprint Local.stacked b n (fun _ => instruction.info.ret) x) :
    Footprint Local.stackedBeside b n (leaves instruction)
      (plain x : ExecM (InstructionResult c)) :=
  .bind (onLocal_footprint h) fun _ => .pure rfl

theorem binary_footprint {instruction : Instruction} (hret : instruction.info.ret = 1)
    (f : U256 → U256 → U256) :
    Footprint Local.stackedBeside b 2 (leaves instruction)
      (binary f : ExecM (InstructionResult c)) := by
  refine plain_footprint (.bind Local.pop_back_footprint fun _ =>
    .bind Local.pop_back_footprint fun _ => ?_)
  rw [hret]
  exact Local.push_footprint _

theorem query_footprint {α : Type} {instruction : Instruction} (hret : instruction.info.ret = 1)
    (read : Address → HostM α) (f : α → U256) :
    Footprint Local.stackedBeside b 1 (leaves instruction)
      (query read f : ExecM (InstructionResult c)) := by
  refine .bind pop_footprint fun _ => .bind (onHost_footprint _ (Nat.zero_le b)) fun _ =>
    .bind (onLocal_footprint (Local.push_footprint _)) fun _ => .pure ?_
  rw [leaves, hret]
  rfl

theorem pop_address_scheme_footprint {k : ℕ} {instruction : Instruction}
    (hk : k = if instruction = .CREATE2 then 1 else 0) :
    Footprint Local.stacked b k (fun _ => 0) (pop_address_scheme instruction) := by
  subst hk
  unfold pop_address_scheme
  split
  · exact .bind Local.pop_back_footprint fun _ => .pure rfl
  · exact .pure rfl

theorem call_value_footprint {k : ℕ} {instruction : Instruction}
    (hk : k = if instruction = .DELEGATECALL ∨ instruction = .STATICCALL then 4 else 5) :
    Footprint Local.stacked b k (fun _ => 4) (call_value instruction) := by
  subst hk
  unfold call_value
  by_cases hdelegate : instruction = .DELEGATECALL
  · rw [if_pos hdelegate, if_pos (.inl hdelegate)]
    exact .pure rfl
  · rw [if_neg hdelegate]
    by_cases hstatic : instruction = .STATICCALL
    · rw [if_pos hstatic, if_pos (.inr hstatic)]
      exact .pure rfl
    · rw [if_neg hstatic, if_neg (not_or.mpr ⟨hdelegate, hstatic⟩)]
      exact .bind Local.pop_back_footprint fun _ => .pure rfl

section
variable [Keccak] {g : Globals} {ctx : FrameContext} {params : InterpreterParams}

/-- A creation is trapped into, or it does not take place and leaves a zero. -/
theorem exec_create_footprint {k : ℕ} {instruction : Instruction} (hret : instruction.info.ret = 1)
    (hk : k = if instruction = .CREATE2 then 1 else 0) (provided : Option (Cost c)) :
    Footprint Local.stackedBeside b (k + 3) (leaves instruction)
      (exec_create g ctx params instruction provided) := by
  have hleaves : ∀ result : InstructionResult c, leaves instruction result = 1 - result.owed := by
    intro result
    rw [leaves, hret]
  refine .bind pop_footprint fun endowment => .bind pop_footprint fun init_off =>
    .bind pop_footprint fun init_size => ?_
  refine .bind (onLocal_footprint (pop_address_scheme_footprint hk)) fun scheme =>
    .bind (.expect _ _) fun create_gas => .ite (fun _ => .fail _ (Nat.zero_le b)) fun _ => ?_
  refine .bind (onLocal_footprint (.update_apart (fun _ => rfl) fun _ _ => rfl)) fun _ =>
    .bind (onHost_footprint _ (Nat.zero_le b)) fun balance => .ite (fun _ => ?_) fun _ => ?_
  · exact .bind (onLocal_footprint (Local.read_slice_footprint _ _)) fun code =>
      .bind (onHost_footprint _ (Nat.zero_le b)) fun trap => .pure (by rw [hleaves]; rfl)
  · exact .bind (onLocal_footprint (Local.push_footprint _)) fun _ => .pure (by rw [hleaves]; rfl)

/-- So is a call. -/
theorem exec_call_footprint {k : ℕ} {instruction : Instruction} (hret : instruction.info.ret = 1)
    (hk : k = if instruction = .DELEGATECALL ∨ instruction = .STATICCALL then 4 else 5)
    (provided : Option (Cost c)) :
    Footprint Local.stackedBeside b (k + 2) (leaves instruction)
      (exec_call g ctx params instruction provided) := by
  have hleaves : ∀ result : InstructionResult c, leaves instruction result = 1 - result.owed := by
    intro result
    rw [leaves, hret]
  refine .bind (.assert _ _) fun _ => .bind pop_footprint fun _ =>
    .bind (.expect _ _) fun call_gas =>
    .bind pop_footprint fun code_address => ?_
  refine .bind (onLocal_footprint (call_value_footprint hk)) fun value =>
    .bind pop_footprint fun in_off =>
    .bind pop_footprint fun in_size => .bind pop_footprint fun out_off =>
    .bind pop_footprint fun out_size => .bind (.expect _ _) fun call_gas => ?_
  refine .bind (onHost_footprint _ (Nat.zero_le b)) fun target =>
    .bind (onLocal_footprint (.update_apart (fun _ => rfl) fun _ _ => rfl)) fun _ =>
    .ite (fun _ => ?_) fun _ => ?_
  · exact .bind (onLocal_footprint (Local.read_slice_footprint _ _)) fun input =>
      .bind (onHost_footprint _ (Nat.zero_le b)) fun trap =>
      .bind (onLocal_footprint (.update_apart (fun _ => rfl) fun _ _ => rfl)) fun _ =>
      .pure (by rw [hleaves]; rfl)
  · exact .bind (onLocal_footprint (Local.push_footprint _)) fun _ => .pure (by rw [hleaves]; rfl)

/-- The operands of an instruction are all that it reaches, and it leaves what the table says. -/
theorem exec_instruction_footprint (code : Bytes) (gas : Cost c) (instruction : Instruction)
    (provided : Option (Cost c)) :
    Footprint Local.stackedBeside instruction.info.args instruction.info.args (leaves instruction)
      (exec_instruction g ctx params code gas instruction provided) := by
  cases instruction
  case CREATE => exact exec_create_footprint (k := 0) rfl rfl _
  case CREATE2 => exact exec_create_footprint (k := 1) rfl rfl _
  case CALL | CALLCODE => exact exec_call_footprint (k := 5) rfl rfl _
  case DELEGATECALL | STATICCALL => exact exec_call_footprint (k := 4) rfl rfl _
  case GAS | ADDRESS | ORIGIN | CALLER | CALLVALUE | CALLDATASIZE | CODESIZE | GASPRICE | COINBASE
      | TIMESTAMP | NUMBER | DIFFICULTY | GASLIMIT | CHAINID =>
    exact plain_footprint (Local.push_footprint _)
  case ADD | MUL | SUB | DIV | MOD | SDIV | SMOD | EXP | LT | SLT | GT | SGT | EQ | AND | OR | XOR
      | BYTE | SHL | SHR | SAR =>
    exact binary_footprint rfl _
  case BALANCE | EXTCODESIZE | EXTCODEHASH => exact query_footprint rfl _ _
  case NOT | ISZERO | CALLDATALOAD =>
    exact plain_footprint (.bind Local.pop_back_footprint fun _ => Local.push_footprint _)
  case ADDMOD | MULMOD =>
    exact plain_footprint (.bind Local.pop_back_footprint fun _ =>
      .bind Local.pop_back_footprint fun _ =>
      .bind Local.pop_back_footprint fun _ => .bind (.expect _ _) fun _ => Local.push_footprint _)
  case SIGNEXTEND =>
    -- The number stays where it is, or is replaced.
    exact plain_footprint (.bind Local.pop_back_footprint fun _ =>
      .when (.bind Local.pop_back_footprint fun _ => Local.push_footprint _) rfl)
  case MSIZE | PC =>
    exact plain_footprint (.bind (.gets fun _ _ => rfl) fun _ => Local.push_footprint _)
  case RETURNDATASIZE =>
    exact plain_footprint (.bind Local.return_bytes_footprint fun _ => Local.push_footprint _)
  case PUSH =>
    exact plain_footprint (.bind (Local.read_footprint _ _) fun _ => Local.push_footprint _)
  case DUP i =>
    exact plain_footprint (.bind (Local.peek_footprint (Nat.lt_succ_self _)) fun _ =>
      Local.push_footprint _)
  case SWAP i => exact plain_footprint (Local.swap_with_top_footprint (Nat.lt_succ_self _))
  case POP => exact plain_footprint (.bind Local.pop_back_footprint fun _ => .pure rfl)
  case CALLDATACOPY | CODECOPY => exact plain_footprint (Local.copy_data_to_memory_footprint _)
  case RETURNDATACOPY =>
    exact plain_footprint (.bind (Local.peek_footprint (by decide)) fun _ =>
      .bind (Local.peek_footprint (by decide)) fun _ => .bind Local.return_bytes_footprint fun _ =>
      .ite (fun _ => .fail _ (le_refl _)) fun _ => Local.copy_data_to_memory_footprint _)
  case EXTCODECOPY =>
    exact .bind pop_footprint fun _ => .bind (onHost_footprint _ (by decide)) fun _ =>
      .bind (onLocal_footprint (Local.copy_data_to_memory_footprint _)) fun _ => .pure rfl
  case MLOAD =>
    exact plain_footprint (.bind Local.pop_back_footprint fun _ =>
      .bind (.gets fun _ _ => rfl) fun _ =>
      .bind (.expect _ _) fun _ => Local.push_footprint _)
  case MSTORE | MSTORE8 =>
    exact plain_footprint (.bind Local.pop_back_footprint fun _ =>
      .bind Local.pop_back_footprint fun _ =>
      .bind (.gets fun _ _ => rfl) fun _ => Local.set_mem_footprint _)
  case SHA3 =>
    exact plain_footprint (.bind Local.pop_back_footprint fun _ =>
      .bind Local.pop_back_footprint fun _ =>
      .bind (Local.read_slice_footprint _ _) fun _ => Local.push_footprint _)
  case SLOAD | BLOCKHASH =>
    exact .bind pop_footprint fun _ => .bind (onHost_footprint _ (by decide)) fun _ =>
      .bind (onLocal_footprint (Local.push_footprint _)) fun _ => .pure rfl
  case SSTORE =>
    exact .bind pop_footprint fun _ => .bind pop_footprint fun _ =>
      .bind (onHost_footprint _ (by decide)) fun _ => .pure rfl
  case SELFBALANCE =>
    exact .bind (onHost_footprint _ (by decide)) fun _ =>
      .bind (onLocal_footprint (Local.push_footprint _)) fun _ => .pure rfl
  case LOG i =>
    exact .bind pop_footprint fun _ => .bind pop_footprint fun _ =>
      .bind (onLocal_footprint (Local.pop_n_footprint i.val (Nat.zero_add _).symm)) fun _ =>
      .bind (onLocal_footprint (Local.read_slice_footprint _ _)) fun _ =>
      .bind (onHost_footprint _ (Nat.zero_le _)) fun _ => .pure rfl
  case SUICIDE =>
    exact .bind pop_footprint fun _ => .bind (onHost_footprint _ (by decide)) fun _ => .pure rfl
  case RETURN | REVERT => exact .bind pop_footprint fun _ => .bind pop_footprint fun _ => .pure rfl
  case STOP | JUMPDEST => exact .pure rfl
  case JUMP => exact .bind pop_footprint fun _ => .pure rfl
  case JUMPI =>
    refine .bind pop_footprint fun _ => .bind pop_footprint fun condition => .pure ?_
    split <;> rfl
  case BEGINSUB => exact .fail _ (le_refl _)
  case JUMPSUB =>
    exact .bind (.gets fun _ _ => rfl) fun _ => .ite (fun _ => .fail _ (le_refl _)) fun _ =>
      .bind pop_footprint fun _ => .pure rfl
  case RETURNSUB =>
    refine .bind (.gets fun _ _ => rfl) fun return_stack => ?_
    cases return_stack with
    | nil => exact .fail _ (le_refl _)
    | cons pos rest =>
      exact .bind (onLocal_footprint (.update_apart (fun _ => rfl) fun _ _ => rfl))
        fun _ => .pure rfl

/-! ## Any stack that holds the operands -/

/-- The local part with the operands of the instruction alone on its stack. -/
def operands (instruction : Instruction) (l : Local) : Local :=
  { l with stack := l.stack.take instruction.info.args }

variable {code : Bytes} {gas : Cost c} {instruction : Instruction} {provided : Option (Cost c)}
  {l l' : Local} {h h' : Host State}

omit [Keccak] in
theorem operands_size (hargs : instruction.info.args ≤ l.stack.length) :
    Local.stackedBeside.size (operands instruction l, h) = instruction.info.args :=
  List.length_take_of_le hargs

omit [Keccak] in
theorem operands_below (instruction : Instruction) (l : Local) (h : Host State) :
    Local.stackedBeside.below (l.stack.drop instruction.info.args) (operands instruction l, h) =
      (l, h) := by
  have hstack : l.stack.take instruction.info.args ++
      l.stack.drop instruction.info.args = l.stack :=
    List.take_append_drop _ _
  exact congrArg (fun stack => (({ l with stack := stack } : Local), h)) hstack

/-- An instruction runs on its operands alone as it does on the whole stack. -/
theorem exec_instruction_operands (hargs : instruction.info.args ≤ l.stack.length) :
    (exec_instruction g ctx params code gas instruction provided).run (l, h) =
      Local.stackedBeside.under (l.stack.drop instruction.info.args)
        ((exec_instruction g ctx params code gas instruction provided).run
          (operands instruction l, h)) := by
  have hfoot : Footprint Local.stackedBeside _ _ _
      (exec_instruction g ctx params code gas instruction provided) := exec_instruction_footprint ..
  have hframed := hfoot.framed (operands instruction l, h) (l.stack.drop instruction.info.args)
    (operands_size hargs)
  rwa [operands_below] at hframed

/-- The items of the stack after an instruction: those below the operands, and above them as many as
    the table says. -/
theorem exec_instruction_stack {r : Except VmError (InstructionResult c)}
    (hrun : (exec_instruction g ctx params code gas instruction provided).run (l, h) =
      .ok (r, (l', h'))) (hargs : instruction.info.args ≤ l.stack.length) :
    ∃ out, l'.stack = out ++ l.stack.drop instruction.info.args ∧ match r with
      | .ok result => out.length = leaves instruction result
      | .error _ => out.length ≤ instruction.info.args := by
  have hfoot : Footprint Local.stackedBeside _ _ _
      (exec_instruction g ctx params code gas instruction provided) := exec_instruction_footprint ..
  have hleaves := hfoot.leaves (operands instruction l, h) (operands_size hargs)
  rw [exec_instruction_operands hargs] at hrun
  rcases htop : (exec_instruction g ctx params code gas instruction provided).run
    (operands instruction l, h) with p | ⟨r', l₁, h₁⟩
  · rw [htop] at hrun
    cases hrun
  · rw [htop] at hrun
    cases hrun
    refine ⟨l₁.stack, rfl, ?_⟩
    have hsize := wp_of_run hleaves htop
    rcases r with e | result
    · exact hsize
    · exact hsize

/-- Only instructions that leave an item can owe it. -/
theorem exec_instruction_owes :
    Yields (fun result : InstructionResult c => result.owed ≤ instruction.info.ret)
      (exec_instruction g ctx params code gas instruction provided) := by
  have howed : ∀ result : InstructionResult c, result.owed ≤ 1 := by
    intro result
    cases result <;> simp [InstructionResult.owed]
  by_cases hcall : is_call instruction
  · have hret : instruction.info.ret = 1 := by
      rcases hcall with rfl | rfl | rfl | rfl <;> rfl
    exact (Yields.any _).mono fun result _ => (howed result).trans_eq hret.symm
  by_cases hcreate : instruction ≠ .CREATE ∧ instruction ≠ .CREATE2
  · refine (exec_other_traps hcall hcreate code gas provided).mono ?_
    intro result htrap
    cases result with
    | Trap trap => exact absurd rfl (htrap trap)
    | _ => exact Nat.zero_le _
  · have hret : instruction.info.ret = 1 := by
      rw [not_and_or, not_not, not_not] at hcreate
      rcases hcreate with rfl | rfl <;> rfl
    exact (Yields.any _).mono fun result _ => (howed result).trans_eq hret.symm

/-- With the item that is owed, there are as many as the table says. -/
theorem exec_instruction_leaves {result : InstructionResult c}
    (hrun : (exec_instruction g ctx params code gas instruction provided).run (l, h) =
      .ok (.ok result, (l', h'))) (hargs : instruction.info.args ≤ l.stack.length) :
    ∃ out, l'.stack = out ++ l.stack.drop instruction.info.args ∧
      out.length + result.owed = instruction.info.ret := by
  obtain ⟨out, hout, hlen⟩ := exec_instruction_stack hrun hargs
  have howed := exec_instruction_owes.of_run hrun
  have hleaves : out.length = instruction.info.ret - result.owed := hlen
  exact ⟨out, hout, by omega⟩

/-- So the size of the stack follows the table. -/
theorem exec_instruction_size {result : InstructionResult c}
    (hrun : (exec_instruction g ctx params code gas instruction provided).run (l, h) =
      .ok (.ok result, (l', h'))) (hargs : instruction.info.args ≤ l.stack.length) :
    l'.stack.length + result.owed = l.stack.length - instruction.info.args +
      instruction.info.ret := by
  obtain ⟨out, hout, hlen⟩ := exec_instruction_leaves hrun hargs
  rw [hout, List.length_append, List.length_drop]
  omega

/-- An instruction that fails does not leave more items than there were. -/
theorem exec_instruction_size_failed {e : VmError}
    (hrun : (exec_instruction g ctx params code gas instruction provided).run (l, h) =
      .ok (.error e, (l', h'))) (hargs : instruction.info.args ≤ l.stack.length) :
    l'.stack.length ≤ l.stack.length := by
  obtain ⟨out, hout, hlen⟩ := exec_instruction_stack hrun hargs
  have hle : out.length ≤ instruction.info.args := hlen
  rw [hout, List.length_append, List.length_drop]
  omega

/-! ## Interpreters that are reached -/

/-- The stack is within its limit. -/
def Stays (g : Globals) (i : Interpreter c) : Prop :=
  i.stack.length ≤ g.spec.stack_limit ∧ i.Resumable

/-- There is room for an item that is owed. -/
def Waits (g : Globals) (i : Interpreter c) : Prop := i.stack.length + 1 ≤ g.spec.stack_limit

/-- An instruction leaves the stack within its limit. -/
theorem fetch_stays {i : Interpreter c} {r : Except VmError (InstructionResult c)}
    {p : Interpreter c × Host State} (hi : Stays g i) (hfetch : Fetch g ctx i h r p) :
    Stays g p.1 ∧ ∀ trap, r = .ok (.Trap trap) → Waits g p.1 := by
  cases hfetch with
  | refused hnone => exact ⟨hi, fun _ hr => (nomatch hr)⟩
  | executed hpays hargs hroom hm hreq hexec hgas =>
    rcases r with e | result
    · have hsize := exec_instruction_size_failed hexec hargs
      exact ⟨⟨hsize.trans hi.1, hi.2⟩, fun _ hr => (nomatch hr)⟩
    · have hsize := (exec_instruction_size hexec hargs).trans_le hroom
      refine ⟨⟨(Nat.le_add_right _ _).trans hsize, hi.2⟩, ?_⟩
      rintro trap ⟨⟩
      exact hsize

omit [Keccak] in
/-- Moving on leaves the stack as it is. -/
theorem movesOn_stays {result : InstructionResult c} {p q : Interpreter c × Host State}
    {r : Except VmError InterpreterResult} (hmoves : MovesOn result p r q) (hp : Stays g p.1)
    (htrap : ∀ trap, result = .Trap trap → Waits g p.1) :
    Stays g q.1 ∧ ∀ trap, r = .ok (.Trap trap) → Waits g q.1 := by
  refine ⟨⟨?_, ?_⟩, fun trap hr => ?_⟩
  · rw [hmoves.stack]
    exact hp.1
  · rw [Resumable, hmoves.resume]
    exact hp.2
  · rw [Waits, hmoves.stack]
    exact htrap trap (hmoves.traps trap hr)

theorem stepped_stays {i : Interpreter c} {r : Except VmError InterpreterResult}
    {q : Interpreter c × Host State} (hi : Stays g i) (hstep : Stepped g ctx i h r q) :
    Stays g q.1 ∧ ∀ trap, r = .ok (.Trap trap) → Waits g q.1 := by
  cases hstep with
  | idle hdone hr hnone => exact ⟨hi, fun trap h => absurd h (hr trap)⟩
  | failed hfetch => exact ⟨(fetch_stays hi hfetch).1, fun _ hr => (nomatch hr)⟩
  | executed hfetch hmoves hdone =>
    obtain ⟨hp, htrap⟩ := fetch_stays hi hfetch
    exact movesOn_stays hmoves hp fun trap hr => htrap trap (congrArg Except.ok hr)
  | resumed hresume hrunning hnone hmoves hdone =>
    refine movesOn_stays hmoves ⟨hi.1, .inl rfl⟩ ?_
    -- A trap is not among the results that are waited for.
    rintro trap rfl
    rcases hi.2 with hnone | hok | ⟨gas, hgas⟩
    · cases hnone.symm.trans hresume
    · cases hok.symm.trans hresume
    · cases hgas.symm.trans hresume

theorem visits_stays {i₀ i : Interpreter c} (h₀ : Stays g i₀) (hvisits : Visits g ctx i₀ i) :
    Stays g i := by
  refine hvisits.induct (W := Waits g) h₀ (fun _ _ _ _ => stepped_stays) ?_
  intro i i' hi htook hresumed
  obtain ⟨item, hitem⟩ := htook.stack
  refine ⟨?_, hresumed.resumable⟩
  rw [hitem]
  exact hi

omit [Keccak] in
theorem new_stays (params : ActionParams) (code : Bytes) :
    Stays g (new params code : Interpreter c) :=
  ⟨Nat.zero_le _, .inl rfl⟩

/-! ## Instructions that complete -/

/-- An instruction that an interpreter executes completes: at once, or when the interpreter is
    resumed, with whatever result of what it has trapped into. -/
inductive Completes (g : Globals) (ctx : FrameContext) (instruction : Instruction)
    (i : Interpreter c) :
    Interpreter c → Prop
  | here {gas : Cost c} {provided : Option (Cost c)} {h h' : Host State} {l' : Local}
      {result : InstructionResult c}
      (hexec : (exec_instruction g ctx i.params i.code gas instruction provided).run
        (i.toLocal, h) =
        .ok (.ok result, (l', h'))) (hresult : ∀ trap, result ≠ .Trap trap) :
      Completes g ctx instruction i { i with toLocal := l' }
  | called {gas : Cost c} {provided : Option (Cost c)} {h h' : Host State} {l' : Local}
      {params : ActionParams} {result : MessageCallResult} {i' : Interpreter c}
      (hexec : (exec_instruction g ctx i.params i.code gas instruction provided).run
        (i.toLocal, h) =
        .ok (.ok (.Trap (.Call params)), (l', h')))
      (hresume : ({ i with toLocal := l' } : Interpreter c).resume_call result = .ok i') :
      Completes g ctx instruction i i'
  | created {gas : Cost c} {provided : Option (Cost c)} {h h' : Host State} {l' : Local}
      {params : ActionParams} {result : ContractCreateResult} {i' : Interpreter c}
      (hexec : (exec_instruction g ctx i.params i.code gas instruction provided).run
        (i.toLocal, h) =
        .ok (.ok (.Trap (.Create params)), (l', h')))
      (hresume : ({ i with toLocal := l' } : Interpreter c).resume_create result = .ok i') :
      Completes g ctx instruction i i'

/-- The item that is owed comes with the resumption. -/
theorem resumed_stack {i i' : Interpreter c} {trap : TrapKind}
    (hexec : (exec_instruction g ctx i.params i.code gas instruction provided).run (i.toLocal, h) =
      .ok (.ok (.Trap trap), (l', h'))) (htook : TookUp { i with toLocal := l' } i')
    (hargs : instruction.info.args ≤ i.stack.length) :
    ∃ out, i'.stack = out ++ i.stack.drop instruction.info.args ∧
      out.length = instruction.info.ret := by
  obtain ⟨out, hout, hlen⟩ := exec_instruction_leaves hexec hargs
  obtain ⟨item, hitem⟩ := htook.stack
  have hstack : i'.stack = item :: l'.stack := hitem
  refine ⟨item :: out, ?_, hlen⟩
  rw [hstack, hout]
  rfl

theorem completes_stack {i i' : Interpreter c} (hcompletes : Completes g ctx instruction i i')
    (hargs : instruction.info.args ≤ i.stack.length) :
    ∃ out, i'.stack = out ++ i.stack.drop instruction.info.args ∧
      out.length = instruction.info.ret := by
  cases hcompletes with
  | here hexec hresult =>
    obtain ⟨out, hout, hlen⟩ := exec_instruction_leaves hexec hargs
    refine ⟨out, hout, ?_⟩
    rename_i result
    cases result with
    | Trap trap => exact absurd rfl (hresult trap)
    | _ => exact hlen
  | called hexec hresume => exact resumed_stack hexec (resume_call_tookUp hresume) hargs
  | created hexec hresume => exact resumed_stack hexec (resume_create_tookUp hresume) hargs

omit [Keccak] in
/-- The instructions that are accepted have their operands. -/
theorem args_le_of_accepted {spec : Spec} {info : InstructionInfo}
    {p q : Interpreter c × Host State}
    {size : ℕ} (h : (verify_instruction spec size info).run p = .ok (.ok (), q)) :
    info.args ≤ size := by
  unfold verify_instruction at h
  split at h
  · cases h
  · exact not_lt.mp ‹_›

/-- The table of the instructions agrees with their code. When an instruction that is accepted
    completes, the size of the stack has changed by what the table says and the items below the
    operands are where they were. Neither its code nor the gasometer reaches below the operands:
    both do on the operands alone what they do on the whole stack. And the stack never grows over
    its limit. -/
theorem table_agrees_with_code (g : Globals) (ctx : FrameContext) (instruction : Instruction) :
    (∀ (i : Interpreter c) (h : Host State),
      (verify_instruction g.spec i.stack.length instruction.info).run (i, h) =
        .ok (.ok (), (i, h)) →
      (∀ i', Completes g ctx instruction i i' →
        i'.stack.length + instruction.info.args = i.stack.length + instruction.info.ret ∧
        ∃ out, i'.stack = out ++ i.stack.drop instruction.info.args ∧
          out.length = instruction.info.ret) ∧
      (∀ (m : Gasometer c) (current_mem_size : ℕ),
        m.requirements g ctx instruction (i.stack.take instruction.info.args) current_mem_size =
          m.requirements g ctx instruction i.stack current_mem_size) ∧
      ∀ (gas : Cost c) (provided : Option (Cost c)),
        (exec_instruction g ctx i.params i.code gas instruction provided).run (i.toLocal, h) =
          Local.stackedBeside.under (i.stack.drop instruction.info.args)
            ((exec_instruction g ctx i.params i.code gas instruction provided).run
              (operands instruction i.toLocal, h))) ∧
    ∀ (params : ActionParams) (code : Bytes) (i : Interpreter c),
      Visits g ctx (new params code) i → i.stack.length ≤ g.spec.stack_limit := by
  refine ⟨fun i h haccepted => ?_, fun params code i hvisits => ?_⟩
  · have hargs := args_le_of_accepted haccepted
    refine ⟨fun i' hcompletes => ?_, fun m size => ?_, fun gas provided => ?_⟩
    · obtain ⟨out, hout, hlen⟩ := completes_stack hcompletes hargs
      refine ⟨?_, out, hout, hlen⟩
      rw [hout, List.length_append, List.length_drop]
      omega
    · exact m.requirements_take instruction i.stack size
    · exact exec_instruction_operands hargs
  · exact (visits_stays (new_stays params code) hvisits).1

end

section
attribute [local instance] keccakOfEmpty

/-- A static call of an account without code, with an item below its operands. -/
def staticCalling : Interpreter .usize :=
  { (new subroutineCall [0xfa] : Interpreter .usize) with stack := [10, 9, 0, 0, 0, 0, 5] }

/-- The call fails in its frame: a zero stands for its six operands, above the item below them. -/
theorem failed_call_leaves_zero :
    ∃ i', Completes bareMachine subroutineContext .STATICCALL staticCalling i' ∧
      i'.stack.length = 2 ∧ ∃ out, i'.stack = out ++ [5] ∧ out.length = 1 := by
  let l' : Local := { staticCalling.toLocal with stack := [5], resume_output_range := some (0, 0) }
  have htraps : ∃ params h', (exec_instruction bareMachine subroutineContext staticCalling.params
      [0xfa] (100 : Cost .usize) .STATICCALL (some 10)).run (staticCalling.toLocal, emptyHost) =
        .ok (.ok (.Trap (.Call params)), (l', h')) := ⟨_, _, rfl⟩
  have hresumes : ∃ i', ({ staticCalling with toLocal := l' } : Interpreter .usize).resume_call
      (.Failed .OutOfGas) = .ok i' := ⟨_, rfl⟩
  obtain ⟨params, h', hexec⟩ := htraps
  obtain ⟨i', hresume⟩ := hresumes
  have hcompletes : Completes bareMachine subroutineContext .STATICCALL staticCalling i' :=
    .called hexec hresume
  have hstack := ((table_agrees_with_code bareMachine subroutineContext .STATICCALL).1 staticCalling
    emptyHost rfl).1 i' hcompletes
  obtain ⟨hsize, out, hout, hlen⟩ := hstack
  exact ⟨i', hcompletes, Nat.add_right_cancel hsize, out, hout, hlen⟩

end

end Interpreter

end CfxEvm
