import CfxEvm.Evm.Interpreter
import CfxEvm.Evm.Proofs.MemoryProofs

/-!
# Proofs: what the instructions leave alone

The instructions write the stack, the return data, the range for an output, and to the memory that
there is. What does not depend on these, and only on the size of the memory, all instructions leave
alone but those that set the position.
-/

open Lib Lib.Prog

namespace CfxEvm

variable {c : CostType}

namespace Interpreter

/-- The relation does not look at what instructions write. -/
class Spares (R : Local → Local → Prop) : Prop extends IsPreorder Local R where
  stack : ∀ l stack, R l { l with stack := stack }
  mem : ∀ l mem, mem.length = l.mem.length → R l { l with mem := mem }
  return_data : ∀ l data, R l { l with return_data := data }
  range : ∀ l range, R l { l with resume_output_range := range }

/-- The relation beside a host. -/
def Beside (R : Local → Local → Prop) (p q : Local × Host State) : Prop := R p.1 q.1

variable {R : Local → Local → Prop} [Spares R]

instance : IsPreorder (Local × Host State) (Beside R) where
  refl p := refl_of R p.1
  trans _ _ _ h h' := trans_of R h h'

theorem pop_back_spares : Keeps R Local.pop_back := by
  refine .bind (.gets _) fun stack => ?_
  cases stack with
  | nil => exact .abort _
  | cons top rest => exact .bind (.update fun _ => Spares.stack _ _) fun _ => .pure _

theorem push_spares (elem : U256) : Keeps R (Local.push elem) := .update fun _ => Spares.stack _ _

theorem peek_spares (n : Nat) : Keeps R (Local.peek n) := .bind (.gets _) fun _ => .expect _ _

theorem swap_with_top_spares (n : Nat) : Keeps R (Local.swap_with_top n) :=
  .bind (peek_spares _) fun _ => .bind (peek_spares _) fun _ => .update fun _ => Spares.stack _ _

theorem pop_n_spares (n : Nat) : Keeps R (Local.pop_n n) := by
  induction n with
  | zero => exact .pure _
  | succ n ih => exact .bind pop_back_spares fun _ => .bind ih fun _ => .pure _

/-- Writing to the memory that there is. -/
theorem store_spares {f : Bytes → Option Bytes}
    (hf : ∀ mem mem', f mem = some mem' → mem'.length = mem.length) :
    Keeps R (Prog.gets Local.mem >>= fun mem => Local.set_mem (f mem)) := by
  intro l
  refine wp_bind.mpr (wp_gets.mpr (wp_bind.mpr (wp_expect (fun _ => trivial) fun mem hmem => ?_)))
  exact Spares.mem l mem (hf l.mem mem hmem)

theorem read_slice_spares (offset size : U256) : Keeps R (Local.read_slice offset size) :=
  .bind (.gets _) fun _ => .expect _ _

theorem return_bytes_spares : Keeps R Local.return_bytes :=
  .bind (.gets _) fun _ => .expect _ _

theorem copy_data_to_memory_spares (source : Bytes) :
    Keeps R (Local.copy_data_to_memory source) := by
  have hcopy : ∀ (dest_offset source_offset : U256) (output_end : Nat), Keeps R
      (Prog.when (source_offset.toNat < source.length) do
        let bytes ← Prog.expect .memory_out_of_range
          (Memory.slice source source_offset.low_u64 (output_end - source_offset.low_u64))
        Local.set_mem (Memory.write_slice (← Prog.gets Local.mem) dest_offset bytes)) :=
    fun _ _ _ => .when fun _ => .bind (.expect _ _) fun _ =>
      store_spares fun _ _ => Memory.length_of_write_slice
  have hzero : ∀ {off len : Nat} {k : Unit → LocalM Unit}, (∀ u, Keeps R (k u)) →
      Keeps R (Prog.gets Local.mem >>= fun mem =>
        Local.set_mem (Memory.overwrite mem off (List.replicate len 0)) >>= k) := by
    intro off len k hk l
    refine wp_bind.mpr (wp_gets.mpr (wp_bind.mpr (wp_bind.mpr ?_)))
    refine wp_expect (fun _ => trivial) fun mem hmem => wp_update.mpr ?_
    exact wp_post (hk () _) fun _ _ h =>
      trans_of R (Spares.mem l mem (Memory.length_of_overwrite hmem)) h
  refine .bind pop_back_spares fun _ => .bind pop_back_spares fun _ =>
    .bind pop_back_spares fun _ =>
    .ite (fun _ => .ite (fun _ => ?_) fun _ => ?_) fun _ => hcopy _ _ _
  · exact .bind (.pure _) fun _ => .bind (.gets _) fun _ => .bind (.expect _ _) fun _ =>
      hzero fun _ => .bind (.pure _) fun _ => hcopy _ _ _
  · exact .bind (.expect _ _) fun _ => .bind (.expect _ _) fun _ => .bind (.expect _ _) fun _ =>
      .bind (.expect _ _) fun _ => .bind (.pure _) fun _ => .bind (.gets _) fun _ =>
      .bind (.expect _ _) fun _ => hzero fun _ => .bind (.pure _) fun _ => hcopy _ _ _

omit [Spares R] in
theorem onLocal_spares {α : Type} {x : LocalM α} (h : Keeps R x) :
    Keeps (Beside R) (onLocal x) :=
  .zoom h fun _ _ h => h

theorem onHost_spares {α : Type} (x : HostM α) : Keeps (Beside R) (onHost x) :=
  .zoom (R := fun _ _ => True) (fun _ => wp_intro (fun _ _ => trivial) fun _ _ _ => trivial)
    fun p _ _ => refl_of R p.1

omit [Spares R] in
theorem update_spares (f : Local → Local) (h : ∀ l, R l (f l)) :
    Keeps (Beside R) (onLocal (Prog.update f)) :=
  onLocal_spares (.update h)

theorem plain_spares {x : LocalM Unit} (h : Keeps R x) :
    Keeps (Beside R) (plain x : ExecM (InstructionResult c)) :=
  .bind (onLocal_spares h) fun _ => .pure _

theorem binary_spares (f : U256 → U256 → U256) :
    Keeps (Beside R) (binary f : ExecM (InstructionResult c)) :=
  plain_spares (.bind pop_back_spares fun _ => .bind pop_back_spares fun _ => push_spares _)

theorem query_spares {α : Type} (read : Address → HostM α) (f : α → U256) :
    Keeps (Beside R) (query read f : ExecM (InstructionResult c)) :=
  .bind (onLocal_spares pop_back_spares) fun _ => .bind (onHost_spares _) fun _ =>
    .bind (onLocal_spares (push_spares _)) fun _ => .pure _

theorem pop_address_scheme_spares (instruction : Instruction) :
    Keeps R (pop_address_scheme instruction) :=
  .ite (fun _ => .bind pop_back_spares fun _ => .pure _) fun _ => .pure _

theorem call_value_spares (instruction : Instruction) : Keeps R (call_value instruction) :=
  .ite (fun _ => .pure _) fun _ => .ite (fun _ => .pure _) fun _ =>
    .bind pop_back_spares fun _ => .pure _

section
variable [Keccak] {g : Globals} {ctx : FrameContext} {params : InterpreterParams}

theorem exec_create_spares (instruction : Instruction) (provided : Option (Cost c)) :
    Keeps (Beside R) (exec_create g ctx params instruction provided) := by
  refine .bind (onLocal_spares pop_back_spares) fun _ =>
    .bind (onLocal_spares pop_back_spares) fun _ =>
    .bind (onLocal_spares pop_back_spares) fun _ =>
    .bind (onLocal_spares (pop_address_scheme_spares _)) fun _ => .bind (.expect _ _) fun _ =>
    .ite (fun _ => .fail _) fun _ => ?_
  refine .bind (update_spares _ fun _ => Spares.return_data _ _) fun _ =>
    .bind (onHost_spares _) fun _ => ?_
  refine .ite (fun _ => ?_) fun _ => .bind (onLocal_spares (push_spares _)) fun _ => .pure _
  exact .bind (onLocal_spares (read_slice_spares _ _)) fun _ =>
    .bind (onHost_spares _) fun _ => .pure _

theorem exec_call_spares (instruction : Instruction) (provided : Option (Cost c)) :
    Keeps (Beside R) (exec_call g ctx params instruction provided) := by
  refine .bind (.assert _ _) fun _ => .bind (onLocal_spares pop_back_spares) fun _ =>
    .bind (.expect _ _) fun _ => .bind (onLocal_spares pop_back_spares) fun _ =>
    .bind (onLocal_spares (call_value_spares _)) fun _ =>
    .bind (onLocal_spares pop_back_spares) fun _ =>
    .bind (onLocal_spares pop_back_spares) fun _ => .bind (onLocal_spares pop_back_spares) fun _ =>
    .bind (onLocal_spares pop_back_spares) fun _ => .bind (.expect _ _) fun _ =>
    .bind (onHost_spares _) fun _ => .bind (update_spares _ fun _ => Spares.return_data _ _)
      fun _ => ?_
  refine .ite (fun _ => ?_) fun _ => .bind (onLocal_spares (push_spares _)) fun _ => .pure _
  exact .bind (onLocal_spares (read_slice_spares _ _)) fun _ => .bind (onHost_spares _) fun _ =>
    .bind (update_spares _ fun _ => Spares.range _ _) fun _ => .pure _

/-- The instructions that read their position or that set it. -/
def moves : Instruction → Bool
  | .JUMP | .JUMPI | .JUMPSUB | .RETURNSUB | .BEGINSUB | .PUSH _ => true
  | _ => false

/-- The other instructions leave alone what is spared. -/
theorem exec_other_spares {instruction : Instruction} (hmoves : moves instruction = false)
    (code : Bytes) (gas : Cost c) (provided : Option (Cost c)) :
    Keeps (Beside R)
      (exec_instruction g ctx params code gas instruction provided) := by
  cases instruction
  case JUMP | JUMPI | JUMPSUB | RETURNSUB | BEGINSUB | PUSH => cases hmoves
  case CREATE => exact exec_create_spares _ _
  case CREATE2 => exact exec_create_spares _ _
  case CALL => exact exec_call_spares _ _
  case CALLCODE => exact exec_call_spares _ _
  case DELEGATECALL => exact exec_call_spares _ _
  case STATICCALL => exact exec_call_spares _ _
  case JUMPDEST => exact .pure _
  case STOP => exact .pure _
  case BALANCE => exact query_spares _ _
  case EXTCODESIZE => exact query_spares _ _
  case EXTCODEHASH => exact query_spares _ _
  case SIGNEXTEND =>
    exact plain_spares (.bind pop_back_spares fun _ => .when fun _ =>
      .bind pop_back_spares fun _ => push_spares _)
  case RETURNDATACOPY =>
    exact plain_spares (.bind (peek_spares _) fun _ => .bind (peek_spares _) fun _ =>
      .bind return_bytes_spares fun _ => .ite (fun _ => .fail _) fun _ =>
      copy_data_to_memory_spares _)
  case ADD | MUL | SUB | DIV | MOD | SDIV | SMOD | EXP | LT | SLT | GT | SGT | EQ | AND | OR | XOR
      | BYTE | SHL | SHR | SAR =>
    exact binary_spares _
  case GAS | ADDRESS | ORIGIN | CALLER | CALLVALUE | CALLDATASIZE | CODESIZE | GASPRICE | COINBASE
      | TIMESTAMP | NUMBER | DIFFICULTY | GASLIMIT | CHAINID =>
    exact plain_spares (push_spares _)
  case NOT | ISZERO | CALLDATALOAD =>
    exact plain_spares (.bind pop_back_spares fun _ => push_spares _)
  case ADDMOD | MULMOD =>
    exact plain_spares (.bind pop_back_spares fun _ => .bind pop_back_spares fun _ =>
      .bind pop_back_spares fun _ => .bind (.expect _ _) fun _ => push_spares _)
  case MSIZE | PC => exact plain_spares (.bind (.gets _) fun _ => push_spares _)
  case RETURNDATASIZE => exact plain_spares (.bind return_bytes_spares fun _ => push_spares _)
  case DUP => exact plain_spares (.bind (peek_spares _) fun _ => push_spares _)
  case SWAP => exact plain_spares (swap_with_top_spares _)
  case POP => exact plain_spares (.bind pop_back_spares fun _ => .pure _)
  case CALLDATACOPY | CODECOPY => exact plain_spares (copy_data_to_memory_spares _)
  case MLOAD =>
    exact plain_spares (.bind pop_back_spares fun _ => .bind (.gets _) fun _ =>
      .bind (.expect _ _) fun _ => push_spares _)
  case MSTORE | MSTORE8 =>
    exact plain_spares (.bind pop_back_spares fun _ => .bind pop_back_spares fun _ =>
      store_spares fun _ _ => Memory.length_of_overwrite)
  case SHA3 =>
    exact plain_spares (.bind pop_back_spares fun _ => .bind pop_back_spares fun _ =>
      .bind (read_slice_spares _ _) fun _ => push_spares _)
  case RETURN | REVERT =>
    exact .bind (onLocal_spares pop_back_spares) fun _ =>
      .bind (onLocal_spares pop_back_spares) fun _ =>
      .pure _
  case SUICIDE =>
    exact .bind (onLocal_spares pop_back_spares) fun _ => .bind (onHost_spares _) fun _ => .pure _
  case LOG =>
    exact .bind (onLocal_spares pop_back_spares) fun _ =>
      .bind (onLocal_spares pop_back_spares) fun _ =>
      .bind (onLocal_spares (pop_n_spares _)) fun _ =>
      .bind (onLocal_spares (read_slice_spares _ _))
      fun _ => .bind (onHost_spares _) fun _ => .pure _
  case SLOAD | BLOCKHASH =>
    exact .bind (onLocal_spares pop_back_spares) fun _ => .bind (onHost_spares _) fun _ =>
      .bind (onLocal_spares (push_spares _)) fun _ => .pure _
  case SSTORE =>
    exact .bind (onLocal_spares pop_back_spares) fun _ =>
      .bind (onLocal_spares pop_back_spares) fun _ =>
      .bind (onHost_spares _) fun _ => .pure _
  case EXTCODECOPY =>
    exact .bind (onLocal_spares pop_back_spares) fun _ => .bind (onHost_spares _) fun _ =>
      .bind (onLocal_spares (copy_data_to_memory_spares _)) fun _ => .pure _
  case SELFBALANCE =>
    exact .bind (onHost_spares _) fun _ => .bind (onLocal_spares (push_spares _)) fun _ => .pure _

end

end Interpreter

end CfxEvm
