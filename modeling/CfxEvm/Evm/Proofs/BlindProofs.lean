import CfxEvm.Evm.Proofs.SweepProofs
import CfxEvm.Evm.Interpreter
import CfxEvm.Lib.Alike

/-!
# Proofs: what an interpreter sees of its host

The interpreter sees its host only through the functions of the context and through the cache of
jump destinations. So it does the same on two hosts that those do not tell apart.
-/

open Lib Lib.Prog

namespace CfxEvm

variable [Keccak]

/-- No function of the context sees which of two related hosts it is run from. -/
structure HostBlind (g : Globals) (ctx : FrameContext) (E : Panic → Prop)
    (rel : Host State → Host State → Prop) : Prop where
  storage_at : ∀ key, Blind E rel (Context.storage_at ctx key)
  set_storage : ∀ key value, Blind E rel (Context.set_storage ctx key value)
  «exists» : ∀ a, Blind E rel (Context.exists a)
  exists_and_not_null : ∀ a, Blind E rel (Context.exists_and_not_null a)
  balance : ∀ a, Blind E rel (Context.balance a)
  create : ∀ gas value code scheme, Blind E rel (Context.create g ctx gas value code scheme)
  extcode : ∀ a, Blind E rel (Context.extcode g a)
  extcodehash : ∀ a, Blind E rel (Context.extcodehash g a)
  extcodesize : ∀ a, Blind E rel (Context.extcodesize g a)
  log : ∀ topics data, Blind E rel (Context.log ctx topics data)
  suicide : ∀ a nonce, Blind E rel (Context.suicide g ctx a nonce)

/-- Neither does a lookup of the destinations of a code. -/
structure ContextBlind (g : Globals) (ctx : FrameContext) (E : Panic → Prop)
    (rel : Host State → Host State → Prop) (code_hash : Option H256) (code : Bytes) : Prop
    extends HostBlind g ctx E rel where
  destinations : ∀ h h', rel h h' →
    (h.shared_cache.jump_and_sub_destinations code_hash code).1 =
      (h'.shared_cache.jump_and_sub_destinations code_hash code).1 ∧
    rel { h with shared_cache := (h.shared_cache.jump_and_sub_destinations code_hash code).2 }
      { h' with shared_cache := (h'.shared_cache.jump_and_sub_destinations code_hash code).2 }

section
variable {g : Globals} {ctx : FrameContext} {E : Panic → Prop}
  {rel : Host State → Host State → Prop}

theorem HostBlind.call (h : HostBlind g ctx E rel) (gas : U256) (sender receiver : Address)
    (value : Option U256) (data : Bytes) (code_address : Address) (call_type : CallType) :
    Blind E rel (Context.call g ctx gas sender receiver value data code_address call_type) :=
  .seq (h.extcode _) fun _ => .seq (h.extcodehash _) fun _ => .pure rfl

omit [Keccak] in
theorem blockhash_blind (number : U256) : Blind E rel (Context.blockhash g number) :=
  .seq (.expect _ _) fun _ => .pure rfl

/-! ## Prices -/

namespace Gasometer

variable {c : CostType}

theorem is_new_account_blind (h : HostBlind g ctx E rel) (is_value_transfer : Bool) (a : Address) :
    Blind E rel (is_new_account g is_value_transfer a) := by
  unfold is_new_account
  refine .ite (fun _ => ?_) fun _ => .seq (h.exists a) fun _ => .pure rfl
  exact .ite (fun _ => .seq (h.exists_and_not_null a) fun _ => .pure rfl) fun _ => .pure rfl

theorem calls_new_account_blind (h : HostBlind g ctx E rel) (instruction : Instruction)
    (is_value_transfer : Bool) (a : Address) :
    Blind E rel (calls_new_account g instruction is_value_transfer a) :=
  .ite (fun _ => is_new_account_blind h _ _) fun _ => .pure rfl

section
omit [Keccak]

theorem add_if_blind (condition : Bool) (gas : Cost c) (amount : Nat) :
    Blind E rel (add_if condition gas amount) :=
  .ite (fun _ => .ofExcept _) fun _ => .pure rfl

/-- A part of the memory that the stack gives. -/
theorem mem_needed_blind (stack : List U256) (i j : Nat) {α : Type} {f : Cost c → HostM α}
    (hf : ∀ mem, Blind E rel (f mem)) :
    Blind E rel (peek stack i >>= fun offset => peek stack j >>= fun size =>
      Prog.ofExcept (mem_needed offset size) >>= f) :=
  .seq (.expect _ _) fun _ => .seq (.expect _ _) fun _ => .seq (.ofExcept _) hf

theorem mem_needed_const_blind (stack : List U256) (add : Nat) {α : Type} {f : Cost c → HostM α}
    (hf : ∀ mem, Blind E rel (f mem)) :
    Blind E rel (peek stack 0 >>= fun offset =>
      Prog.ofExcept (mem_needed_const offset add) >>= f) :=
  .seq (.expect _ _) fun _ => .seq (.ofExcept _) hf

end

theorem request_blind (h : HostBlind g ctx E rel) (instruction : Instruction) (stack : List U256) :
    Blind E rel (request g ctx instruction stack : HostM (Request c)) := by
  unfold request
  cases instruction
  case SSTORE =>
    exact .seq (.expect _ _) fun _ => .seq (.expect _ _) fun _ =>
      .seq (h.storage_at _) fun _ => .pure rfl
  case SUICIDE =>
    exact .seq (h.balance _) fun _ => .seq (.expect _ _) fun _ =>
      .seq (is_new_account_blind h _ _) fun _ =>
      .seq (add_if_blind _ _ _) fun _ => .pure rfl
  case MSTORE | MLOAD | MSTORE8 => exact mem_needed_const_blind _ _ fun _ => .pure rfl
  case RETURN | REVERT => exact mem_needed_blind _ _ _ fun _ => .pure rfl
  case SHA3 =>
    exact .seq (.expect _ _) fun _ => .seq (.ofExcept _) fun _ => .seq (.ofExcept _) fun _ =>
      .seq (.ofExcept _) fun _ => .seq (.ofExcept _) fun _ =>
        mem_needed_blind _ _ _ fun _ => .pure rfl
  case CALLDATACOPY | CODECOPY | RETURNDATACOPY | EXTCODECOPY =>
    exact mem_needed_blind _ _ _ fun _ => .seq (.expect _ _) fun _ =>
      .seq (.ofExcept _) fun _ => .pure rfl
  case LOG =>
    exact .seq (.expect _ _) fun _ => .seq (.ofExcept _) fun _ => .seq (.ofExcept _) fun _ =>
      .seq (.ofExcept _) fun _ => mem_needed_blind _ _ _ fun _ => .pure rfl
  case CALL | CALLCODE =>
    exact mem_needed_blind _ _ _ fun _ => mem_needed_blind _ _ _ fun _ =>
      .seq (.expect _ _) fun _ => .seq (.expect _ _) fun _ =>
        .seq (calls_new_account_blind h _ _ _) fun _ => .seq (add_if_blind _ _ _) fun _ =>
          .seq (add_if_blind _ _ _) fun _ => .seq (.expect _ _) fun _ => .pure rfl
  case DELEGATECALL | STATICCALL =>
    exact mem_needed_blind _ _ _ fun _ => mem_needed_blind _ _ _ fun _ =>
      .seq (.expect _ _) fun _ => .pure rfl
  case CREATE | CREATE2 =>
    exact .seq (.expect _ _) fun _ => .seq (.expect _ _) fun _ => .seq (.ofExcept _) fun _ =>
      .seq (.ofExcept _) fun _ => .seq (.ofExcept _) fun _ => .seq (.ofExcept _) fun _ =>
        .seq (.ofExcept _) fun _ => .pure rfl
  case EXP => exact .seq (.expect _ _) fun _ => .pure rfl
  -- the other prices are fixed
  all_goals exact .pure rfl

section
omit [Keccak]

theorem growth_cost_blind (m : Gasometer c) (spec : Spec) (size : Nat) (mem_size : Cost c) :
    Blind E rel (m.growth_cost spec size mem_size) := by
  refine .ite (fun _ => .seq ?_ fun _ => .seq (.expect _ _) fun _ => .pure rfl) fun _ => .pure rfl
  exact .seq (.ofExcept _) fun _ => .seq (.assert _ _) fun _ =>
    .seq (.ofExcept _) fun _ => .ofExcept _

theorem mem_gas_cost_blind (m : Gasometer c) (spec : Spec) (size : Nat) (mem_size : Cost c) :
    Blind E rel (m.mem_gas_cost spec size mem_size) :=
  .seq (.ofExcept _) fun _ => .seq (growth_cost_blind _ _ _ _) fun _ =>
  .seq (.expect _ _) fun _ => .pure rfl

theorem with_mem_blind (m : Gasometer c) (spec : Spec) (size : Nat) (gas mem_size : Cost c) :
    Blind E rel (m.with_mem spec size gas mem_size) :=
  .seq (mem_gas_cost_blind m spec size mem_size) fun _ => .seq (.ofExcept _) fun _ => .pure rfl

end

theorem requirements_blind (h : HostBlind g ctx E rel) (m : Gasometer c) (instruction : Instruction)
    (stack : List U256) (size : Nat) :
    Blind E rel (m.requirements g ctx instruction stack size) := by
  refine .seq (request_blind h instruction stack) fun request => ?_
  cases request with
  | Gas gas => exact .pure rfl
  | GasMem gas mem_size => exact with_mem_blind _ _ _ _ _
  | GasMemProvide gas mem_size requested =>
    exact .seq (with_mem_blind _ _ _ _ _) fun _ => .seq (.ofExcept _) fun _ =>
      .seq (.ofExcept _) fun _ =>
      .pure rfl
  | GasMemCopy gas mem_size copy =>
    exact .seq (mem_gas_cost_blind _ _ _ _) fun _ => .seq (.ofExcept _) fun _ =>
      .seq (.ofExcept _) fun _ =>
      .seq (.ofExcept _) fun _ => .seq (.ofExcept _) fun _ => .pure rfl

end Gasometer

/-! ## Instructions -/

/-- The same thing runs on both hosts. -/
def Abreast {ρ : Type} (rel : Host State → Host State → Prop) (p q : ρ × Host State) : Prop :=
  p.1 = q.1 ∧ rel p.2 q.2

namespace Interpreter

variable {c : CostType}

section
omit [Keccak]

theorem onLocal_blind {α : Type} (x : LocalM α) : Blind E (Abreast rel) (onLocal x) := by
  have hx : Blind E Eq x := by
    rintro l _ rfl
    rcases x.run l with p | ⟨r, l'⟩
    · exact .panic p
    · exact .returns (.of_eq rfl) rfl
  refine Alike.zoom hx (fun _ _ hpq => hpq.1) fun p q l l' hpq hl => ⟨hl, hpq.2⟩

theorem onHost_blind {α : Type} {x : HostM α} (h : Blind E rel x) :
    Blind E (Abreast rel) (onHost x) :=
  Alike.zoom h (fun _ _ hpq => hpq.2) fun _ _ _ _ hpq hh => ⟨hpq.1, hh⟩

theorem plain_blind (x : LocalM Unit) :
    Blind E (Abreast rel) (plain x : ExecM (InstructionResult c)) :=
  .seq (onLocal_blind x) fun _ => .pure rfl

theorem query_blind {α : Type} {read : Address → HostM α} (hread : ∀ a, Blind E rel (read a))
    (f : α → U256) : Blind E (Abreast rel) (query read f : ExecM (InstructionResult c)) :=
  .seq (onLocal_blind _) fun _ => .seq (onHost_blind (hread _)) fun _ =>
  .seq (onLocal_blind _) fun _ =>
    .pure rfl

end

theorem exec_create_blind (h : HostBlind g ctx E rel) (params : InterpreterParams)
    (instruction : Instruction) (provided : Option (Cost c)) :
    Blind E (Abreast rel) (exec_create g ctx params instruction provided) := by
  refine .seq (onLocal_blind _) fun endowment => .seq (onLocal_blind _) fun init_off =>
    .seq (onLocal_blind _) fun init_size => .seq (onLocal_blind _) fun scheme =>
    .seq (.expect _ _) fun gas => .ite (fun _ => .fail _) fun _ => ?_
  refine .seq (onLocal_blind _) fun _ => .seq (onHost_blind (h.balance _)) fun balance => ?_
  refine .ite (fun _ => ?_) fun _ => .seq (onLocal_blind _) fun _ => .pure rfl
  exact .seq (onLocal_blind _) fun _ => .seq (onHost_blind (h.create _ _ _ _)) fun _ => .pure rfl

theorem call_target_blind (h : HostBlind g ctx E rel) (params : InterpreterParams)
    (instruction : Instruction) (code_address : Address) (value : Option U256) :
    Blind E rel (call_target ctx params instruction code_address value) := by
  unfold call_target
  split
  · exact .ite (fun _ => .fail _) fun _ => .seq (h.balance _) fun _ => .pure rfl
  · exact .seq (h.balance _) fun _ => .pure rfl
  · exact .pure rfl
  · exact .pure rfl

theorem exec_call_blind (h : HostBlind g ctx E rel) (params : InterpreterParams)
    (instruction : Instruction) (provided : Option (Cost c)) :
    Blind E (Abreast rel) (exec_call g ctx params instruction provided) := by
  refine .seq (.assert _ _) fun _ => .seq (onLocal_blind _) fun _ => .seq (.expect _ _) fun _ =>
    .seq (onLocal_blind _) fun _ => .seq (onLocal_blind _) fun _ => .seq (onLocal_blind _) fun _ =>
    .seq (onLocal_blind _) fun _ => .seq (onLocal_blind _) fun _ => .seq (onLocal_blind _) fun _ =>
    .seq (.expect _ _) fun _ => .seq (onHost_blind (call_target_blind h _ _ _ _)) fun _ =>
    .seq (onLocal_blind _) fun _ => ?_
  refine .ite (fun _ => ?_) fun _ => .seq (onLocal_blind _) fun _ => .pure rfl
  exact .seq (onLocal_blind _) fun _ => .seq (onHost_blind (h.call _ _ _ _ _ _ _)) fun _ =>
    .seq (onLocal_blind _) fun _ => .pure rfl

/-- Only the instructions that ask the host for something see anything of it. -/
theorem exec_instruction_blind (h : HostBlind g ctx E rel) (params : InterpreterParams)
    (code : Bytes) (gas : Cost c) (instruction : Instruction) (provided : Option (Cost c)) :
    Blind E (Abreast rel) (exec_instruction g ctx params code gas instruction provided) := by
  have hreturn_stack : Blind E (Abreast rel) (Prog.gets fun p : Local × Host State =>
    p.1.return_stack :
      ExecM (List Nat)) := .gets fun _ _ hpq => congrArg Local.return_stack hpq.1
  cases instruction
  case JUMP => exact .seq (onLocal_blind _) fun _ => .pure rfl
  case JUMPI => exact .seq (onLocal_blind _) fun _ => .seq (onLocal_blind _) fun _ => .pure rfl
  case JUMPDEST => exact .pure rfl
  case BEGINSUB => exact .fail _
  case JUMPSUB =>
    exact .seq hreturn_stack fun _ => .ite (fun _ => .fail _) fun _ =>
      .seq (onLocal_blind _) fun _ =>
      .pure rfl
  case RETURNSUB =>
    refine .seq hreturn_stack fun stack => ?_
    cases stack with
    | nil => exact .fail _
    | cons pos rest => exact .seq (onLocal_blind _) fun _ => .pure rfl
  case CREATE => exact exec_create_blind h _ _ _
  case CREATE2 => exact exec_create_blind h _ _ _
  case CALL => exact exec_call_blind h _ _ _
  case CALLCODE => exact exec_call_blind h _ _ _
  case DELEGATECALL => exact exec_call_blind h _ _ _
  case STATICCALL => exact exec_call_blind h _ _ _
  case RETURN => exact .seq (onLocal_blind _) fun _ => .seq (onLocal_blind _) fun _ => .pure rfl
  case REVERT => exact .seq (onLocal_blind _) fun _ => .seq (onLocal_blind _) fun _ => .pure rfl
  case STOP => exact .pure rfl
  case SUICIDE =>
    exact .seq (onLocal_blind _) fun _ => .seq (onHost_blind (h.suicide _ _)) fun _ => .pure rfl
  case LOG =>
    exact .seq (onLocal_blind _) fun _ => .seq (onLocal_blind _) fun _ =>
      .seq (onLocal_blind _) fun _ =>
      .seq (onLocal_blind _) fun _ => .seq (onHost_blind (h.log _ _)) fun _ => .pure rfl
  case SLOAD =>
    exact .seq (onLocal_blind _) fun _ => .seq (onHost_blind (h.storage_at _)) fun _ =>
      .seq (onLocal_blind _) fun _ => .pure rfl
  case SSTORE =>
    exact .seq (onLocal_blind _) fun _ => .seq (onLocal_blind _) fun _ =>
      .seq (onHost_blind (h.set_storage _ _)) fun _ => .pure rfl
  case BALANCE => exact query_blind h.balance _
  case EXTCODESIZE => exact query_blind h.extcodesize _
  case EXTCODEHASH => exact query_blind h.extcodehash _
  case EXTCODECOPY =>
    exact .seq (onLocal_blind _) fun _ => .seq (onHost_blind (h.extcode _)) fun _ =>
      .seq (onLocal_blind _) fun _ => .pure rfl
  case BLOCKHASH =>
    exact .seq (onLocal_blind _) fun _ => .seq (onHost_blind (blockhash_blind _)) fun _ =>
      .seq (onLocal_blind _) fun _ => .pure rfl
  case SELFBALANCE =>
    exact .seq (onHost_blind (h.balance _)) fun _ => .seq (onLocal_blind _) fun _ => .pure rfl
  all_goals exact plain_blind _

/-! ## Steps -/

/-- The same interpreter, with the given code under the given hash, on both hosts. -/
def AbreastIn (code_hash : Option H256) (code : Bytes) (rel : Host State → Host State → Prop)
    (p q : Interpreter c × Host State) : Prop :=
  Abreast rel p q ∧ p.1.params.code_hash = code_hash ∧ p.1.code = code

section
variable {code_hash : Option H256} {code : Bytes}

section
omit [Keccak]

theorem onExec_blind {α : Type} {x : ExecM α} (h : Blind E (Abreast rel) x) :
    Blind E (AbreastIn code_hash code rel) (onExec x : StepM c α) := by
  refine Alike.zoom h (fun p q hpq => ⟨congrArg toLocal hpq.1.1, hpq.1.2⟩) ?_
  rintro ⟨i, h⟩ ⟨_, h'⟩ ⟨l, h₁⟩ ⟨_, h₁'⟩ ⟨⟨rfl, -⟩, hcode⟩ ⟨rfl, hrel⟩
  exact ⟨⟨rfl, hrel⟩, hcode⟩

theorem onStepHost_blind {α : Type} {x : HostM α} (h : Blind E rel x) :
    Blind E (AbreastIn code_hash code rel) (onStepHost x : StepM c α) :=
  Alike.zoom h (fun _ _ hpq => hpq.1.2) fun _ _ _ _ hpq hh => ⟨⟨hpq.1.1, hh⟩, hpq.2⟩

theorem modify_blind {f : Interpreter c → Interpreter c}
    (hf : ∀ i, (f i).params = i.params ∧ (f i).code = i.code) :
    Blind E (AbreastIn code_hash code rel) (modify f) := by
  refine Alike.update ?_
  rintro ⟨i, h⟩ ⟨_, h'⟩ ⟨⟨rfl, hrel⟩, hhash, hcode⟩
  refine ⟨⟨rfl, hrel⟩, ?_, ?_⟩
  · rw [← hhash]
    exact congrArg InterpreterParams.code_hash (hf i).1
  · rw [← hcode]
    exact (hf i).2

theorem gets_blind {α : Type} (f : Interpreter c → α) :
    Blind E (AbreastIn code_hash code rel) (Prog.gets fun p => f p.1 : StepM c α) :=
  .gets fun _ _ hpq => congrArg f hpq.1.1

end

omit [Keccak] in
theorem get_gasometer_blind : Blind E (AbreastIn code_hash code rel) (get_gasometer : StepM c _) :=
  .seq (gets_blind gasometer) fun _ => .expect _ _

omit [Keccak] in
theorem verify_instruction_blind (spec : Spec) (size : Nat) (info : InstructionInfo) :
    Blind E (AbreastIn code_hash code rel) (verify_instruction spec size info : StepM c Unit) :=
  .ite (fun _ => .fail _) fun _ => .ite (fun _ => .seq (.assert _ _) fun _ => .fail _)
    fun _ => .pure rfl

theorem exec_next_blind (h : HostBlind g ctx E rel) :
    Blind E (AbreastIn code_hash code rel) (exec_next g ctx : StepM c _) := by
  refine .seq (gets_blind id) fun self => .seq (.expect _ _) fun opcode =>
    .seq (modify_blind fun _ => ⟨rfl, rfl⟩) fun _ => ?_
  cases Instruction.from_u8 opcode with
  | none => exact .fail _
  | some instruction =>
    exact .seq (verify_instruction_blind _ _ _) fun _ => .seq get_gasometer_blind fun _ =>
      .seq (onStepHost_blind (Gasometer.requirements_blind h _ _ _ _)) fun _ =>
      .seq (.ofExcept _) fun _ => .seq (.expect _ _) fun _ =>
      .seq (modify_blind fun _ => ⟨rfl, rfl⟩) fun _ =>
      onExec_blind (exec_instruction_blind h _ _ _ _ _)

variable (h : ContextBlind g ctx E rel code_hash code)
include h

/-- A lookup that takes `pick` from the item of the code, and that the interpreter keeps by
    `keep`. -/
theorem lookup_blind {lookup : StepM c Bits} (known : Interpreter c → Option Bits)
    (pick : CacheItem → Bits) (keep : Interpreter c → Bits → Interpreter c)
    (hsome : ∀ i (host : Host State) dests, known i = some dests →
      lookup.run (i, host) = .ok (.ok dests, (i, host)))
    (hnone : ∀ i (host : Host State) found, known i = none →
      host.shared_cache.jump_and_sub_destinations i.params.code_hash i.code = found →
      lookup.run (i, host) =
        .ok (.ok (pick found.1), (keep i (pick found.1), { host with shared_cache := found.2 })))
    (hkeep : ∀ i dests, (keep i dests).params = i.params ∧ (keep i dests).code = i.code) :
    Blind E (AbreastIn code_hash code rel) lookup := by
  rintro ⟨i, h₁⟩ ⟨_, h₂⟩ ⟨⟨rfl, hrel⟩, hhash, hcode⟩
  rcases hknown : known i with _ | dests
  · obtain ⟨hitem, hrel'⟩ := h.destinations h₁ h₂ hrel
    rw [← hhash, ← hcode] at hitem hrel'
    rw [hnone i h₁ _ hknown rfl, hnone i h₂ _ hknown rfl]
    refine .returns (.ok (congrArg pick hitem)) ⟨⟨congrArg (keep i) (congrArg pick hitem), hrel'⟩,
      ?_, ?_⟩
    · rw [(hkeep _ _).1]
      exact hhash
    · rw [(hkeep _ _).2]
      exact hcode
  · rw [hsome i h₁ dests hknown, hsome i h₂ dests hknown]
    exact .returns (.ok rfl) ⟨⟨rfl, hrel⟩, hhash, hcode⟩

theorem jump_destinations_blind :
    Blind E (AbreastIn code_hash code rel) (jump_destinations : StepM c Bits) := by
  refine lookup_blind h valid_jump_destinations CacheItem.jump_destination
    (fun i dests => { i with valid_jump_destinations := some dests }) ?_ ?_ fun _ _ => ⟨rfl, rfl⟩
  · intro i host dests hknown
    unfold jump_destinations
    rw [run_bind, run_gets, hknown]
    rfl
  · rintro i host _ hknown rfl
    unfold jump_destinations
    rw [run_bind, run_gets, hknown]
    rfl

theorem subroutine_destinations_blind :
    Blind E (AbreastIn code_hash code rel) (subroutine_destinations : StepM c Bits) := by
  refine lookup_blind h valid_subroutine_destinations CacheItem.sub_entrypoint
    (fun i dests => { i with valid_subroutine_destinations := some dests }) ?_ ?_
      fun _ _ => ⟨rfl, rfl⟩
  · intro i host dests hknown
    unfold subroutine_destinations
    rw [run_bind, run_gets, hknown]
    rfl
  · rintro i host _ hknown rfl
    unfold subroutine_destinations
    rw [run_bind, run_gets, hknown]
    rfl

omit [Keccak] h in
theorem known_gas_blind : Blind E (AbreastIn code_hash code rel) (known_gas : StepM c _) :=
  .seq get_gasometer_blind fun _ => .pure rfl

omit [Keccak] h in
theorem check_end_blind : Blind E (AbreastIn code_hash code rel) (check_end : StepM c _) :=
  .seq (gets_blind id) fun _ => .ite (fun _ => known_gas_blind) fun _ => .pure rfl

theorem advance_blind (result : InstructionResult c) :
    Blind E (AbreastIn code_hash code rel) (advance result) := by
  have hend : Blind E (AbreastIn code_hash code rel) (check_end : StepM c _) := check_end_blind
  have hmodify : ∀ {f : Interpreter c → Interpreter c},
    (∀ i, (f i).params = i.params ∧ (f i).code = i.code) →
      Blind E (AbreastIn code_hash code rel) (modify f) := modify_blind
  cases result with
  | Ok => exact hend
  | UnusedGas gas =>
    exact .seq get_gasometer_blind fun _ => .seq (.expect _ _) fun _ =>
      .seq (hmodify fun _ => ⟨rfl, rfl⟩) fun _ => hend
  | JumpToPosition position =>
    exact .seq (jump_destinations_blind h) fun _ => .seq (.ofExcept _) fun _ =>
      .seq (hmodify fun _ => ⟨rfl, rfl⟩) fun _ => hend
  | JumpToSubroutine position =>
    exact .seq (subroutine_destinations_blind h) fun _ => .seq (.ofExcept _) fun _ =>
      .seq (hmodify fun _ => ⟨rfl, rfl⟩) fun _ => hend
  | ReturnFromSubroutine pos => exact .seq (hmodify fun _ => ⟨rfl, rfl⟩) fun _ => hend
  | StopExecutionNeedsReturn gas init_off init_size apply =>
    exact .seq (gets_blind fun i => i.mem) fun _ => .seq (hmodify fun _ => ⟨rfl, rfl⟩) fun _ =>
      .seq (.expect _ _) fun _ => .pure rfl
  | StopExecution => exact known_gas_blind
  | Trap trap => exact .pure rfl

theorem next_result_blind : Blind E (AbreastIn code_hash code rel)
    (next_result g ctx : StepM c _) := by
  refine .seq (gets_blind resume_result) fun resume_result => ?_
  cases resume_result with
  | some result => exact .seq (modify_blind fun _ => ⟨rfl, rfl⟩) fun _ => .pure rfl
  | none => exact exec_next_blind h.toHostBlind

theorem step_inner_blind : Blind E (AbreastIn code_hash code rel) (step_inner g ctx : StepM c _) :=
  .seq (next_result_blind h) fun _ => advance_blind h _

omit [Keccak] h in
theorem mark_done_blind (result : InterpreterResult) :
    Blind E (AbreastIn code_hash code rel) (mark_done result : StepM c _) := by
  cases result with
  | Done r => exact .seq (modify_blind fun _ => ⟨rfl, rfl⟩) fun _ => .pure rfl
  | Stopped => exact .pure rfl
  | Continue => exact .pure rfl
  | Trap trap => exact .pure rfl

/-- A step of the interpreter sees no more of the host than the functions of the context do. -/
theorem step_blind : Blind E (AbreastIn code_hash code rel) (step g ctx : StepM c _) := by
  refine .seq (gets_blind id) fun self => .ite (fun _ => .pure rfl) fun _ => ?_
  cases self.gasometer with
  | none => exact mark_done_blind _
  | some gasometer =>
    refine .ite (fun _ => mark_done_blind _) fun _ => .seq (.result_eq (step_inner_blind h)) ?_
    rintro (e | result)
    · exact mark_done_blind _
    · exact mark_done_blind _

end

end Interpreter

end

end CfxEvm
