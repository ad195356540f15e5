import CfxEvm.Evm.Proofs.LocalProofs
import CfxEvm.Evm.Proofs.SweepProofs
import CfxEvm.Evm.Proofs.TrapProofs

/-!
# Proofs: control flow of the interpreter

The sweep over a code goes from one instruction to the next and skips the data of pushes. The
positions that a jump may go to are found by it, and every position that the interpreter fetches an
instruction from is on it: it goes on to the next instruction, jumps to a swept destination, or
returns to the position after a `JUMPSUB`, which is on the sweep too.

The destinations come from a cache that interpreters share. It has to be faithful: what it holds
under a hash was found in the code that the hash stands for.
-/

open Lib Lib.Prog

namespace CfxEvm

variable {c : CostType}

/-! ## Instructions -/

/-- The execution does not end with the result. -/
def InterpreterResult.GoesOn : InterpreterResult → Prop
  | .Continue | .Trap _ => True
  | _ => False

/-- The result does not move the position. -/
def InstructionResult.Falls : InstructionResult c → Prop
  | .JumpToPosition _ | .JumpToSubroutine _ | .ReturnFromSubroutine _ => False
  | _ => True

namespace Interpreter

/-- The position and the return positions stay as they are. -/
def SameFlow (l l' : Local) : Prop :=
  l'.position = l.position ∧ l'.return_stack = l.return_stack

instance : Spares SameFlow where
  refl _ := ⟨rfl, rfl⟩
  trans _ _ _ h h' := ⟨h'.1.trans h.1, h'.2.trans h.2⟩
  stack _ _ := ⟨rfl, rfl⟩
  mem _ _ _ := ⟨rfl, rfl⟩
  return_data _ _ := ⟨rfl, rfl⟩
  range _ _ := ⟨rfl, rfl⟩

section
variable [Keccak] {g : Globals} {ctx : FrameContext} {params : InterpreterParams}

theorem exec_other_falls {instruction : Instruction}
    (hmoves : moves instruction = false ∨ ∃ i, instruction = .PUSH i) (code : Bytes) (gas : Cost c)
    (provided : Option (Cost c)) :
    Yields InstructionResult.Falls
      (exec_instruction g ctx params code gas instruction provided) := by
  cases instruction
  case JUMP | JUMPI | JUMPSUB | RETURNSUB | BEGINSUB =>
    rcases hmoves with h | ⟨i, h⟩ <;> cases h
  case CREATE | CREATE2 =>
    refine .seq fun _ => .seq fun _ => .seq fun _ => .seq fun _ => .seq fun _ =>
      .ite (fun _ => .fail _) fun _ => .seq fun _ => .seq fun _ => .ite (fun _ => ?_) fun _ => ?_
    · exact .seq fun _ => .seq fun _ => .pure trivial
    · exact .seq fun _ => .pure trivial
  case CALL | CALLCODE | DELEGATECALL | STATICCALL =>
    refine .seq fun _ => .seq fun _ => .seq fun _ => .seq fun _ => .seq fun _ => .seq fun _ =>
      .seq fun _ => .seq fun _ => .seq fun _ => .seq fun _ => .seq fun _ => .seq fun _ =>
      .ite (fun _ => ?_) fun _ => ?_
    · exact .seq fun _ => .seq fun _ => .seq fun _ => .pure trivial
    · exact .seq fun _ => .pure trivial
  all_goals
    unfold exec_instruction
    repeat' first
      | exact .pure trivial
      | refine .seq fun _ => ?_

/-- What an instruction does to the position and the return positions, and what it asks for. -/
def InstructionFlow (instruction : Instruction) (l l' : Local) (result : InstructionResult c) :
    Prop :=
  match instruction with
  | .JUMP => SameFlow l l' ∧ ∃ jump, l.stack[0]? = some jump ∧ result = .JumpToPosition jump
  | .JUMPI => SameFlow l l' ∧ ∃ jump condition, l.stack[0]? = some jump ∧
      l.stack[1]? = some condition ∧
      result = if !condition.is_zero then .JumpToPosition jump else .Ok
  | .JUMPSUB => SameFlow l l' ∧ l.return_stack.length < MAX_SUB_STACK_SIZE ∧
      ∃ jump, l.stack[0]? = some jump ∧ result = .JumpToSubroutine jump
  | .RETURNSUB => l'.position = l.position ∧
      ∃ pos, l.return_stack = pos :: l'.return_stack ∧ result = .ReturnFromSubroutine pos
  | .BEGINSUB => False
  | _ => l'.position = l.position + instruction.push_bytes.getD 0 ∧
      l'.return_stack = l.return_stack ∧ result.Falls

omit [Keccak] in
/-- The instructions of the sweep: they go on to the next position on it. -/
theorem InstructionFlow.of_falls {instruction : Instruction} {l l' : Local}
    {result : InstructionResult c} (hmoves : moves instruction = false) (hflow : SameFlow l l')
    (hfalls : result.Falls) : InstructionFlow instruction l l' result := by
  cases instruction
  case JUMP | JUMPI | JUMPSUB | RETURNSUB | BEGINSUB | PUSH => cases hmoves
  all_goals exact ⟨hflow.1, hflow.2, hfalls⟩

theorem exec_instruction_flow (code : Bytes) (gas : Cost c) (instruction : Instruction)
    (provided : Option (Cost c)) (l : Local) (h : Host State) :
    wp (exec_instruction g ctx params code gas instruction provided) (fun _ => True)
      (fun r p => ∀ result, r = .ok result → InstructionFlow instruction l p.1 result) (l, h) := by
  by_cases hmoves : moves instruction = false
  · have hflow : Keeps (Beside SameFlow)
        (exec_instruction g ctx params code gas instruction provided) :=
      exec_other_spares hmoves code gas provided
    refine wp_post (wp_and (hflow (l, h)) (exec_other_falls (.inl hmoves) code gas provided (l, h)))
      fun r p hp result hr => ?_
    exact .of_falls hmoves hp.1 (hp.2 result hr)
  cases instruction
  case JUMP =>
    refine wp_bind.mpr (wp_pop_back fun jump rest hs => ?_)
    rintro result ⟨⟩
    exact ⟨⟨rfl, rfl⟩, jump, by rw [hs]; rfl, rfl⟩
  case JUMPI =>
    refine wp_bind.mpr (wp_pop_back fun jump rest hs => ?_)
    refine wp_bind.mpr (wp_pop_back fun condition rest' hs' => ?_)
    rintro result ⟨⟩
    have hstack : l.stack = jump :: condition :: rest' := hs.trans (congrArg (jump :: ·) hs')
    exact ⟨⟨rfl, rfl⟩, jump, condition, by rw [hstack]; rfl, by rw [hstack]; rfl, rfl⟩
  case JUMPSUB =>
    refine wp_bind.mpr (wp_gets.mpr (wp_ite (fun _ => ?_) fun hle => ?_))
    · rintro result ⟨⟩
    · refine wp_bind.mpr (wp_pop_back fun jump rest hs => ?_)
      rintro result ⟨⟩
      exact ⟨⟨rfl, rfl⟩, not_le.mp hle, jump, by rw [hs]; rfl, rfl⟩
  case RETURNSUB =>
    refine wp_bind.mpr (wp_gets.mpr ?_)
    rcases hs : l.return_stack with _ | ⟨pos, rest⟩
    · rintro result ⟨⟩
    · refine wp_bind.mpr (wp_zoom.mpr (wp_update.mpr ?_))
      rintro result ⟨⟩
      exact ⟨rfl, pos, hs, rfl⟩
  case BEGINSUB => rintro result ⟨⟩
  case PUSH i =>
    refine wp_bind.mpr (wp_zoom.mpr (wp_bind.mpr (wp_bind.mpr (wp_gets.mpr (wp_bind.mpr ?_)))))
    refine wp_update.mpr (wp_bind.mpr (wp_assert (fun _ => trivial) fun _ => ?_))
    rintro result ⟨⟩
    exact ⟨rfl, rfl, trivial⟩
  all_goals exact absurd rfl hmoves

/-! ## Steps -/

/-- What belongs to the code of the interpreter and to its jumps, apart from the position and the
    return positions, stays as it is. -/
structure SameJumps (i i' : Interpreter c) : Prop where
  params : i'.params = i.params
  code : i'.code = i.code
  jumps : i'.valid_jump_destinations = i.valid_jump_destinations
  subroutines : i'.valid_subroutine_destinations = i.valid_subroutine_destinations

theorem exec_next_flow (i : Interpreter c) (h : Host State) :
    wp (exec_next g ctx) (fun _ => True) (fun r p => p.2.shared_cache = h.shared_cache ∧
      i.position < i.code.length ∧ SameJumps i p.1 ∧ p.1.resume_result = i.resume_result ∧
      ∀ result, r = .ok result → ∃ instruction, i.fetched = some instruction ∧
        InstructionFlow instruction { i.toLocal with position := i.position + 1 } p.1.toLocal
          result) (i, h) := by
  refine wp_bind.mpr (wp_gets.mpr ?_)
  refine wp_bind.mpr (wp_expect (fun _ => trivial) fun opcode hopcode => ?_)
  have hlt : i.position < i.code.length := (List.getElem?_eq_some_iff.mp hopcode).1
  refine wp_bind.mpr (wp_update.mpr ?_)
  rcases hins : Instruction.from_u8 opcode with _ | instruction
  · exact ⟨rfl, hlt, ⟨rfl, rfl, rfl, rfl⟩, rfl, fun _ h => nomatch h⟩
  have hfetched : i.fetched = some instruction := by
    rw [fetched, hopcode, Option.bind_some, hins]
  refine wp_seq (fun _ p => p = ({ i with position := i.position + 1 }, h)) ?_ ?_
  · refine wp_post (wp_verify_instruction _ _ _ _) ?_
    rintro (e | _) p rfl
    · exact ⟨rfl, hlt, ⟨rfl, rfl, rfl, rfl⟩, rfl, fun _ h => nomatch h⟩
    · rfl
  rintro _ _ rfl
  refine wp_bind.mpr (wp_bind.mpr (wp_gets.mpr (wp_expect (fun _ => trivial) fun m _ => ?_)))
  refine wp_bind.mpr (wp_zoom.mpr (wp_post
    (Gasometer.requirements_keeps context_shared m instruction i.stack i.mem.length h) ?_))
  rintro (e | requirements) h₁ hshared
  · exact ⟨hshared.2, hlt, ⟨rfl, rfl, rfl, rfl⟩, rfl, fun _ h => nomatch h⟩
  refine wp_bind.mpr (wp_ofExcept.mpr ?_)
  rcases m.verify_gas requirements.gas_cost with e | _
  · exact ⟨hshared.2, hlt, ⟨rfl, rfl, rfl, rfl⟩, rfl, fun _ h => nomatch h⟩
  refine wp_bind.mpr (wp_expect (fun _ => trivial) fun current_gas _ => ?_)
  refine wp_bind.mpr (wp_update.mpr (wp_zoom.mpr ?_))
  have hshared' : Keeps (fun p q => SameShared p.2 q.2)
      (exec_instruction g ctx i.params i.code current_gas instruction requirements.provide_gas) :=
    exec_instruction_keeps context_shared _ _ _ _ _
  refine wp_post (wp_and (hshared' _) (exec_instruction_flow i.code current_gas instruction
    requirements.provide_gas _ h₁)) ?_
  rintro r ⟨l', h₂⟩ ⟨hshared', hflow⟩
  refine ⟨hshared'.2.trans hshared.2, hlt, ⟨rfl, rfl, rfl, rfl⟩, rfl, fun result hr => ?_⟩
  refine ⟨instruction, hfetched, ?_⟩
  have hresult := hflow result hr
  cases instruction <;> exact hresult

/-- What the interpreter knows about its jumps was found in its code. -/
structure Knows (codeOf : H256 → Bytes) (i : Interpreter c) : Prop where
  code_hash : ∀ hash, i.params.code_hash = some hash → codeOf hash = i.code
  jumps : ∀ dests, i.valid_jump_destinations = some dests →
    dests = (SharedCache.find_jump_and_sub_destinations i.code).jump_destination
  subroutines : ∀ dests, i.valid_subroutine_destinations = some dests →
    dests = (SharedCache.find_jump_and_sub_destinations i.code).sub_entrypoint

omit [Keccak] in
theorem Knows.of_sameJumps {codeOf : H256 → Bytes} {i i' : Interpreter c} (h : Knows codeOf i)
    (hsame : SameJumps i i') : Knows codeOf i' := by
  constructor
  · rw [hsame.params, hsame.code]
    exact h.code_hash
  · rw [hsame.jumps, hsame.code]
    exact h.jumps
  · rw [hsame.subroutines, hsame.code]
    exact h.subroutines

omit [Keccak] in
/-- A jump that is allowed goes to one of the destinations, the one that the operand says. -/
theorem verify_jump_ok {jump : U256} {dests : Bits} {pos : Nat}
    (h : verify_jump jump dests = .ok pos) : jump.toNat ∈ dests.members ∧ pos = jump.toNat := by
  simp only [verify_jump] at h
  split at h
  · rename_i hvalid
    rw [Bool.and_eq_true, beq_iff_eq] at hvalid
    cases h
    rw [← hvalid.2]
    exact ⟨List.contains_iff_mem.mp hvalid.1, rfl⟩
  · cases h

/-- Moving on leaves what it works with in order. -/
structure Keeping (codeOf : H256 → Bytes) (i : Interpreter c) (p : Interpreter c × Host State) :
    Prop where
  knows : Knows codeOf p.1
  cache : p.2.shared_cache.Faithful codeOf
  code : p.1.code = i.code
  resume_result : p.1.resume_result = i.resume_result

theorem wp_jump_destinations {codeOf : H256 → Bytes} {i : Interpreter c} {h : Host State}
    (hk : Knows codeOf i) (hc : h.shared_cache.Faithful codeOf) :
    wp jump_destinations (fun _ => True) (fun r p => Keeping codeOf i p ∧
      SameFlow i.toLocal p.1.toLocal ∧ ∀ dests, r = .ok dests →
        dests = (SharedCache.find_jump_and_sub_destinations i.code).jump_destination) (i, h) := by
  refine wp_bind.mpr (wp_gets.mpr ?_)
  rcases hdests : i.valid_jump_destinations with _ | dests
  · obtain ⟨hitem, hcache⟩ := hc.destinations hk.code_hash
    refine wp_bind.mpr (wp_gets.mpr (wp_bind.mpr (wp_update.mpr ?_)))
    refine ⟨⟨⟨hk.code_hash, ?_, hk.subroutines⟩, hcache, rfl, rfl⟩, ⟨rfl, rfl⟩, ?_⟩
    · rintro _ ⟨⟩
      exact congrArg CacheItem.jump_destination hitem
    · rintro _ ⟨⟩
      exact congrArg CacheItem.jump_destination hitem
  · refine ⟨⟨hk, hc, rfl, rfl⟩, ⟨rfl, rfl⟩, ?_⟩
    rintro _ ⟨⟩
    exact hk.jumps dests hdests

theorem wp_subroutine_destinations {codeOf : H256 → Bytes} {i : Interpreter c} {h : Host State}
    (hk : Knows codeOf i) (hc : h.shared_cache.Faithful codeOf) :
    wp subroutine_destinations (fun _ => True) (fun r p => Keeping codeOf i p ∧
      SameFlow i.toLocal p.1.toLocal ∧ ∀ dests, r = .ok dests →
        dests = (SharedCache.find_jump_and_sub_destinations i.code).sub_entrypoint) (i, h) := by
  refine wp_bind.mpr (wp_gets.mpr ?_)
  rcases hdests : i.valid_subroutine_destinations with _ | dests
  · obtain ⟨hitem, hcache⟩ := hc.destinations hk.code_hash
    refine wp_bind.mpr (wp_gets.mpr (wp_bind.mpr (wp_update.mpr ?_)))
    refine ⟨⟨⟨hk.code_hash, hk.jumps, ?_⟩, hcache, rfl, rfl⟩, ⟨rfl, rfl⟩, ?_⟩
    · rintro _ ⟨⟩
      exact congrArg CacheItem.sub_entrypoint hitem
    · rintro _ ⟨⟩
      exact congrArg CacheItem.sub_entrypoint hitem
  · refine ⟨⟨hk, hc, rfl, rfl⟩, ⟨rfl, rfl⟩, ?_⟩
    rintro _ ⟨⟩
    exact hk.subroutines dests hdests

/-- Where an interpreter goes on, after an instruction with the result. -/
def Moved (result : InstructionResult c) (i i' : Interpreter c) : Prop :=
  match result with
  | .JumpToPosition jump => SweptAt i.code .JUMPDEST jump.toNat ∧ i'.position = jump.toNat ∧
      i'.return_stack = i.return_stack
  | .JumpToSubroutine jump => SweptAt i.code .BEGINSUB jump.toNat ∧
      i'.position = jump.toNat + 1 ∧ i'.return_stack = i.position :: i.return_stack
  | .ReturnFromSubroutine pos => i'.position = pos ∧ i'.return_stack = i.return_stack
  | _ => SameFlow i.toLocal i'.toLocal

omit [Keccak] in
theorem check_end_flow (p : Interpreter c × Host State) :
    wp check_end (fun _ => True) (fun r p' => p' = p ∧ ∀ res, r = .ok res → res.GoesOn →
      p.1.position < p.1.code.length) p := by
  refine wp_bind.mpr (wp_gets.mpr (wp_ite (fun _ => ?_) fun hlt => ?_))
  · refine wp_bind.mpr (wp_bind.mpr (wp_gets.mpr (wp_expect (fun _ => trivial) fun m _ => ?_)))
    refine ⟨rfl, ?_⟩
    rintro _ ⟨⟩ hgo
    exact hgo.elim
  · exact ⟨rfl, fun _ _ _ => not_le.mp hlt⟩

section
variable {codeOf : H256 → Bytes} {i : Interpreter c} {h : Host State}

/-- What moving on leads to. -/
structure Advances (codeOf : H256 → Bytes) (result : InstructionResult c) (i : Interpreter c)
    (r : Except VmError InterpreterResult) (p : Interpreter c × Host State) : Prop where
  keeping : Keeping codeOf i p
  moved : ∀ res, r = .ok res → res.GoesOn → Moved result i p.1
  inside : r = .ok .Continue → p.1.position < p.1.code.length

section
omit [Keccak]

theorem advances_end {result : InstructionResult c} {p : Interpreter c × Host State}
    (hkeep : Keeping codeOf i p) (hmoved : Moved result i p.1) :
    wp check_end (fun _ => True) (Advances codeOf result i) p := by
  refine wp_post (check_end_flow p) ?_
  rintro r _ ⟨rfl, hlt⟩
  exact ⟨hkeep, fun _ _ _ => hmoved, fun hr => hlt _ hr trivial⟩

theorem advances_fail {result : InstructionResult c} {p : Interpreter c × Host State} {e : VmError}
    (hkeep : Keeping codeOf i p) : Advances codeOf result i (.error e) p :=
  ⟨hkeep, fun _ hr => (nomatch hr), fun hr => (nomatch hr)⟩

theorem advances_done {result : InstructionResult c} {p : Interpreter c × Host State}
    {ended : Except VmError GasLeft} (hkeep : Keeping codeOf i p) :
    Advances codeOf result i (.ok (.Done ended)) p := by
  refine ⟨hkeep, ?_, fun hr => nomatch hr⟩
  rintro _ ⟨⟩ hgo
  exact hgo.elim

end

theorem advance_flow (hk : Knows codeOf i) (hc : h.shared_cache.Faithful codeOf)
    (result : InstructionResult c) :
    wp (advance result) (fun _ => True) (Advances codeOf result i) (i, h) := by
  have hkeep : Keeping codeOf i (i, h) := ⟨hk, hc, rfl, rfl⟩
  cases result with
  | Trap trap => exact ⟨hkeep, fun _ _ _ => ⟨rfl, rfl⟩, fun hr => nomatch hr⟩
  | Ok => exact advances_end hkeep ⟨rfl, rfl⟩
  | UnusedGas gas =>
    refine wp_bind.mpr (wp_bind.mpr (wp_gets.mpr (wp_expect (fun _ => trivial) fun m _ => ?_)))
    refine wp_bind.mpr (wp_expect (fun _ => trivial) fun sum _ => ?_)
    exact wp_bind.mpr (wp_update.mpr (advances_end
      ⟨hk.of_sameJumps ⟨rfl, rfl, rfl, rfl⟩, hc, rfl, rfl⟩ ⟨rfl, rfl⟩))
  | JumpToPosition jump =>
    refine wp_bind.mpr (wp_post (wp_jump_destinations hk hc) ?_)
    rintro (e | dests) ⟨i₁, h₁⟩ ⟨hkeep₁, hflow, hdests⟩
    · exact advances_fail hkeep₁
    refine wp_bind.mpr (wp_ofExcept.mpr ?_)
    rcases hjump : verify_jump jump dests with e | pos
    · exact advances_fail hkeep₁
    obtain ⟨hmem, rfl⟩ := verify_jump_ok hjump
    obtain rfl := hdests dests rfl
    refine wp_bind.mpr (wp_update.mpr (advances_end ?_ ?_))
    · exact ⟨hkeep₁.knows.of_sameJumps ⟨rfl, rfl, rfl, rfl⟩, hkeep₁.cache, hkeep₁.code,
        hkeep₁.resume_result⟩
    · exact ⟨(sweptAt_destinations i.code).1 _ hmem, rfl, hflow.2⟩
  | JumpToSubroutine jump =>
    refine wp_bind.mpr (wp_post (wp_subroutine_destinations hk hc) ?_)
    rintro (e | dests) ⟨i₁, h₁⟩ ⟨hkeep₁, hflow, hdests⟩
    · exact advances_fail hkeep₁
    refine wp_bind.mpr (wp_ofExcept.mpr ?_)
    rcases hjump : verify_jump jump dests with e | pos
    · exact advances_fail hkeep₁
    obtain ⟨hmem, rfl⟩ := verify_jump_ok hjump
    obtain rfl := hdests dests rfl
    refine wp_bind.mpr (wp_update.mpr (advances_end ?_ ?_))
    · exact ⟨hkeep₁.knows.of_sameJumps ⟨rfl, rfl, rfl, rfl⟩, hkeep₁.cache, hkeep₁.code,
        hkeep₁.resume_result⟩
    · exact ⟨(sweptAt_destinations i.code).2 _ hmem, rfl, congrArg₂ List.cons hflow.1 hflow.2⟩
  | ReturnFromSubroutine pos =>
    exact wp_bind.mpr (wp_update.mpr (advances_end
      ⟨hk.of_sameJumps ⟨rfl, rfl, rfl, rfl⟩, hc, rfl, rfl⟩ ⟨rfl, rfl⟩))
  | StopExecutionNeedsReturn gas init_off init_size apply =>
    refine wp_bind.mpr (wp_gets.mpr (wp_bind.mpr (wp_update.mpr ?_)))
    refine wp_bind.mpr (wp_expect (fun _ => trivial) fun data _ => ?_)
    exact advances_done ⟨hk.of_sameJumps ⟨rfl, rfl, rfl, rfl⟩, hc, rfl, rfl⟩
  | StopExecution =>
    refine wp_bind.mpr (wp_bind.mpr (wp_gets.mpr (wp_expect (fun _ => trivial) fun m _ => ?_)))
    exact advances_done hkeep

/-- Where a step that fetches the instruction goes on. -/
def StepFlow (instruction : Instruction) (i i' : Interpreter c) : Prop :=
  match instruction with
  | .JUMP => i'.return_stack = i.return_stack ∧ ∃ jump, i.stack[0]? = some jump ∧
      SweptAt i.code .JUMPDEST jump.toNat ∧ i'.position = jump.toNat
  | .JUMPI => i'.return_stack = i.return_stack ∧ ∃ jump condition, i.stack[0]? = some jump ∧
      i.stack[1]? = some condition ∧
      if condition.is_zero then i'.position = i.position + 1
      else SweptAt i.code .JUMPDEST jump.toNat ∧ i'.position = jump.toNat
  | .JUMPSUB => i'.return_stack = (i.position + 1) :: i.return_stack ∧
      i'.return_stack.length ≤ MAX_SUB_STACK_SIZE ∧ ∃ jump, i.stack[0]? = some jump ∧
      SweptAt i.code .BEGINSUB jump.toNat ∧ i'.position = jump.toNat + 1
  | .RETURNSUB => i.return_stack = i'.position :: i'.return_stack
  | .BEGINSUB => False
  | _ => i'.return_stack = i.return_stack ∧
      i'.position = i.position + 1 + instruction.push_bytes.getD 0

omit [Keccak] in
/-- An instruction and what follows on its result are a step. -/
theorem InstructionFlow.step {instruction : Instruction} {i₁ i₂ : Interpreter c}
    {result : InstructionResult c}
    (hflow : InstructionFlow instruction { i.toLocal with position := i.position + 1 } i₁.toLocal
      result)
    (hcode : i₁.code = i.code) (hmoved : Moved result i₁ i₂) : StepFlow instruction i i₂ := by
  cases instruction
  case JUMP =>
    obtain ⟨hsame, jump, hjump, rfl⟩ := hflow
    obtain ⟨hswept, hpos, hstack⟩ := hmoved
    exact ⟨hstack.trans hsame.2, jump, hjump, hcode ▸ hswept, hpos⟩
  case JUMPI =>
    obtain ⟨hsame, jump, condition, hjump, hcondition, rfl⟩ := hflow
    by_cases hzero : condition.is_zero = true
    · rw [hzero] at hmoved
      refine ⟨hmoved.2.trans hsame.2, jump, condition, hjump, hcondition, ?_⟩
      rw [if_pos hzero]
      exact hmoved.1.trans hsame.1
    · rw [Bool.not_eq_true] at hzero
      rw [hzero] at hmoved
      obtain ⟨hswept, hpos, hstack⟩ := hmoved
      refine ⟨hstack.trans hsame.2, jump, condition, hjump, hcondition, ?_⟩
      rw [hzero]
      exact ⟨hcode ▸ hswept, hpos⟩
  case JUMPSUB =>
    obtain ⟨hsame, hlt, jump, hjump, rfl⟩ := hflow
    obtain ⟨hswept, hpos, hstack⟩ := hmoved
    have hpushed : i₂.return_stack = (i.position + 1) :: i.return_stack :=
      hstack.trans (congrArg₂ List.cons hsame.1 hsame.2)
    refine ⟨hpushed, ?_, jump, hjump, hcode ▸ hswept, hpos⟩
    rw [hpushed]
    exact hlt
  case RETURNSUB =>
    obtain ⟨hpos, pos, hstack, rfl⟩ := hflow
    obtain ⟨hpos', hstack'⟩ := hmoved
    show i.return_stack = i₂.position :: i₂.return_stack
    rw [hpos', hstack']
    exact hstack
  case BEGINSUB => exact hflow
  all_goals
    obtain ⟨hpos, hstack, hfalls⟩ := hflow
    cases result
    case JumpToPosition | JumpToSubroutine | ReturnFromSubroutine => exact hfalls.elim
    all_goals exact ⟨hmoved.2.trans hstack, hmoved.1.trans hpos⟩

/-- What a step leads to, from an interpreter that is not done and has gas. -/
structure Steps (codeOf : H256 → Bytes) (i : Interpreter c) (r : Except VmError InterpreterResult)
    (p : Interpreter c × Host State) : Prop where
  knows : Knows codeOf p.1
  cache : p.2.shared_cache.Faithful codeOf
  code : p.1.code = i.code
  ran : ∀ res, r = .ok res → res.GoesOn → i.done = false ∧ i.gasometer.isSome ∧ i.code ≠ []
  resumed : ∀ res, r = .ok res → res.GoesOn → p.1.resume_result = none
  fetches : ∀ res, r = .ok res → res.GoesOn → i.resume_result = none →
    ∃ instruction, i.fetched = some instruction ∧ StepFlow instruction i p.1
  stays : ∀ res, r = .ok res → res.GoesOn → i.resume_result ≠ none →
    SameFlow i.toLocal p.1.toLocal
  inside : r = .ok .Continue → p.1.position < p.1.code.length

section
omit [Keccak]

theorem steps_ended {r : Except VmError InterpreterResult} {p : Interpreter c × Host State}
    (hk : Knows codeOf p.1) (hc : p.2.shared_cache.Faithful codeOf) (hcode : p.1.code = i.code)
    (hend : ∀ res, r = .ok res → ¬res.GoesOn) : Steps codeOf i r p where
  knows := hk
  cache := hc
  code := hcode
  ran res hr hgo := absurd hgo (hend res hr)
  resumed res hr hgo := absurd hgo (hend res hr)
  fetches res hr hgo := absurd hgo (hend res hr)
  stays res hr hgo := absurd hgo (hend res hr)
  inside hr := absurd trivial (hend _ hr)

theorem steps_done {p : Interpreter c × Host State} {ended : Except VmError GasLeft}
    (hk : Knows codeOf p.1) (hc : p.2.shared_cache.Faithful codeOf) (hcode : p.1.code = i.code) :
    wp (mark_done (.Done ended)) (fun _ => True) (Steps codeOf i) p := by
  refine steps_ended (hk.of_sameJumps ⟨rfl, rfl, rfl, rfl⟩) hc hcode ?_
  rintro _ ⟨⟩ hgo
  exact hgo

/-- A result that the interpreter goes on with is handed on. -/
theorem steps_mark_done {i₁ : Interpreter c} {result : InstructionResult c}
    {r : Except VmError InterpreterResult} {p : Interpreter c × Host State}
    (hran : i.done = false ∧ i.gasometer.isSome ∧ i.code ≠ [])
    (hadv : Advances codeOf result i₁ r p) (hcode : i₁.code = i.code)
    (hres : i₁.resume_result = none)
    (hfetches : ∀ i₂, Moved result i₁ i₂ → i.resume_result = none →
      ∃ instruction, i.fetched = some instruction ∧ StepFlow instruction i i₂)
    (hstays : ∀ i₂, Moved result i₁ i₂ → i.resume_result ≠ none → SameFlow i.toLocal i₂.toLocal) :
    wp (match r with
      | .ok res => mark_done res
      | .error e => mark_done (.Done (.error e))) (fun _ => True) (Steps codeOf i) p := by
  have hcode' := hadv.keeping.code.trans hcode
  have hgo : ∀ res : InterpreterResult, r = .ok res → res.GoesOn →
      Steps codeOf i (.ok res) p := by
    intro res hr hgo
    have hmoved := hadv.moved res hr hgo
    refine ⟨hadv.keeping.knows, hadv.keeping.cache, hcode', ?_, ?_, ?_, ?_, ?_⟩
    · exact fun _ _ _ => hran
    · exact fun _ _ _ => hadv.keeping.resume_result.trans hres
    · exact fun _ _ _ => hfetches p.1 hmoved
    · exact fun _ _ _ => hstays p.1 hmoved
    · exact fun hcontinue => hadv.inside (hr.trans hcontinue)
  rcases hr : r with e | res
  · exact steps_done hadv.keeping.knows hadv.keeping.cache hcode'
  cases res with
  | Done ended => exact steps_done hadv.keeping.knows hadv.keeping.cache hcode'
  | Continue => exact hgo _ hr trivial
  | Trap trap => exact hgo _ hr trivial
  | Stopped =>
    refine steps_ended hadv.keeping.knows hadv.keeping.cache hcode' ?_
    rintro _ ⟨⟩ hgo
    exact hgo

end

variable (g ctx) in
theorem step_flow (hk : Knows codeOf i) (hc : h.shared_cache.Faithful codeOf)
    (hres : i.Resumable) :
    wp (step g ctx) (fun _ => True) (Steps codeOf i) (i, h) := by
  refine wp_bind.mpr (wp_gets.mpr (wp_ite (fun _ => ?_) fun hdone => ?_))
  · refine steps_ended hk hc rfl ?_
    rintro _ ⟨⟩ hgo
    exact hgo
  rcases hm : i.gasometer with _ | m
  · exact steps_done hk hc rfl
  refine wp_ite (fun _ => steps_done hk hc rfl) fun hempty => ?_
  have hran : i.done = false ∧ i.gasometer.isSome ∧ i.code ≠ [] :=
    ⟨Bool.eq_false_iff.mpr hdone, by rw [hm]; rfl, fun h => hempty (List.isEmpty_iff.mpr h)⟩
  refine wp_bind.mpr (wp_result.mpr (wp_bind.mpr ?_))
  by_cases hr : i.resume_result = none
  · -- the next instruction
    refine wp_bind.mpr (wp_gets.mpr ?_)
    simp only [hr]
    refine wp_post (exec_next_flow i h) ?_
    rintro (e | result) ⟨i₁, h₁⟩ ⟨hcache, hlt, hsame, hresume, hflow⟩
    · exact steps_done (hk.of_sameJumps hsame) (hcache ▸ hc) hsame.code
    obtain ⟨instruction, hfetched, hflow⟩ := hflow result rfl
    refine wp_post (advance_flow (hk.of_sameJumps hsame) (hcache ▸ hc) result) fun r p hadv => ?_
    refine steps_mark_done hran hadv hsame.code (hresume.trans hr) (fun i₂ hmoved _ => ?_)
      fun _ _ hne => absurd hr hne
    exact ⟨instruction, hfetched, hflow.step hsame.code hmoved⟩
  · -- the result that was waited for
    have hfalls : ∃ result, i.resume_result = some result ∧ result.Falls := by
      rcases hres with h | h | ⟨gas, h⟩
      · exact absurd h hr
      · exact ⟨_, h, trivial⟩
      · exact ⟨_, h, trivial⟩
    obtain ⟨result, hresult, hfalls⟩ := hfalls
    refine wp_bind.mpr (wp_gets.mpr ?_)
    simp only [hresult]
    refine wp_bind.mpr (wp_update.mpr (wp_pure.mpr ?_))
    have hk' : Knows codeOf { i with resume_result := none } :=
      hk.of_sameJumps ⟨rfl, rfl, rfl, rfl⟩
    refine wp_post (advance_flow hk' hc result) fun r p hadv => ?_
    refine steps_mark_done hran hadv rfl rfl (fun _ _ hnone => absurd hnone hr)
      fun i₂ hmoved _ => ?_
    cases result
    case JumpToPosition | JumpToSubroutine | ReturnFromSubroutine => exact hfalls.elim
    all_goals exact hmoved

/-- Why a step that fetches `BEGINSUB` fails: it is not executed at all, or not to be fallen
    into. -/
def BeginSubError (spec : Spec) (i : Interpreter c) (e : VmError) : Prop :=
  e = .InvalidSubEntry ∨
    (e = .OutOfGas ∧ i.gas <
      (Cost.from ((spec.tier_step_gas[Instruction.BEGINSUB.info.tier.idx]?).getD 0) :
        Cost c).toNat) ∨
    (e = .OutOfStack "BEGINSUB" 0 spec.stack_limit ∧ spec.stack_limit < i.stack.length)

variable (g ctx) in
theorem begin_sub_fails (hfetches : i.Fetches) (hins : i.fetched = some .BEGINSUB) :
    wp (step g ctx) (fun _ => True) (fun r _ => ∃ e, r = .ok (.Done (.error e)) ∧
      BeginSubError g.spec i e) (i, h) := by
  obtain ⟨hdone, hgas, hcode, hresume⟩ := hfetches
  obtain ⟨m, hm⟩ := Option.isSome_iff_exists.mp hgas
  refine wp_bind.mpr (wp_gets.mpr (wp_ite (fun hd => ?_) fun _ => ?_))
  · exact absurd (hd.symm.trans hdone) (by simp)
  simp only [hm]
  refine wp_ite (fun hempty => absurd (List.isEmpty_iff.mp hempty) hcode) fun _ => ?_
  refine wp_bind.mpr (wp_result.mpr (wp_bind.mpr (wp_bind.mpr (wp_gets.mpr ?_))))
  simp only [hresume]
  refine wp_bind.mpr (wp_gets.mpr ?_)
  refine wp_bind.mpr (wp_expect (fun _ => trivial) fun opcode hopcode => ?_)
  have hop : Instruction.from_u8 opcode = some .BEGINSUB := by
    simpa only [fetched, hopcode, Option.bind_some] using hins
  refine wp_bind.mpr (wp_update.mpr ?_)
  simp only [hop]
  refine wp_bind.mpr ?_
  unfold verify_instruction
  refine wp_ite (fun hlt => absurd hlt (Nat.not_lt_zero _)) fun _ => wp_ite (fun hfull => ?_)
    fun _ => ?_
  · refine wp_bind.mpr (wp_assert (fun _ => trivial) fun _ => ?_)
    exact ⟨_, rfl, .inr (.inr ⟨rfl, hfull⟩)⟩
  refine wp_pure.mpr (wp_bind.mpr (wp_get_gasometer hm ?_))
  refine wp_bind.mpr (wp_zoom.mpr ?_)
  refine wp_bind.mpr (wp_pure.mpr (wp_pure.mpr ?_))
  refine wp_bind.mpr (wp_ofExcept.mpr ?_)
  by_cases hlt : m.current_gas.toNat <
      (Cost.from ((g.spec.tier_step_gas[Instruction.BEGINSUB.info.tier.idx]?).getD 0) :
        Cost c).toNat
  · rw [Gasometer.verify_gas, if_pos hlt]
    exact ⟨_, rfl, .inr (.inl ⟨rfl, by simpa only [gas, hm] using hlt⟩)⟩
  · rw [Gasometer.verify_gas, if_neg hlt]
    refine wp_bind.mpr (wp_expect (fun _ => trivial) fun current_gas _ => ?_)
    refine wp_bind.mpr (wp_update.mpr (wp_zoom.mpr ?_))
    exact ⟨_, rfl, .inl rfl⟩

/-! ## Runs -/

/-- The positions of the `JUMPSUB` instructions that have not been returned to, after a step. -/
def sites_after (i : Interpreter c) (sites : List Nat) : List Nat :=
  match i.resume_result, i.fetched with
  | none, some .JUMPSUB => i.position :: sites
  | none, some .RETURNSUB => sites.tail
  | _, _ => sites

/-- The interpreters that steps lead to, from `i₀`. A call or creation that the interpreter traps
    into may have any result, and the host may be another one at each step. -/
inductive Runs (g : Globals) (ctx : FrameContext) (codeOf : H256 → Bytes) (i₀ : Interpreter c) :
    Interpreter c → List Nat → Prop
  | start : Runs g ctx codeOf i₀ i₀ []
  | step {i i' : Interpreter c} {sites : List Nat} {h h' : Host State}
      (hrun : Runs g ctx codeOf i₀ i sites) (hcache : h.shared_cache.Faithful codeOf)
      (hstep : (step g ctx).run (i, h) = .ok (.ok .Continue, (i', h'))) :
      Runs g ctx codeOf i₀ i' (i.sites_after sites)
  | call {i i' i'' : Interpreter c} {sites : List Nat} {h h' : Host State} {params : ActionParams}
      {result : MessageCallResult}
      (hrun : Runs g ctx codeOf i₀ i sites) (hcache : h.shared_cache.Faithful codeOf)
      (hstep : (step g ctx).run (i, h) = .ok (.ok (.Trap (.Call params)), (i', h')))
      (hresume : i'.resume_call result = .ok i'') :
      Runs g ctx codeOf i₀ i'' (i.sites_after sites)
  | create {i i' i'' : Interpreter c} {sites : List Nat} {h h' : Host State}
      {params : ActionParams} {result : ContractCreateResult}
      (hrun : Runs g ctx codeOf i₀ i sites) (hcache : h.shared_cache.Faithful codeOf)
      (hstep : (step g ctx).run (i, h) = .ok (.ok (.Trap (.Create params)), (i', h')))
      (hresume : i'.resume_create result = .ok i'') :
      Runs g ctx codeOf i₀ i'' (i.sites_after sites)

/-- The position and the return positions are on the sweep of the code. -/
structure Aligned (codeOf : H256 → Bytes) (code : Bytes) (sites : List Nat) (i : Interpreter c) :
    Prop where
  knows : Knows codeOf i
  code_eq : i.code = code
  swept : Swept code i.position
  returns : i.return_stack = sites.map (· + 1)
  sites : ∀ site ∈ sites, SweptAt code .JUMPSUB site
  bound : i.return_stack.length ≤ MAX_SUB_STACK_SIZE

section
variable {code : Bytes} {sites : List Nat} {i' : Interpreter c}

omit [Keccak] in
/-- An instruction goes from a position on the sweep to another one. -/
theorem Aligned.fetch {instruction : Instruction} (ha : Aligned codeOf code sites i)
    (hres : i.resume_result = none) (hins : i.fetched = some instruction)
    (hflow : StepFlow instruction i i') (hk : Knows codeOf i') (hcode : i'.code = code) :
    Aligned codeOf code (i.sites_after sites) i' := by
  obtain ⟨opcode, hopcode, hfrom⟩ := Option.bind_eq_some_iff.mp hins
  rw [ha.code_eq] at hopcode
  have hnext := ha.swept.next_of hopcode hfrom
  -- after an instruction that neither jumps to a subroutine nor returns from one
  have hsame : i'.return_stack = i.return_stack → Swept code i'.position →
      i.sites_after sites = sites → Aligned codeOf code (i.sites_after sites) i' := by
    intro hstack hswept hsites
    rw [hsites]
    exact ⟨hk, hcode, hswept, hstack.trans ha.returns, ha.sites, by rw [hstack]; exact ha.bound⟩
  cases instruction
  case JUMP =>
    obtain ⟨hstack, jump, -, hswept, hpos⟩ := hflow
    refine hsame hstack ?_ (by simp only [sites_after, hres, hins])
    rw [hpos, ← ha.code_eq]
    exact hswept.1
  case JUMPI =>
    obtain ⟨hstack, jump, condition, -, -, hmoved⟩ := hflow
    refine hsame hstack ?_ (by simp only [sites_after, hres, hins])
    split at hmoved
    · rw [hmoved]
      exact hnext
    · rw [hmoved.2, ← ha.code_eq]
      exact hmoved.1.1
  case JUMPSUB =>
    obtain ⟨hstack, hbound, jump, -, ⟨hswept, opcode', hopcode', hfrom'⟩, hpos⟩ := hflow
    have hsites : i.sites_after sites = i.position :: sites := by
      simp only [sites_after, hres, hins]
    rw [ha.code_eq] at hswept hopcode'
    rw [hsites]
    refine ⟨hk, hcode, ?_, ?_, ?_, hbound⟩
    · rw [hpos]
      exact hswept.next_of hopcode' hfrom'
    · rw [hstack, ha.returns, List.map_cons]
    · intro site hsite
      rcases List.mem_cons.mp hsite with rfl | hsite
      · exact ⟨ha.swept, opcode, hopcode, hfrom⟩
      · exact ha.sites site hsite
  case RETURNSUB =>
    have hsites : i.sites_after sites = sites.tail := by simp only [sites_after, hres, hins]
    have hreturns : i'.position :: i'.return_stack = sites.map (· + 1) :=
      hflow.symm.trans ha.returns
    have hbound := ha.bound
    rw [hflow, List.length_cons] at hbound
    rw [hsites]
    cases sites with
    | nil => cases hreturns
    | cons site rest =>
      obtain ⟨hpos, hstack⟩ := List.cons.inj hreturns
      obtain ⟨hswept, opcode', hopcode', hfrom'⟩ := ha.sites site (by simp)
      refine ⟨hk, hcode, ?_, hstack, fun s hs => ha.sites s (by simp [show s ∈ rest from hs]),
        by omega⟩
      rw [hpos]
      exact hswept.next_of hopcode' hfrom'
  case BEGINSUB => exact hflow.elim
  all_goals
    refine hsame hflow.1 ?_ (by simp only [sites_after, hres, hins])
    rw [hflow.2]
    exact hnext

/-- A step keeps to the sweep. -/
theorem Aligned.step {r : InterpreterResult} {h' : Host State}
    (ha : Aligned codeOf code sites i) (hres : i.Resumable) (hc : h.shared_cache.Faithful codeOf)
    (hstep : (step g ctx).run (i, h) = .ok (.ok r, (i', h'))) (hgo : r.GoesOn) :
    Aligned codeOf code (i.sites_after sites) i' := by
  have hsteps := wp_of_run (step_flow g ctx ha.knows hc hres) hstep
  have hcode : i'.code = code := hsteps.code.trans ha.code_eq
  by_cases hr : i.resume_result = none
  · obtain ⟨instruction, hins, hflow⟩ := hsteps.fetches r rfl hgo hr
    exact ha.fetch hr hins hflow hsteps.knows hcode
  · have hflow := hsteps.stays r rfl hgo hr
    have hsites : i.sites_after sites = sites := by
      unfold sites_after
      split
      · exact absurd ‹_› hr
      · exact absurd ‹_› hr
      · rfl
    rw [hsites]
    refine ⟨hsteps.knows, hcode, ?_, hflow.2.trans ha.returns, ha.sites, ?_⟩
    · rw [hflow.1]
      exact ha.swept
    · rw [hflow.2]
      exact ha.bound

/-- What a resumption leaves alone; there is a result to take up after it. -/
structure Resumed (i i' : Interpreter c) : Prop where
  jumps : SameJumps i i'
  flow : SameFlow i.toLocal i'.toLocal
  resumable : i'.Resumable
  resume_result : i'.resume_result ≠ none

section
omit [Keccak]

theorem unused_gas_ok {gas_left : U256} {result : InstructionResult c}
    (h : unused_gas gas_left = .ok result) : ∃ gas, result = .UnusedGas gas := by
  unfold unused_gas at h
  split at h
  · cases h
    exact ⟨_, rfl⟩
  · cases h

/-- The gas that came back is what a resumed interpreter takes up. -/
theorem resumed_of_unused_gas {gas_left : U256} {f : InstructionResult c → Interpreter c}
    (h : (unused_gas gas_left).map f = .ok i') (hjumps : ∀ r, SameJumps i (f r))
    (hflow : ∀ r, SameFlow i.toLocal (f r).toLocal) (hf : ∀ r, (f r).resume_result = some r) :
    Resumed i i' := by
  rcases hgas : (unused_gas gas_left : Except Panic (InstructionResult c)) with p | result <;>
    rw [hgas] at h <;> cases h
  obtain ⟨gas, rfl⟩ := unused_gas_ok hgas
  exact ⟨hjumps _, hflow _, .inr (.inr ⟨gas, hf _⟩), by rw [hf]; simp⟩

theorem returned_resumed {out : U256 × U256} {flag gas_left : U256} {data : ReturnData}
    (h : i.returned out flag gas_left data = .ok i') : Resumed i i' := by
  unfold returned at h
  split at h
  · cases h
  · split at h
    · cases h
    · exact resumed_of_unused_gas h (fun _ => ⟨rfl, rfl, rfl, rfl⟩) (fun _ => ⟨rfl, rfl⟩)
        fun _ => rfl

theorem resume_call_resumed {result : MessageCallResult} (h : i.resume_call result = .ok i') :
    Resumed i i' := by
  unfold resume_call at h
  split at h
  · cases h
  · cases result with
    | Success gas_left data => exact returned_resumed h
    | Reverted gas_left data => exact returned_resumed h
    | Failed e =>
      cases h
      exact ⟨⟨rfl, rfl, rfl, rfl⟩, ⟨rfl, rfl⟩, .inr (.inl rfl), by simp⟩

theorem resume_create_resumed {result : ContractCreateResult}
    (h : i.resume_create result = .ok i') : Resumed i i' := by
  cases result with
  | Created address gas_left =>
    exact resumed_of_unused_gas h (fun _ => ⟨rfl, rfl, rfl, rfl⟩) (fun _ => ⟨rfl, rfl⟩)
      fun _ => rfl
  | Reverted gas_left data =>
    exact resumed_of_unused_gas h (fun _ => ⟨rfl, rfl, rfl, rfl⟩) (fun _ => ⟨rfl, rfl⟩)
      fun _ => rfl
  | Failed e =>
    cases h
    exact ⟨⟨rfl, rfl, rfl, rfl⟩, ⟨rfl, rfl⟩, .inr (.inl rfl), by simp⟩

theorem Aligned.resumed (ha : Aligned codeOf code sites i) (hr : Resumed i i') :
    Aligned codeOf code sites i' := by
  refine ⟨ha.knows.of_sameJumps hr.jumps, hr.jumps.code.trans ha.code_eq, ?_,
    hr.flow.2.trans ha.returns, ha.sites, ?_⟩
  · rw [hr.flow.1]
    exact ha.swept
  · rw [hr.flow.2]
    exact ha.bound

theorem aligned_new {params : ActionParams}
    (hcode : ∀ hash, params.code_hash = some hash → codeOf hash = code) :
    Aligned codeOf code [] (new params code : Interpreter c) where
  knows := ⟨hcode, fun _ h => (nomatch h), fun _ h => (nomatch h)⟩
  code_eq := rfl
  swept := .zero
  returns := rfl
  sites _ h := (nomatch h)
  bound := Nat.zero_le _

end

/-- Every run keeps to the sweep, and stays inside the code where it fetches. -/
theorem aligned_of_runs {params : ActionParams}
    (hcode : ∀ hash, params.code_hash = some hash → codeOf hash = code)
    (hrun : Runs g ctx codeOf (new params code) i sites) :
    Aligned codeOf code sites i ∧ i.Resumable ∧
      (i.resume_result = none → code ≠ [] → i.position < code.length) := by
  induction hrun with
  | start =>
    refine ⟨aligned_new hcode, .inl rfl, fun _ hne => List.length_pos_iff.mpr hne⟩
  | step _ hc hstep ih =>
    obtain ⟨ha, hres, -⟩ := ih
    have hsteps := wp_of_run (step_flow g ctx ha.knows hc hres) hstep
    have ha' := ha.step hres hc hstep trivial
    refine ⟨ha', .inl (hsteps.resumed _ rfl trivial), fun _ _ => ?_⟩
    have hlt := hsteps.inside rfl
    rw [ha'.code_eq] at hlt
    exact hlt
  | call _ hc hstep hresume ih =>
    obtain ⟨ha, hres, -⟩ := ih
    have hresumed := resume_call_resumed hresume
    exact ⟨(ha.step hres hc hstep trivial).resumed hresumed, hresumed.resumable,
      fun hnone => absurd hnone hresumed.resume_result⟩
  | create _ hc hstep hresume ih =>
    obtain ⟨ha, hres, -⟩ := ih
    have hresumed := resume_create_resumed hresume
    exact ⟨(ha.step hres hc hstep trivial).resumed hresumed, hresumed.resumable,
      fun hnone => absurd hnone hresumed.resume_result⟩

/-- Control flow integrity. Whatever steps, calls, creations and results lead to the interpreter,
    its return positions follow the pending `JUMPSUB`s and are not too many. Where the next step
    fetches an opcode, the position is inside the code and on its sweep, and the step goes on only
    as the instruction there says; it never goes on over a `BEGINSUB`. A step that fetches nothing
    stays where it is. The cache of destinations stays faithful for the other interpreters. -/
theorem control_flow_integrity {params : ActionParams}
    (hcode : ∀ hash, params.code_hash = some hash → codeOf hash = code)
    (hrun : Runs g ctx codeOf (new params code) i sites) :
    i.return_stack = sites.map (· + 1) ∧ (∀ site ∈ sites, SweptAt code .JUMPSUB site) ∧
      i.return_stack.length ≤ MAX_SUB_STACK_SIZE ∧
      (i.Fetches → i.position < code.length ∧ Swept code i.position) ∧
      ∀ h r i' h', h.shared_cache.Faithful codeOf →
        (step g ctx).run (i, h) = .ok (.ok r, (i', h')) →
        h'.shared_cache.Faithful codeOf ∧
        (i.Fetches → r.GoesOn → ∃ instruction, i.fetched = some instruction ∧
          StepFlow instruction i i') ∧
        (i.Fetches → i.fetched = some .RETURNSUB → r.GoesOn →
          ∃ site rest, sites = site :: rest ∧ i'.position = site + 1) ∧
        (i.Fetches → i.fetched = some .BEGINSUB →
          ∃ e, r = .Done (.error e) ∧ BeginSubError g.spec i e) ∧
        (¬i.Fetches → r.GoesOn → SameFlow i.toLocal i'.toLocal) := by
  obtain ⟨ha, hres, hinside⟩ := aligned_of_runs hcode hrun
  refine ⟨ha.returns, ha.sites, ha.bound, ?_, ?_⟩
  · rintro ⟨-, -, hne, hnone⟩
    rw [ha.code_eq] at hne
    exact ⟨hinside hnone hne, ha.swept⟩
  intro h r i' h' hc hstep
  have hsteps := wp_of_run (step_flow g ctx ha.knows hc hres) hstep
  refine ⟨hsteps.cache, ?_, ?_, ?_, ?_⟩
  · rintro ⟨-, -, -, hnone⟩ hgo
    exact hsteps.fetches r rfl hgo hnone
  · rintro ⟨-, -, -, hnone⟩ hins hgo
    obtain ⟨instruction, hins', hflow⟩ := hsteps.fetches r rfl hgo hnone
    obtain rfl : .RETURNSUB = instruction := Option.some_inj.mp (hins.symm.trans hins')
    have hreturns : i'.position :: i'.return_stack = sites.map (· + 1) :=
      Eq.trans (Eq.symm hflow) ha.returns
    cases hsites : sites with
    | nil =>
      rw [hsites] at hreturns
      cases hreturns
    | cons site rest =>
      rw [hsites] at hreturns
      exact ⟨site, rest, rfl, (List.cons.inj hreturns).1⟩
  · intro hfetches hins
    obtain ⟨e, hr, he⟩ := wp_of_run (begin_sub_fails g ctx hfetches hins) hstep
    exact ⟨e, Except.ok.inj hr, he⟩
  · intro hnot hgo
    obtain ⟨hdone, hgas, hne⟩ := hsteps.ran r rfl hgo
    exact hsteps.stays r rfl hgo fun hnone => hnot ⟨hdone, hgas, hne, hnone⟩

end

end

end

section
attribute [local instance] keccakOfEmpty

/-- Code with a subroutine that returns at once: `PUSH1 4`, `JUMPSUB`, `STOP`, `BEGINSUB`,
    `RETURNSUB`. -/
def subroutineCode : Bytes := [0x60, 0x04, 0x5e, 0x00, 0x5c, 0x5d]

def subroutineCall : ActionParams where
  code_address := 1
  code_hash := some 1
  address := 1
  sender := 7
  original_sender := 7
  gas := 100
  gas_price := 0
  value := .Transfer 0
  code := some subroutineCode
  data := some []
  call_type := .Call
  create_type := .None
  params_type := .Separate

def subroutineContext : FrameContext := ⟨0, false, .of_params subroutineCall, false⟩

/-- The subroutine returns to the position after the jump to it. -/
theorem subroutine_returns :
    ∃ i : Interpreter .usize, Runs bareMachine subroutineContext (fun _ => subroutineCode)
        (new subroutineCall subroutineCode) i [2] ∧ i.return_stack = [3] ∧
      ∃ h' i', (step bareMachine subroutineContext).run (i, emptyHost) =
        .ok (.ok .Continue, (i', h')) ∧ i'.position = 3 := by
  have hcache : emptyHost.shared_cache.Faithful fun _ => subroutineCode := fun _ h => nomatch h
  have hrun : ∃ i : Interpreter .usize, Runs bareMachine subroutineContext (fun _ => subroutineCode)
      (new subroutineCall subroutineCode) i [2] ∧ i.Fetches ∧ i.fetched = some .RETURNSUB ∧
      ∃ h' i', (step bareMachine subroutineContext).run (i, emptyHost) =
        .ok (.ok .Continue, (i', h')) := by
    have hstart : Runs bareMachine subroutineContext (fun _ => subroutineCode)
      (new subroutineCall subroutineCode : Interpreter .usize) _ [] := .start
    have hpush := hstart.step hcache rfl
    have hjump := hpush.step hcache rfl
    exact ⟨_, hjump, ⟨rfl, rfl, List.cons_ne_nil _ _, rfl⟩, rfl, _, _, rfl⟩
  obtain ⟨i, hrun, hfetches, hins, h', i', hstep⟩ := hrun
  have hflow := control_flow_integrity (fun _ _ => rfl) hrun
  refine ⟨i, hrun, hflow.1, h', i', hstep, ?_⟩
  obtain ⟨-, -, hreturns, -⟩ := hflow.2.2.2.2 _ _ _ _ hcache hstep
  obtain ⟨site, rest, hsites, hpos⟩ := hreturns hfetches hins trivial
  cases hsites
  exact hpos

end

end Interpreter

end CfxEvm
