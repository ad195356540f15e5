import CfxEvm.Evm.Proofs.GasProofs
import CfxEvm.Evm.Proofs.HostProofs

/-!
# Proofs: what an interpreter keeps and what it traps into

A step never changes the code or the parameters of the interpreter, and it traps only into what one
of the instructions that call or create asks for. So a fact about every call and creation of these
instructions is one about every trap of the interpreter.
-/

open Lib Lib.Prog

namespace CfxEvm

/-- What the first host has, the second has. -/
instance impliesPreorder {I : Host State → Prop} :
    IsPreorder (Host State) fun h h' => I h → I h' where
  refl _ := id
  trans _ _ _ h h' := h' ∘ h

namespace Interpreter

variable {c : CostType}

/-! ## The code and the parameters -/

/-- The code and the parameters stay as they are, and there is no result of another kind to take
    up. -/
def SameCode (p q : Interpreter c × Host State) : Prop :=
  q.1.params = p.1.params ∧ q.1.code = p.1.code ∧ (p.1.Resumable → q.1.Resumable)

instance : IsPreorder (Interpreter c × Host State) SameCode where
  refl _ := ⟨rfl, rfl, id⟩
  trans _ _ _ h h' := ⟨h'.1.trans h.1, h'.2.1.trans h.2.1, h'.2.2 ∘ h.2.2⟩

theorem onExec_sameCode {α : Type} (x : ExecM α) : Keeps SameCode (onExec x : StepM c α) :=
  .zoom (R := fun _ _ => True) (fun _ => wp_intro (fun _ _ => trivial) fun _ _ _ => trivial)
    fun _ _ _ => ⟨rfl, rfl, id⟩

theorem onStepHost_sameCode {α : Type} (x : HostM α) :
    Keeps SameCode (onStepHost x : StepM c α) :=
  .zoom (R := fun _ _ => True) (fun _ => wp_intro (fun _ _ => trivial) fun _ _ _ => trivial)
    fun _ _ _ => ⟨rfl, rfl, id⟩

variable [Keccak] {g : Globals} {ctx : FrameContext}

theorem exec_next_sameCode : Keeps SameCode (exec_next g ctx : StepM c _) := by
  refine .bind (.gets _) fun self => .bind (.expect _ _) fun opcode =>
    .bind (.update fun _ => ⟨rfl, rfl, id⟩) fun _ => ?_
  cases Instruction.from_u8 opcode with
  | none => exact .fail _
  | some instruction =>
    refine .bind ?_ fun _ => .bind (.bind (.gets _) fun _ => .expect _ _) fun _ =>
      .bind (onStepHost_sameCode _) fun _ => .bind (.ofExcept _) fun _ =>
      .bind (.expect _ _) fun _ => .bind (.update fun _ => ⟨rfl, rfl, id⟩) fun _ =>
        onExec_sameCode _
    exact .ite (fun _ => .fail _) fun _ =>
      .ite (fun _ => .bind (.assert _ _) fun _ => .fail _) fun _ => .pure _

/-! ## Relations that a step keeps -/

/-- What is asked of a relation for a step to keep it: that the next instruction keeps it, and the
    lookup of destinations, and that it does not look at the rest of what moving on changes. -/
structure StepKeeps (g : Globals) (ctx : FrameContext)
    (R : Interpreter c × Host State → Interpreter c × Host State → Prop) : Prop where
  exec_next : Keeps R (exec_next g ctx)
  jump_destinations : Keeps R jump_destinations
  subroutine_destinations : Keeps R subroutine_destinations
  onLocal : ∀ i h l, R (i, h) ({ i with toLocal := l }, h)
  gasometer : ∀ i h m, R (i, h) ({ i with gasometer := m }, h)
  taken_up : ∀ i h, R (i, h) ({ i with resume_result := none }, h)
  done : ∀ i h, R (i, h) ({ i with done := true }, h)

namespace StepKeeps

variable {R : Interpreter c × Host State → Interpreter c × Host State → Prop}
  [IsPreorder (Interpreter c × Host State) R]

omit [Keccak] in
theorem known_gas : Keeps R (Interpreter.known_gas : StepM c _) :=
  .bind (.bind (.gets _) fun _ => .expect _ _) fun _ => .pure _

omit [Keccak] in
theorem check_end : Keeps R (Interpreter.check_end : StepM c _) :=
  .bind (.gets _) fun _ => .ite (fun _ => known_gas) fun _ => .pure _

variable (hR : StepKeeps g ctx R)
include hR

theorem mark_done (result : InterpreterResult) : Keeps R (Interpreter.mark_done result) := by
  cases result with
  | Done r => exact .bind (.update fun p => hR.done p.1 p.2) fun _ => .pure _
  | Stopped => exact .pure _
  | Continue => exact .pure _
  | Trap trap => exact .pure _

theorem advance (result : InstructionResult c) : Keeps R (Interpreter.advance result) := by
  cases result with
  | Ok => exact check_end
  | UnusedGas gas =>
    exact .bind (.bind (.gets _) fun _ => .expect _ _) fun _ => .bind (.expect _ _) fun _ =>
      .bind (.update fun p => hR.gasometer p.1 p.2 _) fun _ => check_end
  | JumpToPosition position =>
    exact .bind hR.jump_destinations fun _ => .bind (.ofExcept _) fun _ =>
      .bind (.update fun p => hR.onLocal p.1 p.2 _) fun _ => check_end
  | JumpToSubroutine position =>
    exact .bind hR.subroutine_destinations fun _ => .bind (.ofExcept _) fun _ =>
      .bind (.update fun p => hR.onLocal p.1 p.2 _) fun _ => check_end
  | ReturnFromSubroutine pos =>
    exact .bind (.update fun p => hR.onLocal p.1 p.2 _) fun _ => check_end
  | StopExecutionNeedsReturn gas init_off init_size apply =>
    exact .bind (.gets _) fun _ => .bind (.update fun p => hR.onLocal p.1 p.2 _) fun _ =>
      .bind (.expect _ _) fun _ => .pure _
  | StopExecution => exact known_gas
  | Trap trap => exact .pure _

theorem next_result : Keeps R (Interpreter.next_result g ctx) := by
  refine .bind (.gets _) fun resume_result => ?_
  cases resume_result with
  | some result => exact .bind (.update fun p => hR.taken_up p.1 p.2) fun _ => .pure _
  | none => exact hR.exec_next

/-- A step keeps the relation. -/
theorem step : Keeps R (Interpreter.step g ctx) := by
  refine .bind (.gets _) fun self => .ite (fun _ => .pure _) fun _ => ?_
  cases self.gasometer with
  | none => exact hR.mark_done _
  | some gasometer =>
    refine .ite (fun _ => hR.mark_done _) fun _ => .bind (.result ?_) ?_
    · exact .bind hR.next_result fun _ => hR.advance _
    · rintro (e | result)
      · exact hR.mark_done _
      · exact hR.mark_done _

end StepKeeps

theorem sameCode_stepKeeps : StepKeeps g ctx (SameCode (c := c)) where
  exec_next := exec_next_sameCode
  jump_destinations := by
    refine .bind (.gets _) fun dests => ?_
    cases dests with
    | some dests => exact .pure _
    | none =>
      exact .bind (.gets _) fun _ => .bind (.update fun _ => ⟨rfl, rfl, id⟩) fun _ => .pure _
  subroutine_destinations := by
    refine .bind (.gets _) fun dests => ?_
    cases dests with
    | some dests => exact .pure _
    | none =>
      exact .bind (.gets _) fun _ => .bind (.update fun _ => ⟨rfl, rfl, id⟩) fun _ => .pure _
  onLocal _ _ _ := ⟨rfl, rfl, id⟩
  gasometer _ _ _ := ⟨rfl, rfl, id⟩
  taken_up _ _ := ⟨rfl, rfl, fun _ => .inl rfl⟩
  done _ _ := ⟨rfl, rfl, id⟩

/-- A step changes neither the code nor the parameters. -/
theorem step_sameCode : Keeps SameCode (step g ctx : StepM c _) := sameCode_stepKeeps.step

/-! ## Traps -/

/-- A trap of an instruction, if that is what it comes to, is one of those that `T` says of the
    host it leaves. -/
def TrapsInto (T : TrapKind → Host State → Prop) (r : Except VmError (InstructionResult c))
    (h : Host State) : Prop :=
  ∀ trap, r = .ok (.Trap trap) → T trap h

/-- What the instructions with the parameters `params` may trap into, from hosts with `I`. -/
structure TrapsAllowed (c : CostType) (g : Globals) (ctx : FrameContext)
    (params : InterpreterParams) (I : Host State → Prop) (T : TrapKind → Host State → Prop) :
    Prop where
  create : ∀ (instruction : Instruction) (provided : Option (Cost c)) (l : Local) (h : Host State),
    I h → wp (exec_create g ctx params instruction provided) (fun _ => True)
      (fun r p => TrapsInto T r p.2) (l, h)
  call : ∀ (instruction : Instruction), is_call instruction → ∀ (provided : Option (Cost c))
    (l : Local) (h : Host State), I h → wp (exec_call g ctx params instruction provided)
      (fun _ => True) (fun r p => TrapsInto T r p.2) (l, h)

section
variable {params : InterpreterParams} {I : Host State → Prop} {T : TrapKind → Host State → Prop}

/-- The instructions that neither call nor create do not trap. -/
theorem exec_other_traps {instruction : Instruction} (hcall : ¬is_call instruction)
    (hcreate : instruction ≠ .CREATE ∧ instruction ≠ .CREATE2) (code : Bytes) (gas : Cost c)
    (provided : Option (Cost c)) :
    Yields (fun result => ∀ trap, result ≠ .Trap trap)
      (exec_instruction g ctx params code gas instruction provided) := by
  cases instruction
  case CALL => exact absurd (.inl rfl) hcall
  case CALLCODE => exact absurd (.inr (.inl rfl)) hcall
  case DELEGATECALL => exact absurd (.inr (.inr (.inl rfl))) hcall
  case STATICCALL => exact absurd (.inr (.inr (.inr rfl))) hcall
  case CREATE => exact absurd rfl hcreate.1
  case CREATE2 => exact absurd rfl hcreate.2
  case BEGINSUB => exact .fail _
  case JUMPI =>
    refine .seq fun _ => .seq fun condition => .pure ?_
    cases condition.is_zero <;> rintro _ ⟨⟩
  case JUMPSUB =>
    exact .seq fun _ => .ite (fun _ => .fail _) fun _ => .seq fun _ => .pure fun _ h => nomatch h
  case RETURNSUB =>
    refine .seq fun stack => ?_
    cases stack with
    | nil => exact .fail _
    | cons pos rest => exact .seq fun _ => .pure fun _ h => nomatch h
  -- the others end with a result that is no trap
  all_goals
    unfold exec_instruction
    repeat' first
      | exact .pure fun _ h => nomatch h
      | refine .seq fun _ => ?_

theorem exec_instruction_traps (hT : TrapsAllowed c g ctx params I T) (code : Bytes)
    (gas : Cost c) (instruction : Instruction) (provided : Option (Cost c)) (l : Local)
    {h : Host State} (hh : I h) :
    wp (exec_instruction g ctx params code gas instruction provided) (fun _ => True)
      (fun r p => TrapsInto T r p.2) (l, h) := by
  by_cases hcall : is_call instruction
  · have hwp := hT.call instruction hcall provided l h hh
    rcases hcall with rfl | rfl | rfl | rfl <;> exact hwp
  by_cases hcreate : instruction ≠ .CREATE ∧ instruction ≠ .CREATE2
  · refine wp_post (exec_other_traps hcall hcreate code gas provided (l, h)) ?_
    intro r p hr trap htrap
    exact absurd rfl (hr _ htrap trap)
  · have hwp := hT.create instruction provided l h hh
    have hcases : instruction = .CREATE ∨ instruction = .CREATE2 := by
      rw [not_and_or, not_not, not_not] at hcreate
      exact hcreate
    rcases hcases with rfl | rfl <;> exact hwp

theorem exec_next_traps (hI : HostKeeps g ctx fun h h' => I h → I h') {i : Interpreter c}
    (hT : TrapsAllowed c g ctx i.params I T) {h : Host State} (hh : I h) :
    wp (exec_next g ctx) (fun _ => True) (fun r p => TrapsInto T r p.2) (i, h) := by
  refine wp_bind.mpr (wp_gets.mpr ?_)
  refine wp_bind.mpr (wp_expect (fun _ => trivial) fun opcode _ => ?_)
  refine wp_bind.mpr (wp_update.mpr ?_)
  rcases Instruction.from_u8 opcode with _ | instruction
  · intro trap htrap
    cases htrap
  refine wp_seq (fun _ p => p = ({ i with position := i.position + 1 }, h)) ?_ ?_
  · refine wp_post (wp_verify_instruction _ _ _ _) ?_
    rintro (e | _) p hp
    · intro trap htrap
      cases htrap
    · exact hp
  rintro _ _ rfl
  refine wp_bind.mpr (wp_bind.mpr (wp_gets.mpr (wp_expect (fun _ => trivial) fun m _ => ?_)))
  refine wp_bind.mpr (wp_zoom.mpr (wp_post
    (Gasometer.requirements_keeps hI m instruction i.stack i.mem.length h) ?_))
  rintro (e | requirements) h₁ hh₁
  · intro trap htrap
    cases htrap
  refine wp_bind.mpr (wp_ofExcept.mpr ?_)
  rcases m.verify_gas requirements.gas_cost with e | _
  · intro trap htrap
    cases htrap
  refine wp_bind.mpr (wp_expect (fun _ => trivial) fun current_gas _ => ?_)
  exact wp_bind.mpr (wp_update.mpr (wp_zoom.mpr
    (exec_instruction_traps hT i.code current_gas instruction _ _ (hh₁ hh))))

/-- Moving on after an instruction does not trap unless the instruction did, and then leaves the
    host alone. -/
theorem advance_traps (result : InstructionResult c) (p : Interpreter c × Host State) :
    wp (advance result) (fun _ => True) (fun r p' => ∀ trap, r = .ok (.Trap trap) →
      result = .Trap trap ∧ p'.2 = p.2) p := by
  have hend : ∀ q : Interpreter c × Host State, wp check_end (fun _ => True)
      (fun r p' => ∀ trap, r = .ok (.Trap trap) → result = .Trap trap ∧ p'.2 = p.2) q := by
    intro q
    refine wp_bind.mpr (wp_gets.mpr (wp_ite (fun _ => ?_) fun _ => ?_))
    · refine wp_bind.mpr (wp_bind.mpr (wp_gets.mpr (wp_expect (fun _ => trivial) fun m _ => ?_)))
      intro trap htrap
      cases htrap
    · intro trap htrap
      cases htrap
  have hjump : ∀ (lookup : StepM c Bits) (position : U256) (f : Nat → Interpreter c →
    Interpreter c),
      wp (lookup >>= fun dests => ofExcept (verify_jump position dests) >>= fun pos =>
        modify (f pos) >>= fun _ => check_end) (fun _ => True)
        (fun r p' => ∀ trap, r = .ok (.Trap trap) → result = .Trap trap ∧ p'.2 = p.2) p := by
    intro lookup position f
    refine wp_seq (fun _ _ => True) (wp_intro (fun _ _ => trivial) ?_) fun dests q _ => ?_
    · rintro (e | dests) q _
      · intro trap htrap
        cases htrap
      · trivial
    refine wp_bind.mpr (wp_ofExcept.mpr ?_)
    rcases verify_jump position dests with e | pos
    · intro trap htrap
      cases htrap
    · exact wp_bind.mpr (wp_update.mpr (hend _))
  cases result with
  | Trap trap =>
    intro trap' htrap
    cases htrap
    exact ⟨rfl, rfl⟩
  | UnusedGas gas =>
    refine wp_bind.mpr (wp_bind.mpr (wp_gets.mpr (wp_expect (fun _ => trivial) fun m _ => ?_)))
    refine wp_bind.mpr (wp_expect (fun _ => trivial) fun sum _ => ?_)
    exact wp_bind.mpr (wp_update.mpr (hend _))
  | JumpToPosition position => exact hjump jump_destinations position _
  | JumpToSubroutine position => exact hjump subroutine_destinations position _
  | ReturnFromSubroutine pos => exact wp_bind.mpr (wp_update.mpr (hend _))
  | StopExecutionNeedsReturn gas init_off init_size apply =>
    refine wp_bind.mpr (wp_gets.mpr (wp_bind.mpr (wp_update.mpr ?_)))
    refine wp_bind.mpr (wp_expect (fun _ => trivial) fun data _ => ?_)
    intro trap htrap
    cases htrap
  | StopExecution =>
    refine wp_bind.mpr (wp_bind.mpr (wp_gets.mpr (wp_expect (fun _ => trivial) fun m _ => ?_)))
    intro trap htrap
    cases htrap
  | Ok => exact hend p

/-- A step traps only into what the instructions ask for. -/
theorem step_traps (hI : ContextKeeps g ctx fun h h' => I h → I h') {i : Interpreter c}
    (hT : TrapsAllowed c g ctx i.params I T) (hres : i.Resumable) {h : Host State} (hh : I h) :
    wp (step g ctx) (fun _ => True) (fun r p => ∀ trap, r = .ok (.Trap trap) → T trap p.2)
      (i, h) := by
  have hmark : ∀ (result : InterpreterResult) (p : Interpreter c × Host State),
      (∀ trap, result = .Trap trap → T trap p.2) →
      wp (mark_done result) (fun _ => True)
        (fun r p => ∀ trap, r = .ok (.Trap trap) → T trap p.2) p := by
    intro result p hr
    cases result <;> intro trap ht <;> cases ht
    exact hr _ rfl
  refine wp_bind.mpr (wp_gets.mpr (wp_ite (fun _ => ?_) fun _ => ?_))
  · intro trap ht
    cases ht
  rcases hm : i.gasometer with _ | m
  · exact hmark _ _ fun _ h => nomatch h
  refine wp_ite (fun _ => hmark _ _ fun _ h => nomatch h) fun _ => ?_
  refine wp_bind.mpr (wp_result.mpr (wp_seq (fun result p => TrapsInto T (.ok result) p.2) ?_ ?_))
  · refine wp_bind.mpr (wp_gets.mpr ?_)
    rcases hres with hr | hr | ⟨gas, hr⟩ <;> simp only [hr]
    · refine wp_post (exec_next_traps hI.toHostKeeps hT hh) ?_
      rintro (e | result) p hp
      · exact hmark _ _ fun _ h => nomatch h
      · exact hp
    · refine wp_bind.mpr (wp_update.mpr ?_)
      intro trap ht
      cases ht
    · refine wp_bind.mpr (wp_update.mpr ?_)
      intro trap ht
      cases ht
  · intro result p hp
    refine wp_post (advance_traps result p) ?_
    rintro (e | r) p' hadv
    · exact hmark _ _ fun _ h => nomatch h
    · refine hmark _ _ fun trap ht => ?_
      obtain ⟨rfl, hhost⟩ := hadv trap (congrArg Except.ok ht)
      rw [hhost]
      exact hp trap rfl

end

end Interpreter

end CfxEvm
