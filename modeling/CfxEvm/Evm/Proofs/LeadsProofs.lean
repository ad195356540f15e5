import CfxEvm.Evm.Proofs.OwnCodeProofs

/-!
# Proofs: where the flow of a code can lead

The positions that the flow of a code can lead to are told by the code alone. If none of them is an
end of the code or holds an instruction that ends it well, then whatever an execution of the code
goes through, it ends with an error or a revert, or not at all.
-/

open Lib Lib.Prog

namespace CfxEvm

/-- The execution goes on behind the instruction, at once or when a subroutine has returned. -/
def Instruction.falls_through : Instruction → Bool
  | .STOP | .JUMP | .RETURN | .REVERT | .SUICIDE | .RETURNSUB | .BEGINSUB => false
  | _ => true

/-- The instruction at a position of a code. -/
def instruction_at (code : Bytes) (pos : ℕ) : Option Instruction :=
  code[pos]?.bind Instruction.from_u8

/-- The positions that the flow of a code can lead to. The destinations of a jump are looked up
    under the hash of the code, so that those of another code with this hash count as well. -/
inductive Leads [Keccak] (code : Bytes) : ℕ → Prop
  | start : Leads code 0
  | next {pos : ℕ} {instruction : Instruction} (h : Leads code pos)
      (hins : instruction_at code pos = some instruction)
      (hfalls : instruction.falls_through = true) :
      Leads code (pos + 1 + instruction.push_bytes.getD 0)
  | jump {pos dest : ℕ} {code' : Bytes} (h : Leads code pos)
      (hins : instruction_at code pos = some .JUMP ∨ instruction_at code pos = some .JUMPI)
      (hcode : keccak code' = keccak code)
      (hdest : dest ∈ (SharedCache.find_jump_and_sub_destinations code').jump_destination.members) :
      Leads code dest
  | jumpsub {pos dest : ℕ} {code' : Bytes} (h : Leads code pos)
      (hins : instruction_at code pos = some .JUMPSUB) (hcode : keccak code' = keccak code)
      (hdest : dest ∈ (SharedCache.find_jump_and_sub_destinations code').sub_entrypoint.members) :
      Leads code (dest + 1)

/-- The flow leads neither to the end of the code nor to an instruction that ends it well. -/
def CannotEnd [Keccak] (code : Bytes) : Prop :=
  ∀ pos, Leads code pos → pos < code.length ∧ instruction_at code pos ≠ some .STOP ∧
    instruction_at code pos ≠ some .RETURN ∧ instruction_at code pos ≠ some .SUICIDE

/-- The code ended with an error or a revert. -/
def EndsBadly : Except VmError GasLeft → Prop
  | .ok (.Known _) => False
  | .ok (.NeedsReturn _ _ apply_state) => apply_state = false
  | .error _ => True

namespace Interpreter

variable {c : CostType}

/-! ## The instructions that end a code -/

/-- Only some instructions end the code, and only one of those returns data that is applied; a
    revert always ends it. -/
def EndsBy (instruction : Instruction) : InstructionResult c → Prop
  | .StopExecution => instruction = .STOP ∨ instruction = .SUICIDE
  | .StopExecutionNeedsReturn _ _ _ apply => apply = true → instruction = .RETURN
  | _ => instruction ≠ .REVERT

variable [Keccak] {g : Globals} {ctx : FrameContext}

theorem exec_instruction_ends {params : InterpreterParams} (code : Bytes) (gas : Cost c)
    (instruction : Instruction) (provided : Option (Cost c)) :
    Yields (EndsBy instruction)
      (exec_instruction g ctx params code gas instruction provided) := by
  cases instruction
  case CREATE | CREATE2 =>
    refine .seq fun _ => .seq fun _ => .seq fun _ => .seq fun _ => .seq fun _ =>
      .ite (fun _ => .fail _) fun _ => .seq fun _ => .seq fun _ => .ite (fun _ => ?_) fun _ => ?_
    · exact .seq fun _ => .seq fun _ => .pure fun h => nomatch h
    · exact .seq fun _ => .pure fun h => nomatch h
  case CALL | CALLCODE | DELEGATECALL | STATICCALL =>
    refine .seq fun _ => .seq fun _ => .seq fun _ => .seq fun _ => .seq fun _ => .seq fun _ =>
      .seq fun _ => .seq fun _ => .seq fun _ => .seq fun _ => .seq fun _ => .seq fun _ =>
      .ite (fun _ => ?_) fun _ => ?_
    · exact .seq fun _ => .seq fun _ => .seq fun _ => .pure fun h => nomatch h
    · exact .seq fun _ => .pure fun h => nomatch h
  case BEGINSUB => exact .fail _
  case JUMPI =>
    refine .seq fun _ => .seq fun condition => .pure ?_
    cases condition.is_zero <;> exact fun h => nomatch h
  case JUMPSUB =>
    exact .seq fun _ => .ite (fun _ => .fail _) fun _ => .seq fun _ => .pure fun h => nomatch h
  case RETURNSUB =>
    refine .seq fun stack => ?_
    cases stack with
    | nil => exact .fail _
    | cons pos rest => exact .seq fun _ => .pure fun h => nomatch h
  case STOP => exact .pure (.inl rfl)
  case SUICIDE => exact .seq fun _ => .seq fun _ => .pure (.inr rfl)
  case RETURN => exact .seq fun _ => .seq fun _ => .pure fun _ => rfl
  case REVERT => exact .seq fun _ => .seq fun _ => .pure fun h => nomatch h
  all_goals
    unfold exec_instruction
    repeat' first
      | exact .pure fun h => nomatch h
      | refine .seq fun _ => ?_

theorem exec_next_ends (i : Interpreter c) (h : Host State) :
    wp (exec_next g ctx) (fun _ => True) (fun r _ => ∀ result, r = .ok result →
      ∀ instruction, i.fetched = some instruction → EndsBy instruction result) (i, h) := by
  refine wp_bind.mpr (wp_gets.mpr (wp_bind.mpr (wp_expect (fun _ => trivial) fun opcode hop => ?_)))
  refine wp_bind.mpr (wp_update.mpr ?_)
  rcases hins : Instruction.from_u8 opcode with _ | instruction
  · rintro result ⟨⟩
  have hends : Yields (EndsBy instruction) (do
      verify_instruction g.spec i.stack.length instruction.info
      let gasometer ← get_gasometer
      let requirements ← onStepHost
        (gasometer.requirements g ctx instruction i.stack i.mem.length)
      Prog.ofExcept (gasometer.verify_gas requirements.gas_cost)
      let current_gas ← Prog.expect .cost_underflow
        (Cost.checked_sub gasometer.current_gas requirements.gas_cost)
      modify fun i =>
        { i with
          mem := Memory.expand i.mem requirements.memory_required_size
          gasometer := some ⟨current_gas, requirements.memory_total_gas⟩ }
      onExec (exec_instruction g ctx i.params i.code current_gas instruction
        requirements.provide_gas) : StepM c (InstructionResult c)) :=
    .seq fun _ => .seq fun _ => .seq fun _ => .seq fun _ => .seq fun _ => .seq fun _ =>
      .zoom (exec_instruction_ends _ _ _ _)
  refine wp_post (hends _) fun r _ hr result hresult instruction' hfetched => ?_
  rw [fetched, hop, Option.bind_some, hins] at hfetched
  obtain rfl := Option.some.inj hfetched
  exact hr result hresult

/-! ## Following the flow -/

/-- The interpreter runs the code with destinations of its own, and has positions of the code to
    return to. -/
structure RunsOn (code : Bytes) (i : Interpreter c) : Prop where
  own : i.OwnCode
  code_eq : i.code = code
  returns : ∀ pos ∈ i.return_stack, Leads code pos

/-- The interpreter is at a position that the flow of the code leads to. -/
structure LedBy (code : Bytes) (i : Interpreter c) : Prop extends RunsOn code i where
  leads : Leads code i.position

/-- Where the flow goes with the result of an instruction. -/
def Heads (code : Bytes) (i : Interpreter c) : InstructionResult c → Prop
  | .JumpToPosition _ => ∀ code' dest, keccak code' = keccak code →
      dest ∈ (SharedCache.find_jump_and_sub_destinations code').jump_destination.members →
      Leads code dest
  | .JumpToSubroutine _ => Leads code i.position ∧ ∀ code' dest, keccak code' = keccak code →
      dest ∈ (SharedCache.find_jump_and_sub_destinations code').sub_entrypoint.members →
      Leads code (dest + 1)
  | .ReturnFromSubroutine pos => Leads code pos
  | .StopExecution => False
  | .StopExecutionNeedsReturn _ _ _ apply => apply = false
  | _ => Leads code i.position

/-- What a step of an interpreter that is led by the code comes to: it goes on with one that is, or
    it ends badly. -/
def StaysLed (code : Bytes) (r : Except VmError InterpreterResult)
    (p : Interpreter c × Host State) : Prop :=
  ∀ res, r = .ok res → (res.GoesOn → LedBy code p.1) ∧ ∀ ended, res = .Done ended → EndsBadly ended

section
variable {code : Bytes} {i i₁ : Interpreter c} {h : Host State}

theorem RunsOn.of_sameJumps (h : RunsOn code i) (hsame : SameJumps i i₁)
    (hreturns : ∀ pos ∈ i₁.return_stack, Leads code pos) : RunsOn code i₁ :=
  ⟨h.own.of_sameJumps hsame, hsame.code.trans h.code_eq, hreturns⟩

/-- After an instruction that cannot end the code well the flow heads on. -/
theorem heads_of_flow {instruction : Instruction} {result : InstructionResult c}
    (hled : LedBy code i) (hcannot : CannotEnd code) (hfetched : i.fetched = some instruction)
    (hsame : SameJumps i i₁)
    (hflow : InstructionFlow instruction { i.toLocal with position := i.position + 1 } i₁.toLocal
      result) (hends : EndsBy instruction result) : RunsOn code i₁ ∧ Heads code i₁ result := by
  have hins : instruction_at code i.position = some instruction := by
    rw [← hled.code_eq]
    exact hfetched
  obtain ⟨-, hstop, hreturn, hsuicide⟩ := hcannot i.position hled.leads
  have hsameReturns : i₁.return_stack = i.return_stack → RunsOn code i₁ := fun heq =>
    hled.toRunsOn.of_sameJumps hsame (heq ▸ hled.returns)
  have hnext : instruction.falls_through = true → Leads code (i.position + 1 +
      instruction.push_bytes.getD 0) := fun hfalls => hled.leads.next hins hfalls
  cases instruction
  case JUMP =>
    obtain ⟨⟨-, hreturns⟩, jump, -, rfl⟩ := hflow
    exact ⟨hsameReturns hreturns, fun code' dest => hled.leads.jump (.inl hins)⟩
  case JUMPI =>
    obtain ⟨⟨hpos, hreturns⟩, jump, condition, -, -, rfl⟩ := hflow
    refine ⟨hsameReturns hreturns, ?_⟩
    cases condition.is_zero with
    | true =>
      show Leads code i₁.position
      rw [hpos]
      exact hnext rfl
    | false => exact fun code' dest => hled.leads.jump (.inr hins)
  case JUMPSUB =>
    obtain ⟨⟨hpos, hreturns⟩, -, jump, -, rfl⟩ := hflow
    exact ⟨hsameReturns hreturns, hpos ▸ hnext rfl, fun code' dest => hled.leads.jumpsub hins⟩
  case RETURNSUB =>
    obtain ⟨-, pos, hreturns, rfl⟩ := hflow
    have hall := hled.returns
    rw [show i.return_stack = pos :: i₁.return_stack from hreturns] at hall
    exact ⟨hled.toRunsOn.of_sameJumps hsame fun pos' hmem =>
      hall pos' (List.mem_cons_of_mem _ hmem),
      hall pos List.mem_cons_self⟩
  case BEGINSUB => exact hflow.elim
  case STOP => exact absurd hins hstop
  case RETURN => exact absurd hins hreturn
  case SUICIDE => exact absurd hins hsuicide
  case REVERT =>
    obtain ⟨-, hreturns, hfalls⟩ := hflow
    refine ⟨hsameReturns hreturns, ?_⟩
    cases result
    case StopExecution => rcases hends with h | h <;> cases h
    case StopExecutionNeedsReturn gas off size apply =>
      cases apply with
      | true => cases hends rfl
      | false => rfl
    all_goals exact absurd rfl hends
  all_goals
    obtain ⟨hpos, hreturns, hfalls⟩ := hflow
    refine ⟨hsameReturns hreturns, ?_⟩
    cases result
    case JumpToPosition | JumpToSubroutine | ReturnFromSubroutine => exact hfalls.elim
    case StopExecution => rcases hends with h | h <;> cases h
    case StopExecutionNeedsReturn gas off size apply =>
      cases apply with
      | true => cases hends rfl
      | false => rfl
    all_goals
      show Leads code i₁.position
      rw [hpos]
      exact hnext rfl

theorem check_end_led (hled : LedBy code i) (hcannot : CannotEnd code) :
    wp check_end (fun _ => True) (StaysLed code) (i, h) := by
  have hlt := (hcannot i.position hled.leads).1
  rw [← hled.code_eq] at hlt
  refine wp_bind.mpr (wp_gets.mpr (wp_ite (fun hle => absurd hlt (not_lt.mpr hle)) fun _ => ?_))
  rintro _ ⟨⟩
  exact ⟨fun _ => hled, fun _ h => nomatch h⟩

/-- Looking up destinations moves nothing. -/
theorem jump_destinations_still :
    wp jump_destinations (fun _ => True) (fun _ p => p.1.toLocal = i.toLocal ∧ p.1.code = i.code)
      (i, h) := by
  refine wp_bind.mpr (wp_gets.mpr ?_)
  rcases i.valid_jump_destinations with _ | dests
  · exact wp_bind.mpr (wp_gets.mpr (wp_bind.mpr (wp_update.mpr ⟨rfl, rfl⟩)))
  · exact ⟨rfl, rfl⟩

theorem subroutine_destinations_still :
    wp subroutine_destinations (fun _ => True)
      (fun _ p => p.1.toLocal = i.toLocal ∧ p.1.code = i.code) (i, h) := by
  refine wp_bind.mpr (wp_gets.mpr ?_)
  rcases i.valid_subroutine_destinations with _ | dests
  · exact wp_bind.mpr (wp_gets.mpr (wp_bind.mpr (wp_update.mpr ⟨rfl, rfl⟩)))
  · exact ⟨rfl, rfl⟩

theorem staysLed_error {e : VmError} {p : Interpreter c × Host State} :
    StaysLed code (.error e) p := fun _ hr => nomatch hr

/-- Moving on keeps to the flow. -/
theorem advance_led {result : InstructionResult c} (hruns : RunsOn code i)
    (hheads : Heads code i result) (hcannot : CannotEnd code) (hcache : h.shared_cache.Hashed) :
    wp (advance result) (fun _ => True) (StaysLed code) (i, h) := by
  -- A jump leaves the interpreter at the position and with the positions to return to.
  have hmove : ∀ {pos : ℕ} {l : List ℕ}, Leads code pos → (∀ pos ∈ l, Leads code pos) →
      ∀ (i₁ : Interpreter c) (h₁ : Host State), i₁.OwnCode → i₁.code = code →
      wp check_end (fun _ => True) (StaysLed code)
        ({ i₁ with position := pos, return_stack := l }, h₁) :=
    fun hleads hreturns i₁ h₁ hown hcode => check_end_led
      ⟨⟨hown.of_sameJumps ⟨rfl, rfl, rfl, rfl⟩, hcode, hreturns⟩, hleads⟩ hcannot
  cases result with
  | Trap trap =>
    rintro _ ⟨⟩
    exact ⟨fun _ => ⟨hruns, hheads⟩, fun _ h => nomatch h⟩
  | Ok => exact check_end_led ⟨hruns, hheads⟩ hcannot
  | UnusedGas gas =>
    refine wp_bind.mpr (wp_bind.mpr (wp_gets.mpr (wp_expect (fun _ => trivial) fun m _ => ?_)))
    refine wp_bind.mpr (wp_expect (fun _ => trivial) fun sum _ => wp_bind.mpr (wp_update.mpr ?_))
    exact check_end_led ⟨hruns.of_sameJumps ⟨rfl, rfl, rfl, rfl⟩ hruns.returns, hheads⟩ hcannot
  | JumpToPosition jump =>
    refine wp_bind.mpr (wp_post (wp_and (wp_own_jump_destinations ⟨hruns.own, hcache⟩)
      jump_destinations_still) ?_)
    rintro (e | dests) ⟨i₁, h₁⟩ ⟨⟨⟨hown, -⟩, hdests⟩, hlocal, hcode⟩
    · exact staysLed_error
    refine wp_bind.mpr (wp_ofExcept.mpr ?_)
    rcases hjump : verify_jump jump dests with e | pos
    · exact staysLed_error
    obtain ⟨hmem, rfl⟩ := verify_jump_ok hjump
    obtain ⟨code', hhash, rfl⟩ := hdests dests rfl
    rw [hruns.code_eq] at hhash
    have hreturns : i₁.return_stack = i.return_stack := congrArg Local.return_stack hlocal
    refine wp_bind.mpr (wp_update.mpr ?_)
    exact hmove (hheads code' _ hhash hmem) (hreturns ▸ hruns.returns) i₁ h₁ hown
      (hcode.trans hruns.code_eq)
  | JumpToSubroutine jump =>
    refine wp_bind.mpr (wp_post (wp_and (wp_own_subroutine_destinations ⟨hruns.own, hcache⟩)
      subroutine_destinations_still) ?_)
    rintro (e | dests) ⟨i₁, h₁⟩ ⟨⟨⟨hown, -⟩, hdests⟩, hlocal, hcode⟩
    · exact staysLed_error
    refine wp_bind.mpr (wp_ofExcept.mpr ?_)
    rcases hjump : verify_jump jump dests with e | pos
    · exact staysLed_error
    obtain ⟨hmem, rfl⟩ := verify_jump_ok hjump
    obtain ⟨code', hhash, rfl⟩ := hdests dests rfl
    rw [hruns.code_eq] at hhash
    have hreturns : i₁.return_stack = i.return_stack := congrArg Local.return_stack hlocal
    have hpos : i₁.position = i.position := congrArg Local.position hlocal
    refine wp_bind.mpr (wp_update.mpr ?_)
    refine hmove (hheads.2 code' _ hhash hmem) ?_ i₁ h₁ hown (hcode.trans hruns.code_eq)
    intro pos hpos'
    rw [hpos, hreturns] at hpos'
    rcases List.mem_cons.mp hpos' with rfl | hpos'
    · exact hheads.1
    · exact hruns.returns pos hpos'
  | ReturnFromSubroutine pos =>
    exact wp_bind.mpr (wp_update.mpr (hmove hheads hruns.returns i h hruns.own hruns.code_eq))
  | StopExecutionNeedsReturn gas init_off init_size apply =>
    refine wp_bind.mpr (wp_gets.mpr (wp_bind.mpr (wp_update.mpr ?_)))
    refine wp_bind.mpr (wp_expect (fun _ => trivial) fun data _ => ?_)
    rintro _ ⟨⟩
    refine ⟨fun hgo => hgo.elim, ?_⟩
    rintro _ ⟨⟩
    exact hheads
  | StopExecution => exact hheads.elim

/-- A step of an interpreter that is led by a code which cannot end well goes on with one that is,
    or ends badly. -/
theorem step_led (hled : LedBy code i) (hres : i.Resumable) (hcannot : CannotEnd code)
    (hcache : h.shared_cache.Hashed) :
    wp (step g ctx) (fun _ => True) (StaysLed code) (i, h) := by
  have hdone : ∀ (e : VmError) (p : Interpreter c × Host State),
      wp (mark_done (.Done (.error e))) (fun _ => True) (StaysLed code) p := by
    rintro e p _ ⟨⟩
    refine ⟨fun hgo => hgo.elim, ?_⟩
    rintro _ ⟨⟩
    trivial
  refine wp_bind.mpr (wp_gets.mpr (wp_ite (fun _ => ?_) fun _ => ?_))
  · rintro _ ⟨⟩
    exact ⟨fun hgo => hgo.elim, fun _ h => nomatch h⟩
  rcases hm : i.gasometer with _ | m
  · exact hdone _ _
  refine wp_ite (fun hempty => ?_) fun _ => ?_
  · have hlt := (hcannot 0 .start).1
    rw [← hled.code_eq, List.isEmpty_iff.mp hempty] at hlt
    exact absurd hlt (Nat.not_lt_zero 0)
  have hmarked : ∀ (res : InterpreterResult) (p : Interpreter c × Host State),
      StaysLed code (.ok res) p → wp (mark_done res) (fun _ => True) (StaysLed code) p := by
    intro res p hr
    cases res with
    | Done ended =>
      rintro _ ⟨⟩
      exact ⟨fun hgo => hgo.elim, (hr _ rfl).2⟩
    | Continue => exact hr
    | Trap trap => exact hr
    | Stopped => exact hr
  refine wp_bind.mpr (wp_result.mpr (wp_bind.mpr (wp_bind.mpr (wp_gets.mpr ?_))))
  rcases hwaits : i.resume_result with _ | result
  · refine wp_post (wp_and (exec_next_flow i h) (exec_next_ends i h)) ?_
    rintro (e | result) ⟨i₁, h₁⟩ ⟨⟨hsame_cache, -, hsame, -, hflow⟩, hends⟩
    · exact hdone e _
    obtain ⟨instruction, hfetched, hflow⟩ := hflow result rfl
    obtain ⟨hruns, hheads⟩ := heads_of_flow hled hcannot hfetched hsame hflow
      (hends result rfl instruction hfetched)
    refine wp_post (advance_led hruns hheads hcannot (hsame_cache ▸ hcache)) ?_
    rintro (e | res) p hr
    · exact hdone e p
    · exact hmarked res p hr
  · refine wp_bind.mpr (wp_update.mpr (wp_pure.mpr ?_))
    have hruns : RunsOn code { i with resume_result := none } :=
      hled.toRunsOn.of_sameJumps ⟨rfl, rfl, rfl, rfl⟩ hled.returns
    have hheads : Heads code { i with resume_result := none } result := by
      rcases hres with hr | hr | ⟨gas, hr⟩ <;> rw [hwaits] at hr <;> cases hr <;>
        exact hled.leads
    refine wp_post (advance_led hruns hheads hcannot hcache) ?_
    rintro (e | res) p hr
    · exact hdone e p
    · exact hmarked res p hr

/-- A result that is taken up leaves the interpreter where it is. -/
theorem LedBy.resumed (h : LedBy code i) (hresumed : Resumed i i₁) : LedBy code i₁ where
  toRunsOn := h.toRunsOn.of_sameJumps hresumed.jumps (by rw [hresumed.flow.2]; exact h.returns)
  leads := by
    rw [hresumed.flow.1]
    exact h.leads

theorem ledBy_new {params : ActionParams}
    (hhash : params.code_hash = none ∨ params.code_hash = some (keccak code)) :
    LedBy code (new params code : Interpreter c) :=
  ⟨⟨ownCode_new hhash, rfl, fun _ h => nomatch h⟩, .start⟩

end

end Interpreter

end CfxEvm
