import CfxEvm.Evm.Proofs.FlowProofs
import CfxEvm.Evm.Proofs.MemoryProofs

/-!
# Proofs: what a step is made of

A step takes up a result, or it fetches an instruction, finds out what it needs, makes room for it
and executes it; then it moves on. What holds of every interpreter that is reached, on whatever
hosts and with whatever results, is shown step by step.
-/

open Lib Lib.Prog

namespace CfxEvm

namespace Interpreter

variable [Keccak] {g : Globals} {ctx : FrameContext} {c : CostType}

/-- The interpreters that steps lead to, from `i₀`, on any hosts. What an interpreter traps into may
    have any result. -/
inductive Visits (g : Globals) (ctx : FrameContext) (i₀ : Interpreter c) : Interpreter c → Prop
  | start : Visits g ctx i₀ i₀
  | step {i i' : Interpreter c} {h h' : Host State} {r : Except VmError InterpreterResult}
      (hrun : Visits g ctx i₀ i) (hstep : (step g ctx).run (i, h) = .ok (r, (i', h'))) :
      Visits g ctx i₀ i'
  | call {i i' i'' : Interpreter c} {h h' : Host State} {params : ActionParams}
      {result : MessageCallResult} (hrun : Visits g ctx i₀ i)
      (hstep : (step g ctx).run (i, h) = .ok (.ok (.Trap (.Call params)), (i', h')))
      (hresume : i'.resume_call result = .ok i'') : Visits g ctx i₀ i''
  | create {i i' i'' : Interpreter c} {h h' : Host State} {params : ActionParams}
      {result : ContractCreateResult} (hrun : Visits g ctx i₀ i)
      (hstep : (step g ctx).run (i, h) = .ok (.ok (.Trap (.Create params)), (i', h')))
      (hresume : i'.resume_create result = .ok i'') : Visits g ctx i₀ i''

/-! ## The next instruction -/

/-- The instruction that the next step pays for, with its requirements, if it is not refused. -/
def paying (g : Globals) (ctx : FrameContext) (i : Interpreter c) (h : Host State) :
    Option (Instruction × InstructionRequirements c) :=
  if i.done || i.resume_result.isSome then none
  else
    match i.fetched, i.gasometer with
    | some instruction, some m =>
      if i.stack.length < instruction.info.args then none
      else if g.spec.stack_limit < i.stack.length - instruction.info.args + instruction.info.ret
      then none
      else
        match (m.requirements g ctx instruction i.stack i.mem.length).run h with
        | .ok (.ok req, _) =>
          if m.current_gas.toNat < req.gas_cost.toNat then none else some (instruction, req)
        | _ => none
    | _, _ => none

/-- What the next instruction of the code comes to. -/
inductive Fetch (g : Globals) (ctx : FrameContext) (i : Interpreter c) (h : Host State) :
    Except VmError (InstructionResult c) → Interpreter c × Host State → Prop
  /-- It is refused before it is paid: nothing but the position has changed. -/
  | refused {e : VmError} {position : ℕ} {h' : Host State} (hnone : paying g ctx i h = none) :
      Fetch g ctx i h (.error e) ({ i with position := position }, h')
  /-- It has its operands, there is room for what it leaves and the memory it needs, and it is
      executed. -/
  | executed {instruction : Instruction} {m : Gasometer c} {req : InstructionRequirements c}
      {current_gas : Cost c} {h₁ h' : Host State} {r : Except VmError (InstructionResult c)}
      {l' : Local}
      (hpays : paying g ctx i h = some (instruction, req))
      (hargs : instruction.info.args ≤ i.stack.length)
      (hroom : i.stack.length - instruction.info.args + instruction.info.ret ≤ g.spec.stack_limit)
      (hm : i.gasometer = some m)
      (hreq : (m.requirements g ctx instruction i.stack i.mem.length).run h = .ok (.ok req, h₁))
      (hexec : (exec_instruction g ctx i.params i.code current_gas instruction req.provide_gas).run
        ({ i.toLocal with
            position := i.position + 1
            mem := Memory.expand i.mem req.memory_required_size }, h₁) = .ok (r, (l', h')))
      (hgas : Cost.checked_sub m.current_gas req.gas_cost = some current_gas) :
      Fetch g ctx i h r
        ({ i with toLocal := l', gasometer := some ⟨current_gas, req.memory_total_gas⟩ }, h')

theorem exec_next_fetches {i : Interpreter c} (hdone : i.done = false)
    (hresume : i.resume_result = none) (h : Host State) :
    wp (exec_next g ctx) (fun _ => True) (Fetch g ctx i h) (i, h) := by
  refine wp_bind.mpr
    (wp_gets.mpr (wp_bind.mpr (wp_expect (fun _ => trivial) fun opcode hopcode => ?_)))
  refine wp_bind.mpr (wp_update.mpr ?_)
  have hfetched : i.fetched = Instruction.from_u8 opcode := by
    rw [fetched, hopcode, Option.bind_some]
  have hpaying : paying g ctx i h = match i.fetched, i.gasometer with
      | some instruction, some m =>
        if i.stack.length < instruction.info.args then none
        else if g.spec.stack_limit < i.stack.length - instruction.info.args + instruction.info.ret
        then none
        else
          match (m.requirements g ctx instruction i.stack i.mem.length).run h with
          | .ok (.ok req, _) =>
            if m.current_gas.toNat < req.gas_cost.toNat then none else some (instruction, req)
          | _ => none
      | _, _ => none := by
    rw [paying, hdone, hresume]
    rfl
  rw [hfetched] at hpaying
  rcases hins : Instruction.from_u8 opcode with _ | instruction
  · rw [hins] at hpaying
    exact .refused hpaying
  rw [hins] at hpaying
  refine wp_bind.mpr (wp_ite (fun hargs => ?_) fun hargs =>
    wp_ite (fun hroom => ?_) fun hroom => ?_)
  · refine .refused ?_
    rw [hpaying]
    rcases i.gasometer with _ | m
    · rfl
    · exact if_pos hargs
  · refine wp_bind.mpr (wp_assert (fun _ => trivial) fun _ => .refused ?_)
    rw [hpaying]
    rcases i.gasometer with _ | m
    · rfl
    · exact (if_neg hargs).trans (if_pos hroom)
  refine wp_bind.mpr (wp_bind.mpr (wp_gets.mpr (wp_expect (fun _ => trivial) fun m hm => ?_)))
  have hm : i.gasometer = some m := hm
  rw [hm] at hpaying
  simp only [if_neg hargs, if_neg hroom] at hpaying
  refine wp_bind.mpr (wp_zoom.mpr (wp_intro (fun _ _ => trivial) ?_))
  rintro (e | req) h₁ hreq
  · rw [hreq] at hpaying
    exact .refused hpaying
  rw [hreq] at hpaying
  refine wp_bind.mpr (wp_ofExcept.mpr ?_)
  by_cases hgas : m.current_gas.toNat < req.gas_cost.toNat
  · rw [Gasometer.verify_gas, if_pos hgas]
    exact .refused (hpaying.trans (if_pos hgas))
  rw [Gasometer.verify_gas, if_neg hgas]
  refine wp_bind.mpr (wp_expect (fun _ => trivial) fun current_gas hcurrent => ?_)
  refine wp_bind.mpr (wp_update.mpr (wp_zoom.mpr (wp_intro (fun _ _ => trivial) ?_)))
  rintro r ⟨l', h'⟩ hexec
  exact .executed (hpaying.trans (if_neg hgas)) (not_lt.mp hargs) (not_lt.mp hroom) hm hreq hexec
    hcurrent

/-! ## Moving on -/

/-- Moving on after an instruction with the result: the stack, the range for an output, the gas of
    the memory and a result that is waited for stay, and so does the memory unless it is
    returned. -/
structure MovesOn (result : InstructionResult c) (p : Interpreter c × Host State)
    (r : Except VmError InterpreterResult) (q : Interpreter c × Host State) : Prop where
  stack : q.1.stack = p.1.stack
  range : q.1.resume_output_range = p.1.resume_output_range
  gas : q.1.gasometer.map Gasometer.current_mem_gas = p.1.gasometer.map Gasometer.current_mem_gas
  resume : q.1.resume_result = p.1.resume_result
  mem : q.1.mem = p.1.mem ∨
    q.1.mem = [] ∧ ∃ gas data apply, r = .ok (.Done (.ok (.NeedsReturn gas data apply)))
  traps : ∀ trap, r = .ok (.Trap trap) → result = .Trap trap

section
variable {result : InstructionResult c} {p q : Interpreter c × Host State}

omit [Keccak] in
/-- The execution goes on, or it ends at the end of the code. -/
theorem check_end_movesOn (hstack : q.1.stack = p.1.stack)
    (hrange : q.1.resume_output_range = p.1.resume_output_range)
    (hresume : q.1.resume_result = p.1.resume_result) (hmem : q.1.mem = p.1.mem)
    (hgas : q.1.gasometer.map Gasometer.current_mem_gas =
      p.1.gasometer.map Gasometer.current_mem_gas) :
    wp check_end (fun _ => True) (MovesOn result p) q := by
  refine wp_bind.mpr (wp_gets.mpr (wp_ite (fun _ => ?_) fun _ => ?_))
  · refine wp_bind.mpr (wp_bind.mpr (wp_gets.mpr (wp_expect (fun _ => trivial) fun m _ => ?_)))
    exact ⟨hstack, hrange, hgas, hresume, .inl hmem, fun _ h => (nomatch h)⟩
  · exact ⟨hstack, hrange, hgas, hresume, .inl hmem, fun _ h => (nomatch h)⟩

/-- Looking up the destinations changes neither the local part nor the gas. -/
theorem wp_lookup {lookup : StepM c Bits}
    {Q : Except VmError Bits → Interpreter c × Host State → Prop}
    (hlookup : lookup = jump_destinations ∨ lookup = subroutine_destinations)
    (hq : ∀ dests q, q.1.toLocal = p.1.toLocal → q.1.gasometer = p.1.gasometer →
      q.1.resume_result = p.1.resume_result → Q (.ok dests) q) :
    wp lookup (fun _ => True) Q p := by
  rcases hlookup with rfl | rfl <;> refine wp_bind.mpr (wp_gets.mpr ?_)
  · rcases p.1.valid_jump_destinations with _ | dests
    · exact wp_bind.mpr (wp_gets.mpr (wp_bind.mpr (wp_update.mpr (hq _ _ rfl rfl rfl))))
    · exact hq dests p rfl rfl rfl
  · rcases p.1.valid_subroutine_destinations with _ | dests
    · exact wp_bind.mpr (wp_gets.mpr (wp_bind.mpr (wp_update.mpr (hq _ _ rfl rfl rfl))))
    · exact hq dests p rfl rfl rfl

theorem advance_movesOn (result : InstructionResult c) (p : Interpreter c × Host State) :
    wp (advance result) (fun _ => True) (MovesOn result p) p := by
  cases result with
  | Trap trap =>
    refine ⟨rfl, rfl, rfl, rfl, .inl rfl, ?_⟩
    rintro _ ⟨⟩
    rfl
  | Ok => exact check_end_movesOn rfl rfl rfl rfl rfl
  | UnusedGas gas =>
    refine wp_bind.mpr (wp_bind.mpr (wp_gets.mpr (wp_expect (fun _ => trivial) fun m hm => ?_)))
    refine wp_bind.mpr (wp_expect (fun _ => trivial) fun sum _ => wp_bind.mpr (wp_update.mpr ?_))
    refine check_end_movesOn rfl rfl rfl rfl ?_
    rw [hm]
    rfl
  | JumpToPosition position =>
    refine wp_bind.mpr (wp_lookup (.inl rfl) fun dests q hq hgas hresume =>
      wp_bind.mpr (wp_ofExcept.mpr ?_))
    have hstack : q.1.stack = p.1.stack := congrArg Local.stack hq
    have hrange : q.1.resume_output_range = p.1.resume_output_range := congrArg _ hq
    have hmem : q.1.mem = p.1.mem := congrArg Local.mem hq
    have hmem_gas := congrArg (Option.map Gasometer.current_mem_gas) hgas
    rcases verify_jump position dests with e | pos
    · exact ⟨hstack, hrange, hmem_gas, hresume, .inl hmem, fun _ h => (nomatch h)⟩
    · exact wp_bind.mpr (wp_update.mpr (check_end_movesOn hstack hrange hresume hmem hmem_gas))
  | JumpToSubroutine position =>
    refine wp_bind.mpr (wp_lookup (.inr rfl) fun dests q hq hgas hresume =>
      wp_bind.mpr (wp_ofExcept.mpr ?_))
    have hstack : q.1.stack = p.1.stack := congrArg Local.stack hq
    have hrange : q.1.resume_output_range = p.1.resume_output_range := congrArg _ hq
    have hmem : q.1.mem = p.1.mem := congrArg Local.mem hq
    have hmem_gas := congrArg (Option.map Gasometer.current_mem_gas) hgas
    rcases verify_jump position dests with e | pos
    · exact ⟨hstack, hrange, hmem_gas, hresume, .inl hmem, fun _ h => (nomatch h)⟩
    · exact wp_bind.mpr (wp_update.mpr (check_end_movesOn hstack hrange hresume hmem hmem_gas))
  | ReturnFromSubroutine pos =>
    exact wp_bind.mpr (wp_update.mpr (check_end_movesOn rfl rfl rfl rfl rfl))
  | StopExecutionNeedsReturn gas init_off init_size apply =>
    refine wp_bind.mpr (wp_gets.mpr (wp_bind.mpr (wp_update.mpr (wp_bind.mpr ?_))))
    refine wp_expect (fun _ => trivial) fun data _ => ?_
    exact ⟨rfl, rfl, rfl, rfl, .inr ⟨rfl, _, data, apply, rfl⟩, fun _ h => (nomatch h)⟩
  | StopExecution =>
    refine wp_bind.mpr (wp_bind.mpr (wp_gets.mpr (wp_expect (fun _ => trivial) fun m _ => ?_)))
    exact ⟨rfl, rfl, rfl, rfl, .inl rfl, fun _ h => (nomatch h)⟩

end

/-! ## Steps -/

/-- What a step of the interpreter comes to. -/
inductive Stepped (g : Globals) (ctx : FrameContext) (i : Interpreter c) (h : Host State) :
    Except VmError InterpreterResult → Interpreter c × Host State → Prop
  /-- Nothing is executed. -/
  | idle {done : Bool} {r : Except VmError InterpreterResult} (hdone : i.done = true → done = true)
      (hr : ∀ trap, r ≠ .ok (.Trap trap)) (hnone : paying g ctx i h = none) :
      Stepped g ctx i h r ({ i with done := done }, h)
  /-- The next instruction fails, before or after it is paid. -/
  | failed {e : VmError} {p : Interpreter c × Host State}
      (hfetch : Fetch g ctx i h (.error e) p) :
      Stepped g ctx i h (.ok (.Done (.error e))) ({ p.1 with done := true }, p.2)
  /-- The step moves on after the next instruction. -/
  | executed {result : InstructionResult c} {p q : Interpreter c × Host State}
      {r : Except VmError InterpreterResult} (hfetch : Fetch g ctx i h (.ok result) p)
      (hmoves : MovesOn result p r q) (hdone : ∀ ended, r = .ok (.Done ended) → q.1.done = true) :
      Stepped g ctx i h r q
  /-- The step moves on with a result that was waited for. -/
  | resumed {result : InstructionResult c} {q : Interpreter c × Host State}
      {r : Except VmError InterpreterResult} (hresume : i.resume_result = some result)
      (hrunning : i.done = false) (hnone : paying g ctx i h = none)
      (hmoves : MovesOn result ({ i with resume_result := none }, h) r q)
      (hdone : ∀ ended, r = .ok (.Done ended) → q.1.done = true) : Stepped g ctx i h r q

omit [Keccak] in
/-- An interpreter that has moved on is marked if it is done. -/
theorem mark_done_movesOn {result : InstructionResult c} {p q : Interpreter c × Host State}
    {res : InterpreterResult} (h : MovesOn result p (.ok res) q) :
    wp (mark_done res) (fun _ => True) (fun r q => MovesOn result p r q ∧
      ∀ ended, r = .ok (.Done ended) → q.1.done = true) q := by
  cases res with
  | Done ended =>
    exact ⟨⟨h.stack, h.range, h.gas, h.resume, h.mem, fun _ h => (nomatch h)⟩, fun _ _ => rfl⟩
  | Stopped => exact ⟨h, fun _ h => (nomatch h)⟩
  | Continue => exact ⟨h, fun _ h => (nomatch h)⟩
  | Trap trap => exact ⟨h, fun _ h => (nomatch h)⟩

omit [Keccak] in
theorem movesOn_failed {result : InstructionResult c} {p q : Interpreter c × Host State}
    {e : VmError}
    (h : MovesOn result p (.error e) q) :
    MovesOn result p (.ok (.Done (.error e))) ({ q.1 with done := true }, q.2) := by
  refine ⟨h.stack, h.range, h.gas, h.resume, .inl ?_, fun _ h => (nomatch h)⟩
  rcases h.mem with hmem | ⟨-, _, _, _, hr⟩
  · exact hmem
  · cases hr

/-- Every step is one of these. -/
theorem step_stepped (i : Interpreter c) (h : Host State) :
    wp (step g ctx) (fun _ => True) (Stepped g ctx i h) (i, h) := by
  refine wp_bind.mpr (wp_gets.mpr (wp_ite (fun hdone => ?_) fun hdone => ?_))
  · refine .idle id (fun _ hr => (nomatch hr)) ?_
    rw [paying, show i.done = true from hdone]
    rfl
  have hrunning : i.done = false := Bool.eq_false_iff.mpr hdone
  rcases hm : i.gasometer with _ | m
  · refine .idle (fun _ => rfl) (fun _ hr => (nomatch hr)) ?_
    rw [paying, hm]
    rcases i.fetched with _ | _ <;> exact ite_self _
  refine wp_ite (fun hempty => .idle (fun _ => rfl) (fun _ hr => (nomatch hr)) ?_) fun _ => ?_
  · have hnone : i.fetched = none := by
      rw [fetched, List.isEmpty_iff.mp hempty]
      rfl
    rw [paying, hnone]
    exact ite_self _
  refine wp_bind.mpr (wp_result.mpr (wp_bind.mpr (wp_bind.mpr (wp_gets.mpr ?_))))
  rcases hresume : i.resume_result with _ | result
  · refine wp_post (exec_next_fetches hrunning hresume h) ?_
    rintro (e | result) p hfetch
    · exact .failed hfetch
    · refine wp_post (advance_movesOn result p) ?_
      rintro (e | res) q hmoves
      · exact .executed hfetch (movesOn_failed hmoves) fun _ _ => rfl
      · exact wp_post (mark_done_movesOn hmoves) fun _ _ h => .executed hfetch h.1 h.2
  · have hnone : paying g ctx i h = none := by
      rw [paying, hresume, Option.isSome_some, Bool.or_true]
      rfl
    refine wp_bind.mpr (wp_update.mpr (wp_pure.mpr (wp_post (advance_movesOn result _) ?_)))
    rintro (e | res) q hmoves
    · exact .resumed hresume hrunning hnone (movesOn_failed hmoves) fun _ _ => rfl
    · exact wp_post (mark_done_movesOn hmoves) fun _ _ h => .resumed hresume hrunning hnone h.1 h.2

/-! ## Resumptions -/

/-- A resumption puts one item on the stack and writes to the memory at most. -/
structure TookUp (i i' : Interpreter c) : Prop where
  stack : ∃ item, i'.stack = item :: i.stack
  mem : i'.mem.length = i.mem.length
  gas : i'.gasometer = i.gasometer

section
variable {i i' : Interpreter c}

section
omit [Keccak]

theorem tookUp_of_unused_gas {gas_left : U256} {f : InstructionResult c → Interpreter c}
    (h : (unused_gas gas_left).map f = .ok i') (hf : ∀ r, TookUp i (f r)) : TookUp i i' := by
  rcases hgas : (unused_gas gas_left : Except Panic (InstructionResult c)) with p | result
  · rw [hgas] at h
    cases h
  · rw [hgas] at h
    cases h
    exact hf result

theorem returned_tookUp {out : U256 × U256} {flag gas_left : U256} {data : ReturnData}
    (h : i.returned out flag gas_left data = .ok i') : TookUp i i' := by
  unfold returned at h
  split at h
  · cases h
  · split at h
    · cases h
    · exact tookUp_of_unused_gas h fun _ => ⟨⟨flag, rfl⟩, Memory.length_of_write_output ‹_›, rfl⟩

theorem resume_call_tookUp {result : MessageCallResult} (h : i.resume_call result = .ok i') :
    TookUp i i' := by
  unfold resume_call at h
  split at h
  · cases h
  · cases result with
    | Success gas_left data => exact returned_tookUp h
    | Reverted gas_left data => exact returned_tookUp h
    | Failed e =>
      cases h
      exact ⟨⟨0, rfl⟩, rfl, rfl⟩

theorem resume_create_tookUp {result : ContractCreateResult}
    (h : i.resume_create result = .ok i') : TookUp i i' := by
  cases result with
  | Created address gas_left => exact tookUp_of_unused_gas h fun _ => ⟨⟨_, rfl⟩, rfl, rfl⟩
  | Reverted gas_left data => exact tookUp_of_unused_gas h fun _ => ⟨⟨_, rfl⟩, rfl, rfl⟩
  | Failed e =>
    cases h
    exact ⟨⟨0, rfl⟩, rfl, rfl⟩

end

end

/-- What the steps keep, and the resumptions after a step that traps, every visited interpreter has.
    `W` is what such a step leaves. -/
theorem Visits.induct {P : Interpreter c → Prop} {W : Interpreter c → Prop} {i₀ i : Interpreter c}
    (hvisits : Visits g ctx i₀ i) (hstart : P i₀)
    (hstep : ∀ i h r q, P i → Stepped g ctx i h r q → P q.1 ∧ ∀ trap, r = .ok (.Trap trap) → W q.1)
    (hresume : ∀ i i', W i → TookUp i i' → Resumed i i' → P i') : P i := by
  have hsteps : ∀ {i i' : Interpreter c} {h h' : Host State} {r : Except VmError InterpreterResult},
      P i → (Interpreter.step g ctx).run (i, h) = .ok (r, (i', h')) → P i' ∧
          ∀ trap, r = .ok (.Trap trap) → W i' :=
    fun hp hrun => hstep _ _ _ _ hp (wp_of_run (step_stepped _ _) hrun)
  induction hvisits with
  | start => exact hstart
  | step _ hrun ih => exact (hsteps ih hrun).1
  | call _ hrun hres ih =>
    exact hresume _ _ ((hsteps ih hrun).2 _ rfl) (resume_call_tookUp hres)
      (resume_call_resumed hres)
  | create _ hrun hres ih =>
    exact hresume _ _ ((hsteps ih hrun).2 _ rfl) (resume_create_tookUp hres)
      (resume_create_resumed hres)

end Interpreter

end CfxEvm
