import CfxEvm.Evm.Proofs.InstructionProofs
import CfxEvm.Frame.Proofs.EffectProofs
import CfxEvm.State.Proofs.BalanceProofs

/-!
# Proofs: the interpreter does not panic

The table of the instructions says how many operands an instruction finds on the stack, the
gasometer makes room for the memory that it is going to use, and the gas that comes back with a
result is not more than what was given. So no access of a step or of a resumption is out of range,
as long as the host answers what it is asked.
-/

open Lib Lib.Prog

namespace CfxEvm

/-- The result gives back no more than the gas given, and its data can be read. -/
def MessageCallResult.Fits (gas : U256) : MessageCallResult → Prop
  | Success gas_left data | Reverted gas_left data => gas_left.toNat ≤ gas.toNat ∧ data.Readable
  | Failed _ => True

def ContractCreateResult.Fits (gas : U256) : ContractCreateResult → Prop
  | Created _ gas_left => gas_left.toNat ≤ gas.toNat
  | Reverted gas_left data => gas_left.toNat ≤ gas.toNat ∧ data.Readable
  | Failed _ => True

namespace Interpreter

variable {g : Globals} {ctx : FrameContext}

/-! ## What holds between steps -/

/-- The parts of an interpreter that its accesses rest on. -/
structure Stored (spec : Spec) (i : Interpreter .usize) : Prop where
  code : i.code.length < 2 ^ 64
  data : ∀ data, i.params.data = some data → data.length < 2 ^ 64
  running : i.done = false
  words : i.mem.length % 32 = 0
  small : i.mem.length < 2 ^ 64
  mem_gas : ∀ m, i.gasometer = some m → m.current_mem_gas.toNat = memGas spec i.mem.length
  return_data : i.return_data.Readable

/-- An interpreter that is ready for a step. -/
structure Sound (spec : Spec) (i : Interpreter .usize) : Prop extends Stored spec i where
  resumable : i.Resumable
  stack : i.stack.length ≤ spec.stack_limit
  inside : i.resume_result = none → i.code ≠ [] → i.position < i.code.length
  gas : i.gas + i.pending < 2 ^ 64

/-- An interpreter that waits for the result of a call or a creation. -/
structure Waiting (spec : Spec) (trap : TrapKind) (i : Interpreter .usize) : Prop
    extends Stored spec i where
  stack : i.stack.length + 1 ≤ spec.stack_limit
  gas : i.gas + trap.params.gas.toNat < 2 ^ 64
  range : ∀ params, trap = .Call params →
    ∃ range, i.resume_output_range = some range ∧ FitsIn i.mem.length range

theorem Stored.paid {spec : Spec} {i : Interpreter .usize} (h : Stored spec i)
    {m : Gasometer .usize} (hm : i.gasometer = some m) : Gasometer.Paid spec m i.mem.length :=
  ⟨h.words, h.small, h.mem_gas m hm⟩

/-! ## Steps -/

/-- What the next instruction leaves, for a step that goes on with its result. -/
structure Fetched (spec : Spec) (result : InstructionResult .usize) (i : Interpreter .usize) :
    Prop extends Stored spec i where
  gasometer : i.gasometer.isSome
  result : match result with
    | .Trap (.Call _) => i.stack.length + 1 ≤ spec.stack_limit ∧
      ∃ range, i.resume_output_range = some range ∧ FitsIn i.mem.length range
    | .Trap (.Create _) => i.stack.length + 1 ≤ spec.stack_limit
    | .StopExecutionNeedsReturn _ init_off init_size _ => FitsIn i.mem.length (init_off, init_size)
    | .StopExecution => True
    | _ => i.stack.length ≤ spec.stack_limit

/-- The stack has room for the result of the instruction. -/
theorem verify_instruction_safe {spec : Spec} {info : InstructionInfo} {size : Nat}
    (hsize : size ≤ spec.stack_limit) (p : Interpreter .usize × Host State) :
    wp (verify_instruction spec size info) (fun _ => False) (fun r p' => p' = p ∧
      (r = .ok () → info.args ≤ size ∧ size - info.args + info.ret ≤ spec.stack_limit)) p := by
  unfold verify_instruction
  refine wp_ite (fun _ => ⟨rfl, fun h => (nomatch h)⟩) fun hargs => wp_ite (fun hfull => ?_)
    fun hfull => ⟨rfl, fun _ => by omega⟩
  refine wp_bind.mpr (wp_assert (fun hfalse => ?_) fun _ => ⟨rfl, fun h => (nomatch h)⟩)
  rw [decide_eq_false_iff_not] at hfalse
  omega

variable [Keccak]

section
variable {I : Host State → Prop} {i : Interpreter .usize} {h : Host State}

theorem exec_next_safe (hspec : g.spec.GenesisConstants) (hi : Sound g.spec i)
    (hres : i.resume_result = none) (hcode : i.code ≠ []) {m : Gasometer .usize}
    (hm : i.gasometer = some m) (hans : Answers g ctx i.fetched i.stack I) (hh : I h) :
    wp (exec_next g ctx) (fun _ => False) (fun r p => ∀ result, r = .ok result →
      Fetched g.spec result p.1) (i, h) := by
  have hinside := hi.inside hres hcode
  refine wp_bind.mpr (wp_gets.mpr ?_)
  refine wp_bind.mpr (wp_expect (fun hnone => ?_) fun opcode hopcode => ?_)
  · rw [List.getElem?_eq_none_iff] at hnone
    exact absurd hinside (not_lt.mpr hnone)
  refine wp_bind.mpr (wp_update.mpr ?_)
  rcases hins : Instruction.from_u8 opcode with _ | instruction
  · exact fun _ hr => (nomatch hr)
  have hat : i.fetched = some instruction := by
    rw [fetched, hopcode, Option.bind_some, hins]
  rw [hat] at hans
  refine wp_seq (fun _ p => p = ({ i with position := i.position + 1 }, h) ∧
    instruction.info.args ≤ i.stack.length ∧
    i.stack.length - instruction.info.args + instruction.info.ret ≤ g.spec.stack_limit) ?_ ?_
  · refine wp_post (verify_instruction_safe hi.stack _) ?_
    rintro (e | _) p ⟨rfl, hok⟩
    · exact fun _ hr => (nomatch hr)
    · exact ⟨rfl, hok rfl⟩
  rintro _ _ ⟨rfl, hargs, hroom⟩
  refine wp_bind.mpr (wp_bind.mpr (wp_gets.mpr ?_))
  simp only [hm]
  refine wp_pure.mpr (wp_bind.mpr (wp_zoom.mpr (wp_post (wp_and
    (Gasometer.requirements_safe hspec (hi.paid hm) hans hargs hh)
    (Gasometer.requirements_floor hspec m instruction i.stack i.mem.length h)) ?_)))
  rintro (e | req) h₁ ⟨hreq, hfloor⟩
  · exact fun _ hr => (nomatch hr)
  refine wp_bind.mpr (wp_ofExcept.mpr ?_)
  by_cases hlt : m.current_gas.toNat < req.gas_cost.toNat
  · rw [Gasometer.verify_gas, if_pos hlt]
    exact fun _ hr => (nomatch hr)
  rw [Gasometer.verify_gas, if_neg hlt]
  refine wp_bind.mpr (wp_expect (fun hnone => ?_) fun current_gas _ => ?_)
  · rw [Cost.checked_sub, if_pos (not_lt.mp hlt)] at hnone
    cases hnone
  have hlen := Memory.length_expand i.mem req.memory_required_size
  have hready : Ready g ctx i.params i.code instruction req.provide_gas I
      { i.toLocal with
        position := i.position + 1
        mem := Memory.expand i.mem req.memory_required_size } h₁ := by
    refine ⟨hans, hreq.host, hargs, ?_, hi.return_data, ?_, hreq.provides req rfl, ?_, hinside,
      hi.code, hi.data⟩
    · show (Memory.expand i.mem req.memory_required_size).length < 2 ^ 64
      rw [hlen]
      exact max_lt hi.small (hreq.small req rfl)
    · intro range hrange
      show FitsIn (Memory.expand i.mem req.memory_required_size).length range
      rw [hlen]
      exact hreq.covers req rfl range hrange
    · have hle := hfloor req rfl
      have hgas : m.current_gas.toNat < 2 ^ 64 := m.current_gas.isLt
      show (req.provide_gas.map BitVec.toNat).getD 0 +
        price_floor g.spec instruction i.stack < 2 ^ 64
      omega
  refine wp_bind.mpr (wp_update.mpr (wp_zoom.mpr (wp_post
    (exec_instruction_safe hspec current_gas hready) ?_)))
  intro r p hexec result hr
  obtain ⟨hmem, hreturn, hsafe⟩ := hexec result hr
  have hmem' : p.1.mem.length = max i.mem.length req.memory_required_size := hmem.trans hlen
  refine ⟨⟨hi.code, hi.data, hi.running, ?_, ?_, ?_, hreturn⟩, rfl, ?_⟩
  · show p.1.mem.length % 32 = 0
    have := hi.words
    have := hreq.words req rfl
    omega
  · show p.1.mem.length < 2 ^ 64
    rw [hmem']
    exact max_lt hi.small (hreq.small req rfl)
  · rintro _ ⟨⟩
    show req.memory_total_gas.toNat = memGas g.spec p.1.mem.length
    rw [hmem']
    exact hreq.gas req rfl
  · have hstack : ∀ n, n + instruction.info.args ≤ i.stack.length + instruction.info.ret →
        n ≤ g.spec.stack_limit := by
      intro n hn
      omega
    have hroom' : ∀ n, n + instruction.info.args + 1 ≤ i.stack.length + instruction.info.ret →
        n + 1 ≤ g.spec.stack_limit := by
      intro n hn
      omega
    cases result with
    | Trap trap =>
      cases trap with
      | Call callee => exact ⟨hroom' _ hsafe.1, hsafe.2⟩
      | Create created => exact hroom' _ hsafe
    | StopExecutionNeedsReturn gas init_off init_size apply => exact hsafe
    | StopExecution => trivial
    | Ok => exact hstack _ hsafe
    | UnusedGas gas => exact hstack _ hsafe
    | JumpToPosition position => exact hstack _ hsafe
    | JumpToSubroutine position => exact hstack _ hsafe
    | ReturnFromSubroutine pos => exact hstack _ hsafe

/-- What a step comes to. -/
def SafeStep (spec : Spec) (r : Except VmError InterpreterResult)
    (p : Interpreter .usize × Host State) : Prop :=
  match r with
  | .ok .Continue => Stored spec p.1 ∧ p.1.stack.length ≤ spec.stack_limit ∧
    p.1.position < p.1.code.length
  | .ok (.Trap trap) => Stored spec p.1 ∧ p.1.stack.length + 1 ≤ spec.stack_limit ∧
    ∀ params, trap = .Call params →
      ∃ range, p.1.resume_output_range = some range ∧ FitsIn p.1.mem.length range
  | .ok (.Done (.ok (.NeedsReturn _ data _))) => data.Readable
  | .ok .Stopped => False
  | _ => True

omit [Keccak] in
theorem check_end_safe {p : Interpreter .usize × Host State} (hp : Stored g.spec p.1)
    (hm : p.1.gasometer.isSome) (hstack : p.1.stack.length ≤ g.spec.stack_limit) :
    wp check_end (fun _ => False) (SafeStep g.spec) p := by
  obtain ⟨m, hm⟩ := Option.isSome_iff_exists.mp hm
  refine wp_bind.mpr (wp_gets.mpr (wp_ite (fun _ => ?_) fun hlt => ?_))
  · refine wp_bind.mpr (wp_bind.mpr (wp_gets.mpr ?_))
    simp only [hm]
    trivial
  · exact ⟨hp, hstack, not_le.mp hlt⟩

omit [Keccak] in
/-- A jump goes on, if it is allowed. -/
theorem jump_safe {lookup : StepM .usize Bits} {position : U256}
    {f : Nat → Interpreter .usize → Interpreter .usize} {p : Interpreter .usize × Host State}
    (hlookup : wp lookup (fun _ => False) (fun _ p' => Stored g.spec p'.1 ∧
      p'.1.gasometer.isSome ∧ p'.1.stack.length ≤ g.spec.stack_limit) p)
    (hf : ∀ pos i, Stored g.spec i → i.gasometer.isSome → i.stack.length ≤ g.spec.stack_limit →
      Stored g.spec (f pos i) ∧ (f pos i).gasometer.isSome ∧
        (f pos i).stack.length ≤ g.spec.stack_limit) :
    wp (lookup >>= fun dests => Prog.ofExcept (verify_jump position dests) >>= fun pos =>
      modify (f pos) >>= fun _ => check_end) (fun _ => False) (SafeStep g.spec) p := by
  refine wp_bind.mpr (wp_post hlookup ?_)
  rintro (e | dests) p' ⟨hp, hm, hstack⟩
  · trivial
  refine wp_bind.mpr (wp_ofExcept.mpr ?_)
  rcases verify_jump position dests with e | pos
  · trivial
  · obtain ⟨hp', hm', hstack'⟩ := hf pos p'.1 hp hm hstack
    exact wp_bind.mpr (wp_update.mpr (check_end_safe hp' hm' hstack'))

theorem advance_safe {result : InstructionResult .usize} {p : Interpreter .usize × Host State}
    (hp : Fetched g.spec result p.1)
    (hgas : ∀ m gas, p.1.gasometer = some m → result = .UnusedGas gas →
      m.current_gas.toNat + gas.toNat < 2 ^ 64) :
    wp (advance result) (fun _ => False) (SafeStep g.spec) p := by
  obtain ⟨m, hm⟩ := Option.isSome_iff_exists.mp hp.gasometer
  have hresult := hp.result
  cases result with
  | Trap trap =>
    cases trap with
    | Call callee => exact ⟨hp.toStored, hresult.1, fun _ _ => hresult.2⟩
    | Create created => exact ⟨hp.toStored, hresult, fun _ h => (nomatch h)⟩
  | Ok => exact check_end_safe hp.toStored hp.gasometer hresult
  | UnusedGas gas =>
    refine wp_bind.mpr (wp_bind.mpr (wp_gets.mpr ?_))
    simp only [hm]
    refine wp_pure.mpr (wp_bind.mpr (wp_expect (fun hnone => ?_) fun sum _ => ?_))
    · rw [Cost.checked_add_of_lt (hgas m gas hm rfl)] at hnone
      cases hnone
    refine wp_bind.mpr (wp_update.mpr (check_end_safe ?_ rfl hresult))
    refine ⟨hp.code, hp.data, hp.running, hp.words, hp.small, ?_, hp.return_data⟩
    rintro _ ⟨⟩
    exact hp.mem_gas m hm
  | JumpToPosition position =>
    refine jump_safe ?_ fun pos i hi hgasometer hstack => ⟨?_, hgasometer, hstack⟩
    · refine wp_bind.mpr (wp_gets.mpr ?_)
      rcases p.1.valid_jump_destinations with _ | dests
      · refine wp_bind.mpr (wp_gets.mpr (wp_bind.mpr (wp_update.mpr ?_)))
        exact ⟨⟨hp.code, hp.data, hp.running, hp.words, hp.small, hp.mem_gas, hp.return_data⟩,
          hp.gasometer, hresult⟩
      · exact ⟨hp.toStored, hp.gasometer, hresult⟩
    · exact ⟨hi.code, hi.data, hi.running, hi.words, hi.small, hi.mem_gas, hi.return_data⟩
  | JumpToSubroutine position =>
    refine jump_safe ?_ fun pos i hi hgasometer hstack => ⟨?_, hgasometer, hstack⟩
    · refine wp_bind.mpr (wp_gets.mpr ?_)
      rcases p.1.valid_subroutine_destinations with _ | dests
      · refine wp_bind.mpr (wp_gets.mpr (wp_bind.mpr (wp_update.mpr ?_)))
        exact ⟨⟨hp.code, hp.data, hp.running, hp.words, hp.small, hp.mem_gas, hp.return_data⟩,
          hp.gasometer, hresult⟩
      · exact ⟨hp.toStored, hp.gasometer, hresult⟩
    · exact ⟨hi.code, hi.data, hi.running, hi.words, hi.small, hi.mem_gas, hi.return_data⟩
  | ReturnFromSubroutine pos =>
    refine wp_bind.mpr (wp_update.mpr (check_end_safe ?_ hp.gasometer hresult))
    exact ⟨hp.code, hp.data, hp.running, hp.words, hp.small, hp.mem_gas, hp.return_data⟩
  | StopExecutionNeedsReturn gas init_off init_size apply =>
    refine wp_bind.mpr (wp_gets.mpr (wp_bind.mpr (wp_update.mpr (wp_bind.mpr ?_))))
    obtain ⟨data, hdata, hread⟩ := Memory.into_return_data_of_fits hresult hp.small
    simp only [hdata]
    exact hread
  | StopExecution =>
    refine wp_bind.mpr (wp_bind.mpr (wp_gets.mpr ?_))
    simp only [hm]
    trivial

omit [Keccak] in
theorem mark_done_safe {res : InterpreterResult} {p : Interpreter .usize × Host State}
    (hres : SafeStep g.spec (.ok res) p) :
    wp (mark_done res) (fun _ => False) (fun r p' => ∃ res, r = .ok res ∧
      SafeStep g.spec r p') p := by
  cases res with
  | Done ended =>
    refine ⟨_, rfl, ?_⟩
    rcases ended with e | gas_left
    · trivial
    · cases gas_left with
      | Known gas => trivial
      | NeedsReturn gas data apply => exact hres
  | Stopped => exact hres.elim
  | Continue => exact ⟨_, rfl, hres⟩
  | Trap trap => exact ⟨_, rfl, hres⟩

/-- A step does not panic. -/
theorem step_safe (hspec : g.spec.GenesisConstants) (hi : Sound g.spec i)
    (hans : Answers g ctx i.fetched i.stack I) (hh : I h) :
    wp (step g ctx) (fun _ => False) (fun r p => ∃ res, r = .ok res ∧ SafeStep g.spec r p)
      (i, h) := by
  refine wp_bind.mpr (wp_gets.mpr (wp_ite (fun hdone => ?_) fun _ => ?_))
  · exact absurd (hdone.symm.trans hi.running) (by simp)
  rcases hm : i.gasometer with _ | m
  · exact mark_done_safe trivial
  refine wp_ite (fun _ => mark_done_safe trivial) fun hcode => ?_
  rw [List.isEmpty_iff] at hcode
  have hgas : i.gas = m.current_gas.toNat := by simp only [gas, hm]
  have hsmall := hi.gas
  -- the next instruction, or the result that was waited for
  have hnext : wp (next_result g ctx) (fun _ => False) (fun r p => ∀ result, r = .ok result →
      Fetched g.spec result p.1) (i, h) := by
    refine wp_bind.mpr (wp_gets.mpr ?_)
    rcases hi.resumable with hr | hr | ⟨unused, hr⟩ <;> simp only [hr]
    · exact exec_next_safe hspec hi hr hcode hm hans hh
    all_goals
      refine wp_bind.mpr (wp_update.mpr ?_)
      rintro _ ⟨⟩
      exact ⟨⟨hi.code, hi.data, hi.running, hi.words, hi.small, hi.mem_gas, hi.return_data⟩,
        by rw [hm]; rfl, hi.stack⟩
  refine wp_bind.mpr (wp_result.mpr (wp_bind.mpr (wp_post
    (wp_and hnext (next_result_gas hspec hm hi.resumable h)) ?_)))
  rintro (e | result) p ⟨hfetched, hpaid⟩
  · exact mark_done_safe trivial
  obtain ⟨m', hm', -, hresult⟩ := hpaid result rfl
  refine wp_post (advance_safe (hfetched result rfl) ?_) ?_
  · rintro m₁ unused hm₁ rfl
    obtain rfl : m' = m₁ := Option.some_inj.mp (hm'.symm.trans hm₁)
    simp only [ResultGas] at hresult
    omega
  · rintro (e | res) p' hsafe
    · exact mark_done_safe trivial
    · exact mark_done_safe hsafe

/-- A step leads to an interpreter that is ready for the next one, or that waits for a result. -/
theorem step_sound (hspec : g.spec.GenesisConstants) (hi : Sound g.spec i)
    (hans : Answers g ctx i.fetched i.stack I) (hh : I h) :
    wp (step g ctx) (fun _ => False) (fun r p =>
      (r = .ok .Continue → Sound g.spec p.1) ∧
      ∀ trap, r = .ok (.Trap trap) → Waiting g.spec trap p.1) (i, h) := by
  refine wp_post (wp_and (step_safe hspec hi hans hh) (step_gas hspec hi.resumable h)) ?_
  rintro r p ⟨⟨res, rfl, hsafe⟩, hgas⟩
  have hgas := hgas res rfl
  have hsmall := hi.gas
  constructor
  · rintro ⟨⟩
    obtain ⟨hstored, hstack, hinside⟩ := hsafe
    have hpending : p.1.pending = 0 := by simp only [pending, hgas.2]
    have hle := hgas.1
    exact ⟨hstored, .inl hgas.2, hstack, fun _ _ => hinside, by omega⟩
  · rintro trap ⟨⟩
    obtain ⟨hstored, hstack, hrange⟩ := hsafe
    have hle := hgas.1
    exact ⟨hstored, hstack, by omega, hrange⟩

end

/-! ## Resumption -/

section
variable {spec : Spec} {trap : TrapKind} {i : Interpreter .usize}

section
omit [Keccak]

theorem unused_gas_of_le (gas_left : U256) (h : gas_left.toNat < 2 ^ 64) :
    ∃ gas : Cost .usize, unused_gas gas_left = .ok (.UnusedGas gas) ∧
      gas.toNat = gas_left.toNat := by
  have hfrom : (Cost.from_u256 gas_left : Except VmError (Cost .usize)) =
      .ok (BitVec.ofNat 64 gas_left.toNat) := Cost.from_u256_of_lt h
  refine ⟨BitVec.ofNat 64 gas_left.toNat, by rw [unused_gas, hfrom], ?_⟩
  exact (BitVec.toNat_ofNat _ _).trans (Nat.mod_eq_of_lt h)

/-- A result that was waited for is taken up. -/
theorem Waiting.resume (hi : Waiting spec trap i) {i' : Interpreter .usize}
    (hcode : i'.code = i.code) (hparams : i'.params = i.params) (hdone : i'.done = i.done)
    (hmem : i'.mem.length = i.mem.length) (hgasometer : i'.gasometer = i.gasometer)
    (hreturn : i'.return_data.Readable) (hstack : i'.stack.length = i.stack.length + 1)
    (hresult : i'.resume_result = some .Ok ∨ ∃ gas : Cost .usize,
      i'.resume_result = some (.UnusedGas gas) ∧ gas.toNat ≤ trap.params.gas.toNat) :
    Sound spec i' := by
  have hgas : i'.gas = i.gas := by simp only [Interpreter.gas, hgasometer]
  have hsmall := hi.gas
  refine ⟨⟨?_, ?_, ?_, ?_, ?_, ?_, hreturn⟩, ?_, ?_, ?_, ?_⟩
  · rw [hcode]
    exact hi.code
  · rw [hparams]
    exact hi.data
  · rw [hdone]
    exact hi.running
  · rw [hmem]
    exact hi.words
  · rw [hmem]
    exact hi.small
  · rw [hgasometer, hmem]
    exact hi.mem_gas
  · rcases hresult with h | ⟨gas, h, -⟩
    · exact .inr (.inl h)
    · exact .inr (.inr ⟨gas, h⟩)
  · rw [hstack]
    exact hi.stack
  · rintro hnone
    rcases hresult with h | ⟨gas, h, -⟩ <;> rw [h] at hnone <;> cases hnone
  · rcases hresult with h | ⟨gas, h, hle⟩ <;> simp only [pending, h] <;> omega

/-- A call that returned data is resumed without a panic. -/
theorem returned_safe (hi : Waiting spec trap i) {out : U256 × U256}
    (hfits : FitsIn i.mem.length out)
    {gas_left : U256} {data : ReturnData} (hgas : gas_left.toNat ≤ trap.params.gas.toNat)
    (hdata : data.Readable) (flag : U256) :
    ∃ i', i.returned out flag gas_left data = .ok i' ∧ Sound spec i' := by
  obtain ⟨bytes, hbytes, hlen⟩ := hdata
  obtain ⟨mem, hmem, hmem'⟩ := Memory.write_output_of_fits bytes hfits hi.small
  have hsmall := hi.gas
  obtain ⟨gas, hunused, hgas'⟩ := unused_gas_of_le gas_left (by omega)
  refine ⟨_, by simp only [returned, hbytes, hmem, hunused]; rfl, ?_⟩
  exact hi.resume rfl rfl rfl hmem' rfl ⟨bytes, hbytes, hlen⟩ rfl
    (.inr ⟨gas, rfl, hgas'.trans_le hgas⟩)

theorem resume_call_safe {callee : ActionParams} (hi : Waiting spec (.Call callee) i)
    {result : MessageCallResult} (hresult : result.Fits callee.gas) :
    ∃ i', i.resume_call result = .ok i' ∧ Sound spec i' := by
  obtain ⟨range, hrange, hfits⟩ := hi.range callee rfl
  unfold resume_call
  rw [hrange]
  cases result with
  | Success gas_left data => exact returned_safe hi hfits hresult.1 hresult.2 1
  | Reverted gas_left data => exact returned_safe hi hfits hresult.1 hresult.2 0
  | Failed e => exact ⟨_, rfl, hi.resume rfl rfl rfl rfl rfl hi.return_data rfl (.inl rfl)⟩

theorem resume_create_safe {created : ActionParams} (hi : Waiting spec (.Create created) i)
    {result : ContractCreateResult} (hresult : result.Fits created.gas) :
    ∃ i', i.resume_create result = .ok i' ∧ Sound spec i' := by
  have hsmall : i.gas + created.gas.toNat < 2 ^ 64 := hi.gas
  cases result with
  | Created address gas_left =>
    have hle : gas_left.toNat ≤ created.gas.toNat := hresult
    obtain ⟨gas, hunused, hgas⟩ := unused_gas_of_le gas_left (by omega)
    refine ⟨_, by simp only [resume_create, hunused]; rfl, ?_⟩
    exact hi.resume rfl rfl rfl rfl rfl hi.return_data rfl (.inr ⟨gas, rfl, hgas.trans_le hle⟩)
  | Reverted gas_left data =>
    obtain ⟨hle, hdata⟩ := hresult
    obtain ⟨gas, hunused, hgas⟩ := unused_gas_of_le gas_left (by omega)
    refine ⟨_, by simp only [resume_create, hunused]; rfl, ?_⟩
    exact hi.resume rfl rfl rfl rfl rfl hdata rfl (.inr ⟨gas, rfl, hgas.trans_le hle⟩)
  | Failed e => exact ⟨_, rfl, hi.resume rfl rfl rfl rfl rfl hi.return_data rfl (.inl rfl)⟩

end

end

/-! ## Runs -/

/-- The interpreters that steps lead to, from `i₀`, on hosts that answer. A call or creation that
    the interpreter traps into may have any result that gives back no more than the gas given. -/
inductive Proceeds (g : Globals) (ctx : FrameContext) (i₀ : Interpreter .usize) :
    Interpreter .usize → Prop
  | start : Proceeds g ctx i₀ i₀
  | step {i i' : Interpreter .usize} {h h' : Host State} {I : Host State → Prop}
      (hrun : Proceeds g ctx i₀ i) (hans : Answers g ctx i.fetched i.stack I) (hhost : I h)
      (hstep : (step g ctx).run (i, h) = .ok (.ok .Continue, (i', h'))) : Proceeds g ctx i₀ i'
  | call {i i' i'' : Interpreter .usize} {h h' : Host State} {I : Host State → Prop}
      {params : ActionParams} {result : MessageCallResult}
      (hrun : Proceeds g ctx i₀ i) (hans : Answers g ctx i.fetched i.stack I) (hhost : I h)
      (hstep : (step g ctx).run (i, h) = .ok (.ok (.Trap (.Call params)), (i', h')))
      (hresult : result.Fits params.gas) (hresume : i'.resume_call result = .ok i'') :
      Proceeds g ctx i₀ i''
  | create {i i' i'' : Interpreter .usize} {h h' : Host State} {I : Host State → Prop}
      {params : ActionParams} {result : ContractCreateResult}
      (hrun : Proceeds g ctx i₀ i) (hans : Answers g ctx i.fetched i.stack I) (hhost : I h)
      (hstep : (step g ctx).run (i, h) = .ok (.ok (.Trap (.Create params)), (i', h')))
      (hresult : result.Fits params.gas) (hresume : i'.resume_create result = .ok i'') :
      Proceeds g ctx i₀ i''

section
variable {params : ActionParams} {code : Bytes} {i : Interpreter .usize}

omit [Keccak] in
theorem sound_new {spec : Spec} (hcode : code.length < 2 ^ 64)
    (hdata : ∀ data, params.data = some data → data.length < 2 ^ 64) :
    Sound spec (new params code) := by
  refine ⟨⟨hcode, hdata, rfl, rfl, by simp [new], ?_, ReturnData.readable_empty⟩, .inl rfl,
    Nat.zero_le _, fun _ hne => List.length_pos_iff.mpr hne, ?_⟩
  · intro m hm
    simp only [new] at hm
    split at hm
    · cases hm
      simp [Gasometer.new, Cost.from, memGas, new]
    · cases hm
  · have hpending : (new params code : Interpreter .usize).pending = 0 := rfl
    have hgas : (new params code : Interpreter .usize).gas < 2 ^ 64 := by
      unfold gas
      split
      · rename_i m _
        exact m.current_gas.isLt
      · decide
    omega

/-- Every interpreter of a run is ready for its next step. -/
theorem sound_of_proceeds (hspec : g.spec.GenesisConstants) (hcode : code.length < 2 ^ 64)
    (hdata : ∀ data, params.data = some data → data.length < 2 ^ 64)
    (hrun : Proceeds g ctx (new params code) i) : Sound g.spec i := by
  induction hrun with
  | start => exact sound_new hcode hdata
  | step _ hans hhost hstep ih =>
    exact (wp_of_run (step_sound hspec ih hans hhost) hstep).1 rfl
  | call _ hans hhost hstep hresult hresume ih =>
    have hwaiting := (wp_of_run (step_sound hspec ih hans hhost) hstep).2 _ rfl
    obtain ⟨i', hok, hsound⟩ := resume_call_safe hwaiting hresult
    obtain rfl := Except.ok.inj (hresume.symm.trans hok)
    exact hsound
  | create _ hans hhost hstep hresult hresume ih =>
    have hwaiting := (wp_of_run (step_sound hspec ih hans hhost) hstep).2 _ rfl
    obtain ⟨i', hok, hsound⟩ := resume_create_safe hwaiting hresult
    obtain rfl := Except.ok.inj (hresume.symm.trans hok)
    exact hsound

/-- The interpreter never panics. Whatever steps, calls, creations and results led to it, its next
    step on a host that answers returns a result and does not find the interpreter stopped. If it
    traps, the result of the call or creation is taken up without a panic, and what it returns at
    its end can be read. -/
theorem interpreter_never_panics (hspec : g.spec.GenesisConstants) (hcode : code.length < 2 ^ 64)
    (hdata : ∀ data, params.data = some data → data.length < 2 ^ 64)
    (hrun : Proceeds g ctx (new params code) i) {I : Host State → Prop} {h : Host State}
    (hans : Answers g ctx i.fetched i.stack I) (hhost : I h) :
    ∃ r i' h', (step g ctx).run (i, h) = .ok (.ok r, (i', h')) ∧ r ≠ .Stopped ∧
      (∀ callee, r = .Trap (.Call callee) → ∀ result : MessageCallResult,
        result.Fits callee.gas → ∃ i'', i'.resume_call result = .ok i'') ∧
      (∀ created, r = .Trap (.Create created) → ∀ result : ContractCreateResult,
        result.Fits created.gas → ∃ i'', i'.resume_create result = .ok i'') ∧
      ∀ gas data apply, r = .Done (.ok (.NeedsReturn gas data apply)) → data.Readable := by
  have hsound := sound_of_proceeds hspec hcode hdata hrun
  obtain ⟨r, ⟨i', h'⟩, hstep, res, rfl, hsafe⟩ :=
    exists_run_of_wp (step_safe hspec hsound hans hhost)
  have hwaiting := (wp_of_run (step_sound hspec hsound hans hhost) hstep).2
  refine ⟨res, i', h', hstep, ?_, ?_, ?_, ?_⟩
  · rintro rfl
    exact hsafe
  · rintro callee rfl result hresult
    obtain ⟨i'', hok, -⟩ := resume_call_safe (hwaiting _ rfl) hresult
    exact ⟨i'', hok⟩
  · rintro created rfl result hresult
    obtain ⟨i'', hok, -⟩ := resume_create_safe (hwaiting _ rfl) hresult
    exact ⟨i'', hok⟩
  · rintro gas data apply rfl
    exact hsafe

end

/-! ## The context answers -/

end Interpreter

section
variable [Keccak] {g : Globals} {ctx : FrameContext} {w : Ledger}

/-- What the context needs of the ledger, so that it answers. -/
structure Ledger.Answering (w : Ledger) (g : Globals) (ctx : FrameContext) : Prop where
  codes : ∀ a u info, w.accounts a = some u → u.code = some info → info.code.length < 2 ^ 64
  nonce : (w.accountOrNew ctx.origin.address g.spec.contract_start_nonce).nonce.toNat + 1 < 2 ^ 256
  balances : ∀ a, a ≠ ctx.origin.address →
    w.balances ctx.origin.address + w.balances a < 2 ^ 256

section
variable {db : StateDb} {saved : List Ledger} {h : Host State}

/-- A read of the ledger is answered. -/
theorem wp_onState_gets {α : Type} {x : StateM α} {f : Ledger → α}
    (hxy : StateRefines x (Prog.gets f)) (hrep : Rep db saved h.state w) :
    wp (Host.onState x) (fun _ => False) (fun _ h' => Rep db saved h'.state w) h :=
  wp_mapErr.mpr (wp_inState hxy hrep fun _ hrep' => hrep')

/-- A program over the ledger that returns is answered. -/
theorem wp_onState_returns {α : Type} {x : StateM α} {y : LedgerM α} (hxy : StateRefines x y)
    (hrep : Rep db saved h.state w) (hy : wp y (fun _ => False) (fun _ _ => True) w) :
    wp (Host.onState x) (fun _ => False) (fun _ _ => True) h :=
  wp_mapErr.mpr (wp_inState hxy hrep (wp_post hy fun _ _ _ _ _ => trivial))

theorem extcode_answers (hcodes : ∀ a u info, w.accounts a = some u → u.code = some info →
      info.code.length < 2 ^ 64) (a : Address) (hrep : Rep db saved h.state w) :
    wp (Context.extcode g a) (fun _ => False) (fun r h' => Rep db saved h'.state w ∧
      ∀ code, r = .ok (some code) → code.length < 2 ^ 64) h := by
  unfold Context.extcode
  rcases g.machine.contract a g.spec with _ | internal
  · refine wp_mapErr.mpr (wp_inState (code_refines a) hrep ?_)
    refine wp_bind.mpr (wp_bind.mpr (wp_gets.mpr ?_))
    rcases hu : w.accounts a with _ | u
    · exact fun _ hrep' => ⟨hrep', fun _ hr => (nomatch hr)⟩
    refine wp_ite (fun _ => fun _ hrep' => ⟨hrep', fun _ hr => (nomatch hr)⟩) fun _ => ?_
    refine fun _ hrep' => ⟨hrep', ?_⟩
    intro code hr
    rcases hinfo : u.code with _ | info
    · simp [hinfo, Except.mapError] at hr
    · simp only [hinfo, Except.mapError, Option.bind_some, Option.map_some, Except.ok.injEq,
        Option.some_inj] at hr
      subst hr
      exact hcodes a u info hu hinfo
  · refine ⟨hrep, ?_⟩
    rintro _ ⟨⟩
    decide

/-- Destroying a contract is answered. -/
theorem suicide_answers (hspec : g.spec.GenesisConstants) (hw : w.Answering g ctx)
    (hrep : Rep db saved h.state w) (a : Address) (nonce : U256) :
    wp (suicide ctx.origin.address a g.spec nonce) (fun _ => False) (fun _ _ => True) h := by
  refine wp_bind.mpr (wp_update.mpr (wp_bind.mpr ?_))
  refine wp_mapErr.mpr (wp_inState (balance_refines _) (by exact hrep) fun s hrep' => ?_)
  have hself : (w.balanceOf ctx.origin.address).toNat ≤ w.balances ctx.origin.address := le_refl _
  refine wp_ite (fun _ => wp_bind.mpr (wp_update.mpr (wp_bind.mpr (wp_mapErr.mpr ?_)))) fun hne =>
    wp_bind.mpr (wp_update.mpr (wp_mapErr.mpr ?_))
  · refine wp_inTouched (fun mode => sub_balance_refines _ _ mode) hrep'
      (wp_post (Ledger.sub_balance_returns hself _) ?_)
    rintro (e | mode) w' - s' hrep''
    · trivial
    · exact wp_onState_returns (subtract_total_issued_refines _) hrep'' trivial
  · refine wp_inTouched (fun mode => transfer_balance_refines _ _ _ mode nonce) hrep' (wp_post
      (Ledger.transfer_balance_returns (cleanup_mode_ne hspec _) hself (fun _ => ?_) nonce) ?_)
    · rw [Nat.add_comm]
      exact hw.balances a hne
    · rintro (e | mode) w' - s' -
      · trivial
      · trivial

/-- The context of a frame whose state stands for the ledger answers. -/
theorem answers_of_rep (hspec : g.spec.GenesisConstants) (hw : w.Answering g ctx)
    {instruction : Option Instruction} {stack : List U256}
    (hblock : instruction = some .BLOCKHASH → ∀ number, stack.head? = some number →
      number.toNat + 1 < 2 ^ 256) :
    Answers g ctx instruction stack fun h => Rep db saved h.state w where
  storage_at key h hrep := wp_onState_gets (storage_at_refines _ key) hrep
  «exists» a h hrep := wp_onState_gets (exists_refines a) hrep
  exists_and_not_null a h hrep := wp_onState_gets (exists_and_not_null_refines a) hrep
  balance a h hrep := wp_onState_gets (balance_refines a) hrep
  extcode a h hrep := extcode_answers hw.codes a hrep
  extcodehash a h hrep := by
    unfold Context.extcodehash
    rcases g.machine.contract a g.spec with _ | internal
    · exact wp_onState_gets (code_hash_refines a) hrep
    · exact hrep
  extcodesize a h hrep := by
    unfold Context.extcodesize
    rcases g.machine.contract a g.spec with _ | internal
    · refine wp_mapErr.mpr (wp_inState (code_size_refines a) hrep ?_)
      refine wp_bind.mpr (wp_bind.mpr (wp_gets.mpr ?_))
      rcases w.accounts a with _ | u
      · exact fun _ hrep' => hrep'
      · exact wp_ite (fun _ => fun _ hrep' => hrep') fun _ => fun _ hrep' => hrep'
    · exact hrep
  blockhash hins number h hnumber hrep := by
    have hlt := hblock hins number hnumber
    refine wp_bind.mpr (wp_expect (fun hnone => ?_) fun _ _ => trivial)
    have hone : (1 : U256).toNat = 1 := rfl
    have := U256.checked_add_eq_none.mp hnone
    omega
  set_storage _ key value h hrep := by
    refine wp_ite (fun _ => trivial) fun _ => ?_
    refine wp_onState_returns (set_storage_refines _ key value) hrep ?_
    refine wp_bind.mpr (wp_gets.mpr (wp_when (fun _ => wp_bind.mpr (wp_gets.mpr ?_))
      fun _ => trivial))
    rcases w.accounts ctx.origin.address with _ | u
    · trivial
    · trivial
  log topics data h _ := wp_ite (fun _ => trivial) fun _ => trivial
  suicide _ a nonce h hrep := wp_ite (fun _ => trivial) fun _ =>
    suicide_answers hspec hw hrep a nonce
  create _ gas value code scheme h hrep := by
    refine wp_bind.mpr (wp_mapErr.mpr (wp_inState (nonce_refines _) hrep fun s hrep' => ?_))
    refine wp_bind.mpr (wp_post (Q := fun _ _ => True) (wp_when (fun _ => ?_) fun _ => trivial) ?_)
    · refine wp_onState_returns (inc_nonce_refines _ _) hrep' (wp_bind.mpr (wp_gets.mpr ?_))
      have hsome : ∃ nonce, U256.checked_add
          (w.accountOrNew ctx.origin.address g.spec.contract_start_nonce).nonce 1 = some nonce := by
        rcases hadd : U256.checked_add
          (w.accountOrNew ctx.origin.address g.spec.contract_start_nonce).nonce 1 with _ | nonce
        · have hone : (1 : U256).toNat = 1 := rfl
          have hover := U256.checked_add_eq_none.mp hadd
          have := hw.nonce
          omega
        · exact ⟨nonce, rfl⟩
      obtain ⟨nonce, hadd⟩ := hsome
      unfold Ledger.accountOrNew at hadd
      simp only [AccountView.inc_nonce, hadd]
      trivial
    · rintro (e | _) h' - <;> trivial

end

end

section
attribute [local instance] keccakOfEmpty

/-- Code that creates a contract without code: three times `PUSH1 0`, `CREATE`, `STOP`. -/
def creatingCode : Bytes := [0x60, 0x00, 0x60, 0x00, 0x60, 0x00, 0xf0, 0x00]

def creatingCall : ActionParams where
  code_address := 1
  code_hash := none
  address := 1
  sender := 7
  original_sender := 7
  gas := 100000
  gas_price := 0
  value := .Transfer 0
  code := some creatingCode
  data := some []
  call_type := .Call
  create_type := .None
  params_type := .Separate

def creatingContext : FrameContext := ⟨0, false, .of_params creatingCall, false⟩

theorem answering_empty : (State.new .empty).ledger.Answering bareMachine creatingContext :=
  ⟨fun _ _ _ h => (nomatch h), by decide, fun _ _ => show 0 + 0 < 2 ^ 256 by decide⟩

/-- The creation fails, and the code stops after it. -/
theorem creation_is_taken_up :
    ∃ i : Interpreter .usize, Interpreter.Proceeds bareMachine creatingContext
        (.new creatingCall creatingCode) i ∧ i.stack = [0] ∧
      ∃ r i' h', (Interpreter.step bareMachine creatingContext).run (i, emptyHost) =
        .ok (.ok r, (i', h')) ∧ r ≠ .Stopped := by
  have hrep : Rep .empty [] emptyHost.state (State.new .empty).ledger := rep_new .empty
  have hans : ∀ (instruction : Instruction) (stack : List U256), instruction ≠ .BLOCKHASH →
      Answers bareMachine creatingContext (some instruction) stack
        fun h => Rep .empty [] h.state (State.new .empty).ledger :=
    fun _ stack hne => answers_of_rep (by decide) answering_empty
      fun h => absurd (Option.some_inj.mp h) hne
  have hrun : ∃ i : Interpreter .usize, Interpreter.Proceeds bareMachine creatingContext
      (.new creatingCall creatingCode) i ∧ i.stack = [0] ∧ i.fetched = some .STOP := by
    have hstart : Interpreter.Proceeds bareMachine creatingContext
      (.new creatingCall creatingCode) _ := .start
    have hpush := hstart.step (hans (.PUSH 0) _ (by decide)) hrep rfl
    have hpush' := hpush.step (hans (.PUSH 0) _ (by decide)) hrep rfl
    have hpush'' := hpush'.step (hans (.PUSH 0) _ (by decide)) hrep rfl
    have hfits : ∀ gas : U256, ContractCreateResult.Fits gas (.Failed .OutOfGas) := fun _ => trivial
    have hcreate := hpush''.create (hans .CREATE _ (by decide)) hrep rfl (hfits _) rfl
    exact ⟨_, hcreate, rfl, rfl⟩
  obtain ⟨i, hrun, hstack, hfetched⟩ := hrun
  obtain ⟨r, i', h', hstep, hstopped, -⟩ := Interpreter.interpreter_never_panics (by decide)
    (by decide) (by decide) hrun (I := fun h => Rep .empty [] h.state (State.new .empty).ledger)
    (by rw [hfetched]; exact hans .STOP _ (by decide)) hrep
  exact ⟨i, hrun, hstack, r, i', h', hstep, hstopped⟩

end

end CfxEvm
