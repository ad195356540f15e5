import CfxEvm.Evm.Proofs.TrapProofs
import CfxEvm.Frame.Proofs.StackGasProofs

/-!
# Proofs: stacks without internal contracts

Where no internal contract is active, only interpreters wait for results, so every call and creation
that a frame asks for is one of the instructions `CALL`, `CALLCODE`, `DELEGATECALL`, `STATICCALL`,
`CREATE` and `CREATE2`. Under the static flag there is no creation among them, and a value goes
nowhere but from an address to itself.
-/

open Lib Lib.Prog

namespace CfxEvm

/-! ## Calls and creations of an interpreter -/

/-- A call that passes the check of the static flag, and whose value moves no balance. -/
def ActionParams.Harmless (params : ActionParams) : Prop :=
  (∀ v, params.value = .Transfer v → v = 0 ∨ params.sender = params.address) ∧
    (params.call_type = .StaticCall ∨ params.call_type = .Call → params.value.value = 0)

/-- What a frame with or without the static flag may ask for. -/
def TrapKind.Allowed (static_flag : Bool) : TrapKind → Prop
  | .Create _ => static_flag = false
  | .Call params => static_flag = true ∨ params.call_type = .StaticCall → params.Harmless

/-- The trap of an instruction is allowed. -/
def InstructionResult.TrapAllowed {c : CostType} (static_flag : Bool)
    (result : InstructionResult c) : Prop :=
  ∀ trap, result = .Trap trap → trap.Allowed static_flag

namespace Interpreter

variable [Keccak] {g : Globals} {ctx : FrameContext} {params : InterpreterParams} {c : CostType}

theorem exec_create_allowed (instruction : Instruction) (provided : Option (Cost c)) :
    Yields (InstructionResult.TrapAllowed ctx.static_flag)
      (exec_create g ctx params instruction provided) := by
  refine .seq fun _ => .seq fun _ => .seq fun _ => .seq fun _ => .seq fun _ =>
    .ite (fun _ => .fail _) fun hs => .seq fun _ => .seq fun _ => .ite (fun _ => ?_) fun _ => ?_
  · refine .seq fun _ => .bind (P := fun trap => ∃ p, trap = .Create p) (.zoom ?_)
      fun trap htrap => .pure ?_
    · exact .seq fun _ => .seq fun _ => .pure ⟨_, rfl⟩
    · obtain ⟨p, rfl⟩ := htrap
      rintro _ ⟨⟩
      simpa [TrapKind.Allowed] using hs
  · refine .seq fun _ => .pure ?_
    rintro _ ⟨⟩

/-- The value operand of a call. -/
def ValueOf (instruction : Instruction) (value : Option U256) : Prop :=
  (instruction = .DELEGATECALL ∧ value = none) ∨ (instruction = .STATICCALL ∧ value = some 0) ∨
    ((instruction = .CALL ∨ instruction = .CALLCODE) ∧ ∃ v, value = some v)

omit [Keccak] in
theorem call_value_yields {instruction : Instruction} (hcall : is_call instruction) :
    Yields (ValueOf instruction) (call_value instruction) := by
  rcases hcall with rfl | rfl | rfl | rfl
  · exact .seq fun v => .pure (.inr (.inr ⟨.inl rfl, v, rfl⟩))
  · exact .seq fun v => .pure (.inr (.inr ⟨.inr rfl, v, rfl⟩))
  · exact .pure (.inl ⟨rfl, rfl⟩)
  · exact .pure (.inr (.inl ⟨rfl, rfl⟩))

/-- The parameters of a call as far as they depend on its kind. -/
def callValue (ctx : FrameContext) (value : Option U256) : ActionValue :=
  match value with
  | some value => .Transfer value
  | none => .Apparent ctx.origin.value

theorem call_target_yields {instruction : Instruction} {value : Option U256}
    (hvalue : ValueOf instruction value) (code_address : Address) :
    Yields (fun r => ctx.static_flag = true ∨ r.2.2.2 = CallType.StaticCall →
        (∀ v, value = some v → v = 0 ∨ r.1 = r.2.1) ∧
        (r.2.2.2 = .StaticCall ∨ r.2.2.2 = .Call → value = some 0))
      (call_target ctx params instruction code_address value) := by
  rcases hvalue with ⟨rfl, rfl⟩ | ⟨rfl, rfl⟩ | ⟨rfl | rfl, v, rfl⟩
  · exact .pure fun _ => ⟨by simp, by simp⟩
  · refine .pure fun _ => ⟨fun v hv => .inl (Option.some_inj.mp hv).symm, fun _ => rfl⟩
  · refine .ite (fun _ => .fail _) fun hs => .seq fun _ => .pure fun hstatic => ?_
    have hzero : v = 0 := by
      rcases hstatic with hstatic | hstatic
      · simpa [hstatic, U256.is_zero] using hs
      · cases hstatic
    exact ⟨fun u hu => .inl (Option.some_inj.mp hu ▸ hzero), fun _ => congrArg some hzero⟩
  · exact .seq fun _ => .pure fun _ => ⟨fun _ _ => .inr rfl, by simp⟩

theorem exec_call_allowed {instruction : Instruction} (hcall : is_call instruction)
    (provided : Option (Cost c)) :
    Yields (InstructionResult.TrapAllowed ctx.static_flag)
      (exec_call g ctx params instruction provided) := by
  refine .seq fun _ => .seq fun _ => .seq fun _ => .seq fun _ =>
    .bind (.zoom (call_value_yields hcall)) fun value hvalue => .seq fun _ => .seq fun _ =>
    .seq fun _ => .seq fun _ => .seq fun _ => .bind (.zoom (call_target_yields hvalue _))
    fun target htarget => .seq fun _ => .ite (fun _ => ?_) fun _ => ?_
  · refine .seq fun input => .bind (P := fun trap => ∃ p : ActionParams, trap = .Call p ∧
      p.sender = target.1 ∧ p.address = target.2.1 ∧ p.call_type = target.2.2.2 ∧
      p.value = callValue ctx value) (.zoom ?_) fun trap htrap => .seq fun _ => .pure ?_
    · exact .seq fun _ => .seq fun _ => .pure ⟨_, rfl, rfl, rfl, rfl, rfl⟩
    · obtain ⟨p, rfl, hsender, haddress, htype, hval⟩ := htrap
      rintro _ ⟨⟩ hstatic
      rw [htype] at hstatic
      obtain ⟨hmoves, hzero⟩ := htarget hstatic
      refine ⟨fun v hv => ?_, fun ht => ?_⟩
      · rw [hsender, haddress]
        rw [hval] at hv
        cases value with
        | none => cases hv
        | some u =>
          cases hv
          exact hmoves v rfl
      · rw [htype] at ht
        rw [hval, hzero ht]
        rfl
  · refine .seq fun _ => .pure ?_
    rintro _ ⟨⟩

/-- The instructions ask only for what the static flag allows. -/
theorem trapsAllowed_static :
    TrapsAllowed c g ctx params (fun _ => True) fun trap _ => trap.Allowed ctx.static_flag where
  create _ provided l h _ :=
    wp_post (exec_create_allowed _ provided (l, h)) fun _ _ hr trap ht => hr _ ht trap rfl
  call _ hcall provided l h _ :=
    wp_post (exec_call_allowed hcall provided (l, h)) fun _ _ hr trap ht => hr _ ht trap rfl

/-- So does a step. -/
theorem step_allowed {i : Interpreter c} (hres : i.Resumable) (h : Host State) :
    wp (step g ctx) (fun _ => True) (fun r _ => ∀ trap, r = .ok (.Trap trap) →
      trap.Allowed ctx.static_flag) (i, h) :=
  step_traps (T := fun trap _ => trap.Allowed ctx.static_flag) (.of_forall fun _ _ => id)
    trapsAllowed_static hres trivial

end Interpreter

/-! ## Frames -/

/-- No internal contract runs in the frame, and under the static flag it creates nothing. -/
structure CallCreateFrame.Plain (frame : CallCreateFrame) : Prop where
  kind : ∀ internal, frame.kind ≠ .CallInternalContract internal
  is_create : frame.context.is_create = frame.create_address.isSome
  static : frame.context.static_flag = true → frame.create_address = none

def Exec.Plain : Exec → Prop
  | InternalContractExec _ _ | PassResult _ => False
  | _ => True

def FrameStatus.Plain : FrameStatus → Prop
  | ResumeCall (.Resume _) | ResumeCreate (.Resume _) => False
  | _ => True

def Phase.Plain : Phase → Prop
  | Enter frame => frame.Plain ∧ ∀ params, frame.status = .Input params →
      frame.context.static_flag = true → params.Harmless
  | Execute frame exec => frame.Plain ∧ exec.Plain
  | LastRes (.SubCallCreate kind caller) => caller.Plain ∧ caller.status.Plain ∧
      kind.Allowed caller.context.static_flag
  | LastRes (.Return _) => True

/-- No internal contract runs in any frame or waits for a result. -/
structure FrameStack.Plain (s : FrameStack) : Prop where
  phase : s.phase.Plain
  waiting : ∀ f ∈ s.frame_stack, f.Plain ∧ f.status.Plain

/-- No address has an active internal contract. -/
def Globals.NoInternalContract (g : Globals) : Prop :=
  ∀ address, g.machine.contract address g.spec = none

section
variable {g : Globals}

theorem plain_new_call (hno : g.NoInternalContract) (params : ActionParams) (depth : Nat)
    (static_flag : Bool) : (CallCreateFrame.new_call_raw g params depth static_flag).Plain where
  kind internal := by
    simp only [CallCreateFrame.new_call_raw, hno params.code_address]
    split
    · simp
    · split <;> simp
  is_create := rfl
  static _ := rfl

theorem plain_new_create (params : ActionParams) (depth : Nat) :
    (CallCreateFrame.new_create_raw params depth false).Plain where
  kind internal := by simp [CallCreateFrame.new_create_raw]
  is_create := rfl
  static h := nomatch h

/-- What runs in a frame at its beginning. -/
theorem plain_exec_object {kind : FrameKind}
    (hkind : ∀ internal, kind ≠ .CallInternalContract internal)
    {params : ActionParams} {exec : Exec}
    (h : CallCreateFrame.exec_object kind params = .ok exec) : exec.Plain := by
  have hcreate : Exec.create params = .ok exec → exec.Plain := by
    intro h
    unfold Exec.create at h
    split at h
    · obtain rfl := Except.ok.inj h
      split <;> trivial
    · cases h
  cases kind with
  | Transfer =>
    cases h
    trivial
  | CallBuiltin builtin =>
    cases h
    trivial
  | CallInternalContract internal => exact absurd rfl (hkind internal)
  | ExecCall => exact hcreate h
  | ExecCreate => exact hcreate h

/-- What takes up a result. -/
theorem plain_resume_object {status : FrameStatus} (hstatus : status.Plain)
    {r : Except VmError FrameReturn} {exec : Exec}
    (h : CallCreateFrame.resume_object status r = .ok exec) : exec.Plain := by
  cases status with
  | ResumeCall resume =>
    cases resume with
    | Interpreter c i =>
      simp only [CallCreateFrame.resume_object, Suspended.resume_call] at h
      rcases hr : i.resume_call (into_message_call_result r) with p | i' <;>
        rw [hr] at h <;> cases h
      trivial
    | Resume resume => exact hstatus.elim
  | ResumeCreate resume =>
    cases resume with
    | Interpreter c i =>
      simp only [CallCreateFrame.resume_object, Suspended.resume_create, bind, Except.bind] at h
      split at h
      · cases h
      · rename_i result _
        rcases hr : i.resume_create result with p | i' <;> rw [hr] at h <;> cases h
        trivial
    | Resume resume => exact hstatus.elim
  | Input params => cases h
  | Running => cases h
  | Done => cases h

end

/-- What a step may come to in a frame with or without the static flag. -/
def Progress.Plain (static_flag : Bool) : Progress → Prop
  | .Continue exec => exec.Plain
  | .Output (.Return _) => True
  | .Output (.SubCallCreate trap resume) => trap.Allowed static_flag ∧
      ∃ c i, resume = .Interpreter c i

/-- What a step of a plain object comes to is plain, and asks only for what is allowed. -/
theorem plain_step [Keccak] {g : Globals} {ctx : FrameContext} {exec : Exec} (hplain : exec.Plain)
    (hfits : exec.Fits) : Yields (Progress.Plain ctx.static_flag) (exec.step g ctx) := by
  cases exec with
  | NoopExec gas => exact .pure trivial
  | BuiltinExec builtin params => exact .pure trivial
  | InternalContractExec internal params => exact hplain.elim
  | PassResult pass => exact hplain.elim
  | Interpreter c i =>
    intro h
    refine wp_bind.mpr (wp_withPart.mpr (wp_post (Interpreter.step_allowed hfits.1 h) ?_))
    rintro (e | _ | value | _ | trap) ⟨i', h'⟩ hstep
    · rintro progress ⟨⟩
      trivial
    · trivial
    · rintro progress ⟨⟩
      trivial
    · rintro progress ⟨⟩
      trivial
    · rintro progress ⟨⟩
      exact ⟨hstep trap rfl, c, i', rfl⟩

/-! ## Rounds -/

namespace FrameStack

variable [Keccak] [HashOrder] {g : Globals} {s s' : FrameStack}

theorem plain_initial (hno : g.NoInternalContract) (h : Initial g s) : s.Plain := by
  cases h with
  | call state cache substate observer base params hstate htype =>
    refine ⟨⟨plain_new_call hno params 0 false, ?_⟩, by simp [new]⟩
    rintro _ ⟨⟩ hstatic
    simp [CallCreateFrame.new_call_raw, htype] at hstatic
  | create state cache substate observer base params hstate =>
    refine ⟨⟨plain_new_create params 0, ?_⟩, by simp [new]⟩
    rintro _ ⟨⟩ hstatic
    cases hstatic

omit [Keccak] [HashOrder] in
theorem plain_calls (hno : g.NoInternalContract) {kind : TrapKind} {caller : CallCreateFrame}
    (hallowed : kind.Allowed caller.context.static_flag) :
    (Phase.Enter (CallCreateFrame.from_trap_error g kind caller)).Plain := by
  cases kind with
  | Call params =>
    refine ⟨plain_new_call hno params _ _, ?_⟩
    rintro _ ⟨⟩ hstatic
    refine hallowed ?_
    simpa [CallCreateFrame.from_trap_error, CallCreateFrame.new_call_raw] using hstatic
  | Create params =>
    have hstatic : caller.context.static_flag = false := hallowed
    simp only [CallCreateFrame.from_trap_error, hstatic]
    refine ⟨plain_new_create params _, ?_⟩
    rintro _ ⟨⟩ h
    cases h

/-- A round leads from a plain stack to a plain one. -/
theorem plain_round (hno : g.NoInternalContract) (hfits : s.GasFits) (hplain : s.Plain)
    (hround : Round g s s') : s'.Plain := by
  have hexec := hfits.1
  have hphase₀ := hplain.phase
  cases hround with
  | @enter frame frame' exec h hphase hrun =>
    rw [hphase] at hphase₀
    obtain ⟨params, h₁, hbegins⟩ := frame_exec_inv hrun
    obtain rfl := hbegins.frame_eq
    have hframe := hphase₀.1
    exact ⟨⟨⟨hframe.kind, hframe.is_create, hframe.static⟩,
      plain_exec_object hframe.kind hbegins.object⟩,
      hplain.waiting⟩
  | @go_on frame exec exec' h hphase hrun =>
    rw [hphase] at hphase₀ hexec
    exact ⟨⟨hphase₀.1, (plain_step hphase₀.2 hexec).of_run hrun⟩, hplain.waiting⟩
  | returns => exact ⟨trivial, hplain.waiting⟩
  | @traps frame exec kind resume h hphase hrun =>
    rw [hphase] at hphase₀ hexec
    obtain ⟨hallowed, c, i, rfl⟩ := (plain_step hphase₀.2 hexec).of_run hrun
    have hframe := hphase₀.1
    refine ⟨⟨⟨hframe.kind, hframe.is_create, hframe.static⟩, ?_, hallowed⟩, hplain.waiting⟩
    cases kind <;> trivial
  | @calls kind caller hphase =>
    rw [hphase] at hphase₀
    refine ⟨plain_calls hno hphase₀.2.2, fun f hf => ?_⟩
    rcases List.mem_cons.mp hf with rfl | hf
    · exact ⟨hphase₀.1, hphase₀.2.1⟩
    · exact hplain.waiting f hf
  | @resumes r parent parent' rest exec hphase hstack hresume =>
    obtain ⟨hobj, rfl⟩ := resume_inv hresume
    have hwaiting := hplain.waiting
    rw [hstack] at hwaiting
    obtain ⟨hframe, hstatus⟩ := hwaiting parent (by simp)
    exact ⟨⟨⟨hframe.kind, hframe.is_create, hframe.static⟩, plain_resume_object hstatus hobj⟩,
      fun f hf => hwaiting f (by simp [hf])⟩

/-- Without internal contracts every stack that is reached is plain. -/
theorem plain_of_reachable (hspec : g.spec.GenesisConstants) (hno : g.NoInternalContract)
    (h : Reachable g s) : s.Plain := by
  obtain ⟨s₀, hinit, hrun⟩ := h
  refine (Rounds.invariant (I := fun s => s.GasFits ∧ s.Plain) (fun s s' hs hnext => ?_)
    ⟨gasFits_initial hinit, plain_initial hno hinit⟩ hrun).2
  have hround := round_of_next hnext
  exact ⟨(gasStep_of_round hspec hs.1 hround).fits, plain_round hno hs.1 hs.2 hround⟩

/-! ## Where no internal contract runs -/

end FrameStack

/-- No internal contract runs in the current frame, nor in the one that is about to be entered. -/
def Phase.NoInternal : Phase → Prop
  | Enter frame => ∀ internal, frame.kind ≠ .CallInternalContract internal
  | Execute _ exec => ∀ internal params, exec ≠ .InternalContractExec internal params
  | LastRes _ => True

namespace FrameStack

variable [Keccak] {g : Globals} {s s' : FrameStack}

/-- An execution that goes on is one of an interpreter. -/
theorem continue_of_step {ctx : FrameContext} {exec : Exec} :
    Yields (fun progress => ∀ exec', progress = .Continue exec' → ∃ c i, exec' = .Interpreter c i)
      (exec.step g ctx) := by
  cases exec with
  | NoopExec gas => exact .pure (by rintro _ ⟨⟩)
  | BuiltinExec builtin params => exact .pure (by rintro _ ⟨⟩)
  | InternalContractExec internal params => exact .seq fun _ => .pure (by rintro _ ⟨⟩)
  | PassResult pass => exact .seq fun _ => .pure (by rintro _ ⟨⟩)
  | Interpreter c i =>
    refine .seq fun p => ?_
    obtain ⟨_ | _ | _ | _ | _, i'⟩ := p
    · exact .pure (by rintro _ ⟨⟩)
    · exact .abort _
    · exact .pure (by rintro _ ⟨⟩)
    · refine .pure ?_
      rintro _ ⟨⟩
      exact ⟨c, i', rfl⟩
    · exact .pure (by rintro _ ⟨⟩)

omit [Keccak] in
theorem resume_object_ne_internal {status : FrameStatus} {r : Except VmError FrameReturn}
    {exec : Exec}
    (h : CallCreateFrame.resume_object status r = .ok exec) (internal : InternalContract)
    (params : ActionParams) : exec ≠ .InternalContractExec internal params := by
  rintro rfl
  have hmap : ∀ {α : Type} {f : α → Exec} {x : Except Panic α},
      (∀ a, f a ≠ .InternalContractExec internal params) →
      x.map f ≠ .ok (.InternalContractExec internal params) := by
    rintro α f (e | a) hf h
    · cases h
    · exact hf a (Except.ok.inj h)
  have hcreate : ∀ (resume : Suspended) result,
      resume.resume_create result ≠ .ok (.InternalContractExec internal params) := by
    rintro (_ | _) _ <;> exact hmap fun _ => Exec.noConfusion
  have hcall : ∀ (resume : Suspended) result,
      resume.resume_call result ≠ .ok (.InternalContractExec internal params) := by
    rintro (_ | _) _ <;> exact hmap fun _ => Exec.noConfusion
  cases status with
  | ResumeCreate resume =>
    simp only [CallCreateFrame.resume_object, bind, Except.bind] at h
    split at h
    · cases h
    · exact hcreate resume _ h
  | ResumeCall resume => exact hcall resume _ h
  | Input params => cases h
  | Running => cases h
  | Done => cases h

variable [HashOrder]

theorem noInternal_round (hno : g.NoInternalContract) (h : s.phase.NoInternal)
    (hround : Round g s s') : s'.phase.NoInternal := by
  cases hround with
  | @enter frame frame' exec h' hphase hrun =>
    rw [hphase] at h
    obtain ⟨params, h₁, hbegins⟩ := frame_exec_inv hrun
    have hplain := plain_exec_object h hbegins.object
    rintro internal params rfl
    exact hplain
  | @go_on frame exec exec' h' hphase hrun =>
    obtain ⟨c, i, rfl⟩ := continue_of_step.of_run hrun exec' rfl
    exact fun _ _ => Exec.noConfusion
  | returns => trivial
  | traps => trivial
  | @calls kind caller hphase =>
    cases kind with
    | Call params => exact (plain_new_call hno params _ _).kind
    | Create params =>
      intro internal
      simp [CallCreateFrame.from_trap_error, CallCreateFrame.new_create_raw]
  | @resumes r parent parent' rest exec hphase hstack hresume =>
    obtain ⟨hobj, rfl⟩ := resume_inv hresume
    exact resume_object_ne_internal hobj

/-- Without internal contracts none runs. -/
theorem noInternal_of_rounds (hno : g.NoInternalContract) (h : s.phase.NoInternal)
    (hrun : Rounds (step g) s s') : s'.phase.NoInternal :=
  Rounds.invariant (I := fun s => s.phase.NoInternal)
    (fun _ _ hs hnext => noInternal_round hno hs (round_of_next hnext)) h hrun

end FrameStack

end CfxEvm
