import CfxEvm.InternalContract.Proofs.GuardedFunctionProofs

/-!
# Proofs: guards of whole runs

Where code runs as the sites allow, no round of the frames panics on a balance or fails with an
error of the database, other than as the guards of the sites allow.
-/

open Lib Lib.Prog

namespace CfxEvm

variable {g : Globals}

/-! ## Panics of the parts -/

theorem GasMan.record_return_panic {m : GasMan} {gas_left : U256} {p : Panic}
    (h : m.record_return gas_left = .error p) : ¬BalancePanic p := by
  unfold record_return at h
  generalize m.gas_record = record at h
  rcases record with _ | ⟨child, rest⟩
  · exact (Except.error.inj h) ▸ id
  dsimp only at h
  generalize child.minimum_init_gas gas_left _ = minimum at h
  rcases minimum with _ | minimum
  · exact (Except.error.inj h) ▸ id
  rcases rest with _ | ⟨parent, rest⟩
  · cases h
  dsimp only at h
  split at h
  · cases h
  · exact (Except.error.inj h) ▸ id

theorem MultiObservers.record_result_panic {o : MultiObservers} {action : Except Panic Action}
    (haction : ∀ p, action = .error p → ¬BalancePanic p) {result : Except VmError FrameReturn}
    {p : Panic} (h : o.record_result action result = .error p) : ¬BalancePanic p := by
  have htracer : ∀ success p, o.tracer.mapM (fun t => do t.record_result (← action) success) =
      .error p → ¬BalancePanic p := by
    intro success p h
    rcases ho : o.tracer with _ | t
    · rw [ho] at h
      cases h
    · rw [ho] at h
      rcases ha : action with q | a
      · rw [ha] at h
        obtain rfl : q = p := Except.error.inj h
        exact haction q ha
      · rw [ha] at h
        rcases hc : t.checkpoints with _ | ⟨start, rest⟩
        · simp only [Option.mapM_some, bind, Except.bind, ExecutiveTracer.record_result, hc,
            Functor.map, Except.map] at h
          obtain rfl := Except.error.inj h
          exact id
        · simp only [Option.mapM_some, bind, Except.bind, ExecutiveTracer.record_result, hc,
            Functor.map, Except.map] at h
          cases h
  have hgas : ∀ gas_left p, o.gas_man.mapM (fun m => m.record_return gas_left) = .error p →
      ¬BalancePanic p := by
    intro gas_left p h
    rcases ho : o.gas_man with _ | m
    · rw [ho] at h
      cases h
    · rw [ho] at h
      rcases hm : m.record_return gas_left with q | m'
      · simp only [Option.mapM_some, hm, Functor.map, Except.map] at h
        obtain rfl : q = p := Except.error.inj h
        exact GasMan.record_return_panic hm
      · simp only [Option.mapM_some, hm, Functor.map, Except.map] at h
        cases h
  unfold record_result at h
  simp only [bind, Except.bind] at h
  split at h
  · rename_i q hq
    obtain rfl : q = p := Except.error.inj h
    exact htracer _ q hq
  · split at h
    · rename_i q hq
      obtain rfl : q = p := Except.error.inj h
      exact hgas _ q hq
    · cases h

theorem Action.of_call_result_panic {r : Except VmError FrameReturn} {p : Panic}
    (h : Action.of_call_result r = .error p) : ¬BalancePanic p := by
  unfold of_call_result at h
  split at h
  · cases h
  · exact (Except.error.inj h) ▸ id

theorem Action.of_create_result_panic {r : Except VmError FrameReturn} {p : Panic}
    (h : Action.of_create_result r = .error p) : ¬BalancePanic p := by
  unfold of_create_result at h
  repeat' split at h
  all_goals first
    | exact (Except.error.inj h) ▸ id
    | cases h

theorem FrameStackInfo.push_panic {c : FrameStackInfo} {a : Address} {is_create : Bool} {p : Panic}
    (h : c.push a is_create = .error p) : ¬BalancePanic p := by
  unfold push at h
  dsimp only at h
  split at h
  · cases h
  · exact (Except.error.inj h) ▸ id

theorem FrameStackInfo.pop_panic {c : FrameStackInfo} {p : Panic} (h : c.pop = .error p) :
    ¬BalancePanic p := by
  unfold pop at h
  repeat' split at h
  all_goals first
    | exact (Except.error.inj h) ▸ id
    | cases h

theorem exec_object_panic {kind : FrameKind} {params : ActionParams} {p : Panic}
    (h : CallCreateFrame.exec_object kind params = .error p) : ¬BalancePanic p := by
  have hcreate : Exec.create params = .error p → ¬BalancePanic p := by
    intro h
    unfold Exec.create at h
    split at h
    · cases h
    · exact (Except.error.inj h) ▸ id
  cases kind with
  | ExecCall => exact hcreate h
  | ExecCreate => exact hcreate h
  | _ => cases h

theorem Interpreter.unused_gas_panic {c : CostType} {gas_left : U256} {p : Panic}
    (h : (unused_gas gas_left : Except Panic (InstructionResult c)) = .error p) :
    ¬BalancePanic p := by
  unfold unused_gas at h
  split at h
  · cases h
  · exact (Except.error.inj h) ▸ id

/-- What a map leaves of a panic. -/
theorem panic_of_map {α β : Type} {x : Except Panic α} {f : α → β} {p : Panic}
    (h : x.map f = .error p) : x = .error p := by
  cases x with
  | error q =>
    obtain rfl : q = p := Except.error.inj h
    rfl
  | ok a => cases h

theorem Interpreter.resume_call_panic {c : CostType} {i : Interpreter c} {r : MessageCallResult}
    {p : Panic} (h : i.resume_call r = .error p) : ¬BalancePanic p := by
  have hreturned : ∀ out flag gas_left data, i.returned out flag gas_left data = .error p →
      ¬BalancePanic p := by
    intro out flag gas_left data h
    unfold returned at h
    split at h
    · exact (Except.error.inj h) ▸ id
    · split at h
      · exact (Except.error.inj h) ▸ id
      · exact unused_gas_panic (panic_of_map h)
  unfold resume_call at h
  split at h
  · exact (Except.error.inj h) ▸ id
  · split at h
    · exact hreturned _ _ _ _ h
    · exact hreturned _ _ _ _ h
    · cases h

theorem Interpreter.resume_create_panic {c : CostType} {i : Interpreter c}
    {r : ContractCreateResult}
    {p : Panic} (h : i.resume_create r = .error p) : ¬BalancePanic p := by
  unfold resume_create at h
  split at h
  · exact unused_gas_panic (panic_of_map h)
  · exact unused_gas_panic (panic_of_map h)
  · cases h

theorem Resume.resume_call_panic {self : Resume} {r : MessageCallResult} {p : Panic}
    (h : self.resume_call r = .error p) : ¬BalancePanic p := by
  unfold resume_call at h
  split at h
  · have h := panic_of_map h
    split at h
    · rw [Abi.encode_one_panic Abi.encodes_bytes h]
      exact id
    · exact (Except.error.inj h) ▸ id
  · cases h
  · cases h

theorem Resume.resume_create_panic {self : Resume} {r : ContractCreateResult} {p : Panic}
    (h : self.resume_create r = .error p) : ¬BalancePanic p := by
  unfold resume_create at h
  split at h
  · rw [Abi.encode_one_panic (Abi.encodes_fixed_bytes 20) (panic_of_map h)]
    exact id
  · cases h
  · cases h

/-- Taking up a result touches no balance. -/
theorem resume_panic {parent : CallCreateFrame} {r : Except VmError FrameReturn} {p : Panic}
    (h : parent.resume r = .error p) : ¬BalancePanic p := by
  have h := panic_of_map h
  unfold CallCreateFrame.resume_object at h
  split at h
  · rename_i resume _
    rcases hr : into_contract_create_result r with q | result
    · rw [hr] at h
      obtain rfl : q = p := Except.error.inj h
      unfold into_contract_create_result at hr
      repeat' split at hr
      all_goals first
        | exact (Except.error.inj hr) ▸ id
        | cases hr
    · rw [hr] at h
      cases resume with
      | Interpreter c i => exact Interpreter.resume_create_panic (panic_of_map h)
      | Resume resume => exact Resume.resume_create_panic (panic_of_map h)
  · rename_i resume _
    cases resume with
    | Interpreter c i => exact Interpreter.resume_call_panic (panic_of_map h)
    | Resume resume => exact Resume.resume_call_panic (panic_of_map h)
  · exact (Except.error.inj h) ▸ id

/-! ## Errors that come back -/

/-- A result on its way back is no error of the database. -/
def Exec.Clean : Exec → Prop
  | PassResult pass => NoDbError pass.return_data
  | _ => True

/-- The results that the frames hand over are no errors of the database: these end the execution. -/
def FrameStack.Clean (s : FrameStack) : Prop :=
  match s.phase with
  | .Execute _ exec => exec.Clean
  | .LastRes (.Return r) => NoDbError r
  | _ => True

theorem exec_object_clean {kind : FrameKind} {params : ActionParams} {exec : Exec}
    (h : CallCreateFrame.exec_object kind params = .ok exec) : exec.Clean := by
  have hcreate : Exec.create params = .ok exec → exec.Clean := by
    intro h
    unfold Exec.create at h
    split at h
    · obtain rfl := Except.ok.inj h
      split <;> trivial
    · cases h
  cases kind with
  | Transfer => cases h; trivial
  | CallBuiltin builtin => cases h; trivial
  | CallInternalContract internal => cases h; trivial
  | ExecCall => exact hcreate h
  | ExecCreate => exact hcreate h

variable [Keccak]

/-- Only an interpreter goes on. -/
theorem exec_step_continue {ctx : FrameContext} {exec exec' : Exec} {h h' : Host State}
    (hrun : (exec.step g ctx).run h = .ok (.ok (.Continue exec'), h')) : exec'.Clean := by
  cases exec with
  | NoopExec gas => cases hrun
  | BuiltinExec builtin params => cases hrun
  | InternalContractExec internal params =>
    obtain ⟨r, h₁, -, hpure⟩ := run_bind_eq_ok.mp hrun
    cases hpure
  | PassResult pass =>
    obtain ⟨r, h₁, -, hpure⟩ := run_bind_eq_ok.mp hrun
    cases hpure
  | Interpreter c i =>
    obtain ⟨⟨r, i'⟩, h₁, -, hrest⟩ := run_bind_eq_ok.mp hrun
    rcases r with e | _ | value | _ | trap <;> cases hrest
    trivial

variable [HashOrder]

theorem process_return_clean {frame : CallCreateFrame} {result : Except VmError GasLeft}
    {r : Except VmError FrameReturn} {h h' : Host State}
    (hrun : (frame.process_return g result).run h = .ok (.ok r, h')) : NoDbError r := by
  obtain ⟨fin, h₁, substate, h₂, hends⟩ := process_return_inv hrun
  rw [hends.result_eq]
  intro e he hdb
  rcases hfin : fin with e' | res
  · rw [hfin] at he
    obtain rfl : e' = e := Except.error.inj he
    cases e' with
    | StateDbError d => exact hends.no_db_error d hfin
    | _ => exact hdb
  · rw [hfin] at he
    cases he

omit [Keccak] [HashOrder] in
theorem resume_clean {parent parent' : CallCreateFrame} {r : Except VmError FrameReturn}
    {exec : Exec}
    (hr : NoDbError r) (h : parent.resume r = .ok (parent', exec)) : exec.Clean := by
  have hobject := (resume_inv h).1
  unfold CallCreateFrame.resume_object at hobject
  split at hobject
  · rename_i resume _
    obtain ⟨result, hresult, hobject⟩ := bind_eq_ok.mp hobject
    cases resume with
    | Interpreter c i =>
      rcases hi : i.resume_create result with p | i' <;>
        simp only [Suspended.resume_create, hi] at hobject <;> cases hobject
      trivial
    | Resume resume =>
      rcases hp : resume.resume_create result with p | pass <;>
        simp only [Suspended.resume_create, hp] at hobject <;> cases hobject
      show NoDbError pass.return_data
      cases result with
      | Created address gas_left =>
        simp only [Resume.resume_create, Resume.pass_output] at hp
        rcases henc : abi_encode address.to_fixed_bytes with q | out <;>
          rw [henc] at hp <;> cases hp
        exact noDbError_ok _
      | Reverted gas_left data =>
        cases hp
        exact noDbError_ok _
      | Failed err =>
        cases hp
        -- The error is the one of the frame that failed.
        rcases r with e | ret
        · cases hresult
          exact noDbError_error (hr _ rfl)
        · simp only [into_contract_create_result] at hresult
          repeat' split at hresult
          all_goals cases hresult
  · rename_i resume _
    cases resume with
    | Interpreter c i =>
      rcases hi : i.resume_call (into_message_call_result r) with p | i' <;>
        simp only [Suspended.resume_call, hi] at hobject <;> cases hobject
      trivial
    | Resume resume =>
      rcases hp : resume.resume_call (into_message_call_result r) with p | pass <;>
        simp only [Suspended.resume_call, hp] at hobject <;> cases hobject
      show NoDbError pass.return_data
      rcases r with e | ret
      · cases hp
        exact noDbError_error (hr _ rfl)
      · simp only [into_message_call_result] at hp
        split at hp
        · simp only [Resume.resume_call, Resume.pass_output] at hp
          split at hp
          · rename_i bytes _
            rcases henc : abi_encode bytes with q | out <;> rw [henc] at hp <;> cases hp
            exact noDbError_ok _
          · cases hp
        · cases hp
          exact noDbError_ok _
  · cases hobject

/-- Every round hands over results that are no errors of the database. -/
theorem FrameStack.Clean.round {s s' : FrameStack} (h : s.Clean) (hround : Round g s s') :
    s'.Clean := by
  unfold Clean at h
  cases hround with
  | enter hphase hrun =>
    obtain ⟨params, h₁, hbegins⟩ := frame_exec_inv hrun
    exact exec_object_clean hbegins.object
  | go_on hphase hrun => exact exec_step_continue hrun
  | returns hphase hrun hret => exact process_return_clean hret
  | traps hphase hrun => trivial
  | calls hphase => trivial
  | resumes hphase hstack hresume =>
    simp only [hphase] at h
    exact resume_clean h hresume

/-! ## Steps of a frame -/

/-- What comes out of a step is no error of the database, unless it is allowed. -/
def Progress.Allowed (F : DbError → Prop) : Progress → Prop
  | .Output (.Return r) => ∀ e, r = .error e → VmError.Allowed F e
  | _ => True

omit [Keccak] [HashOrder] in
theorem BuiltinExec.exec_noDbError (builtin : Builtin) (params : ActionParams) :
    NoDbError (BuiltinExec.exec builtin params) := by
  unfold BuiltinExec.exec
  refine noDbError_ite ?_ (noDbError_error id)
  cases builtin.execute (params.data.getD []) with
  | ok out => exact noDbError_ok _
  | error e => exact noDbError_error id

omit [HashOrder] in
/-- An interpreter without code ends with what it has of gas. -/
theorem interpreter_step_no_code {c : CostType} {i : Interpreter c} (hcode : i.code = [])
    {ctx : FrameContext} {E : Panic → Prop} (hE : E .already_stopped) (h : Host State) :
    wp (Exec.interpreter_step g ctx i) E (fun r _ =>
      ∃ result, r = .ok (.Output (.Return result)) ∧ NoDbError result) h := by
  refine wp_bind.mpr (wp_withPart.mpr ?_)
  refine wp_bind.mpr (wp_gets.mpr (wp_ite (fun _ => ?_) fun _ => ?_))
  · exact hE
  cases i.gasometer with
  | none => exact ⟨_, rfl, noDbError_error id⟩
  | some m =>
    refine wp_ite (fun _ => ⟨_, rfl, noDbError_ok _⟩) fun hne => ?_
    exact absurd (by rw [hcode]; rfl) hne

namespace Interpreter

variable {c : CostType} {ctx : FrameContext}

omit [HashOrder] in
/-- The execution stops by itself only with a result. -/
theorem advance_done (result : InstructionResult c) :
    Yields (fun r => ∀ e, r ≠ .Done (.error e)) (advance result) := by
  have hknown : Yields (fun r => ∀ e, r ≠ .Done (.error e)) (known_gas : StepM c _) :=
    .seq fun _ => .pure fun _ h => nomatch h
  have hend : Yields (fun r => ∀ e, r ≠ .Done (.error e)) (check_end : StepM c _) :=
    .seq fun _ => .ite (fun _ => hknown) fun _ => .pure fun _ h => nomatch h
  cases result with
  | Ok => exact hend
  | UnusedGas gas => exact .seq fun _ => .seq fun _ => .seq fun _ => hend
  | JumpToPosition position => exact .seq fun _ => .seq fun _ => .seq fun _ => hend
  | JumpToSubroutine position => exact .seq fun _ => .seq fun _ => .seq fun _ => hend
  | ReturnFromSubroutine pos => exact .seq fun _ => hend
  | StopExecutionNeedsReturn gas init_off init_size apply =>
    exact .seq fun _ => .seq fun _ => .seq fun _ => .pure fun _ h => nomatch h
  | StopExecution => exact hknown
  | Trap trap => exact .pure fun _ h => nomatch h

omit [HashOrder] in
/-- Where the functions of the context are safe, so is the error that a step ends with. -/
theorem step_done {E : Panic → Prop} {F : VmError → Prop} {J : Host State → Prop} (hl : Lenient E F)
    (h : ContextSafe g ctx E F J) {p : Interpreter c × Host State} (hp : J p.2) :
    wp (step g ctx) E (fun r _ => ∀ e, r = .ok (.Done (.error e)) → F e) p := by
  have hmarked : ∀ (result : InterpreterResult) (q : Interpreter c × Host State),
      (∀ e, result = .Done (.error e) → F e) →
      wp (mark_done result) E (fun r _ => ∀ e, r = .ok (.Done (.error e)) → F e) q := by
    intro result q hresult
    cases result with
    | Done r =>
      refine wp_bind.mpr (wp_update.mpr ?_)
      rintro e ⟨⟩
      exact hresult e rfl
    | _ => rintro e ⟨⟩
  refine wp_bind.mpr (wp_gets.mpr (wp_ite (fun _ => by rintro e ⟨⟩) fun _ => ?_))
  cases p.1.gasometer with
  | none =>
    refine hmarked _ _ ?_
    rintro _ ⟨⟩
    exact hl.error id
  | some gasometer =>
    refine wp_ite (fun _ => hmarked _ _ fun _ h => nomatch h) fun _ => ?_
    refine wp_bind.mpr (wp_result.mpr (wp_post
      (wp_and (step_inner_lenient hl h p hp) (Yields.seq advance_done p)) ?_))
    rintro (e | result) q ⟨⟨-, he⟩, hresult⟩
    · refine hmarked _ _ ?_
      rintro _ ⟨⟩
      exact he e rfl
    · exact hmarked _ _ fun e heq => absurd heq (hresult result rfl e)

end Interpreter

namespace Sites

variable {S : Sites} {I : FrameStack → Prop} {E : Panic → Prop} {F : DbError → Prop}
  {db : StateDb} {saved : List Ledger} {ctx : FrameContext} {w : Ledger} {h : Host State}

section
variable (hG : S.Guards E F) (hS : S.Lawful g I)
include hG hS

omit [HashOrder] in
/-- A step of what is known to run in a frame. -/
theorem Guards.exec_step (hrep : Rep db saved h.state w) (hw : S.holds w) {exec : Exec}
    (hruns : S.RunsIn w ctx exec) (hclean : exec.Clean) :
    wp (exec.step g ctx) E (fun r _ => ∃ progress, r = .ok progress ∧ progress.Allowed F) h := by
  have hallowed : ∀ {result : Except VmError GasLeft}, NoDbError result →
      Progress.Allowed F (.Output (.Return result)) :=
    fun hresult e he => VmError.allowed_of_not (hresult e he)
  cases exec with
  | NoopExec gas => exact ⟨_, rfl, hallowed (noDbError_ok _)⟩
  | BuiltinExec builtin params =>
    exact ⟨_, rfl, hallowed (BuiltinExec.exec_noDbError builtin params)⟩
  | InternalContractExec internal params =>
    have hexec : Tame E (VmError.Allowed F) (internal.exec g ctx params) h :=
      hG.internal_exec hS hrep hw hruns.1 hruns.2 internal
    refine wp_bind.mpr (wp_result.mpr (wp_post hexec ?_))
    rintro (e | output | ⟨trap, resume⟩) _ he
    · refine ⟨_, rfl, ?_⟩
      rintro _ ⟨⟩
      exact he e rfl
    · exact ⟨_, rfl, hallowed (noDbError_ok _)⟩
    · exact ⟨_, rfl, trivial⟩
  | PassResult pass =>
    have hexec : Tame E (VmError.Allowed F) (pass.exec g ctx) h := hG.pass_result hclean
    refine wp_bind.mpr (wp_result.mpr (wp_post hexec ?_))
    exact fun r _ he => ⟨_, rfl, he⟩
  | Interpreter c i =>
    obtain ⟨-, -, hsite⟩ := hruns
    by_cases hcode : i.code = []
    · refine wp_post (interpreter_step_no_code hcode (hG.panic id) h) ?_
      rintro _ _ ⟨result, rfl, hresult⟩
      exact ⟨_, rfl, hallowed hresult⟩
    · have hruns : S.runsAt ctx.origin.address w := hsite.resolve_right hcode
      have hsafe : ContextSafe g ctx E (VmError.Allowed F)
          (S.Stands db saved (S.runsAt ctx.origin.address)) := hG.contextSafe hS hruns
      have hh : S.Stands db saved (S.runsAt ctx.origin.address) h := ⟨w, hrep, hw, hruns⟩
      have hstep := Interpreter.step_lenient hG.lenient hsafe (i, h) hh
      have hdone := Interpreter.step_done hG.lenient hsafe (p := (i, h)) hh
      refine wp_bind.mpr (wp_withPart.mpr (wp_post
        (wp_and hstep (wp_mono hdone (fun _ _ => trivial) fun _ _ h => h)) ?_))
      rintro (e | _ | value | _ | trap) ⟨i', h'⟩ ⟨⟨-, he⟩, hvalue⟩
      · refine ⟨_, rfl, ?_⟩
        rintro _ ⟨⟩
        exact he e rfl
      · exact hG.panic id
      · exact ⟨_, rfl, fun e he => hvalue e (he ▸ rfl)⟩
      · exact ⟨_, rfl, trivial⟩
      · exact ⟨_, rfl, trivial⟩

omit [HashOrder] hS in
/-- The code of a new contract is stored at an address at which code runs. -/
theorem Guards.finalize (hrep : Rep db saved h.state w) (hframe : S.FrameAt w ctx)
    {result : Except VmError GasLeft} (hresult : ∀ e, result = .error e → VmError.Allowed F e) :
    Tame E (VmError.Allowed F) (CfxEvm.finalize g ctx result) h := by
  rcases result with e | ⟨gas_left⟩ | ⟨gas_left, data, apply_state⟩
  · exact .fail (hresult e rfl)
  · exact .pure _
  · refine .bind (.ite (fun hc => ?_) fun _ => .pure _) fun _ _ _ => .pure _
    rw [Bool.and_eq_true] at hc
    refine wp_bind.mpr (wp_expect (fun _ => hG.panic id) fun code _ => ?_)
    refine Tame.ite (fun _ => .ite (fun _ => .fail trivial) fun _ => .pure _) fun _ => ?_
    exact .bind (tame_onState (init_code_refines _ code) hrep
      (hG.init_code (.inl (hframe hc.1)) code)) fun _ _ _ => .pure _

omit hG hS in
/-- Closing the checkpoint of a frame neither panics nor fails. -/
theorem close_tame (hrep : Rep db saved h.state w) (frame : CallCreateFrame) (apply_state : Bool) :
    Tame E F (frame.close apply_state) h := by
  have hdone : ∀ {x : StateM Unit} {k : Host State} {s' : State}, x.run k.state = .ok (.ok (), s') →
      Tame E F (Host.inState x) k := by
    intro x k s' hrun
    refine wp_zoom.mpr (wp_intro (fun p hp => ?_) fun r s₁ hr e he => ?_)
    · rw [hrun] at hp
      cases hp
    · rw [hrun] at hr
      cases hr
      cases he
  refine .ite (fun _ => ?_) fun _ => ?_
  · obtain ⟨s', hs', -⟩ := discard_checkpoint_spec (x := ⟨w, saved⟩) hrep
    refine wp_bind.mpr (wp_update.mpr (Tame.bind (hdone (by exact hs')) fun _ _ _ => ?_))
    exact fun _ he => nomatch he
  · obtain ⟨s', hs', -⟩ := revert_to_checkpoint_spec (x := ⟨w, saved⟩) hrep
    exact .bind (hdone hs') fun _ _ _ => .pure _

/-- A frame is settled. -/
theorem Guards.process_return (hrep : Rep db saved h.state w) {frame : CallCreateFrame}
    (hframe : S.FrameAt w frame.context) {result : Except VmError GasLeft}
    (hresult : ∀ e, result = .error e → VmError.Allowed F e) :
    Tame E F (frame.process_return g result) h := by
  have hkeeps : Keeps S.effect.On (CfxEvm.finalize g frame.context result) :=
    finalize_keeps (fun hcreate => hS.init_code (hframe hcreate)) result
  have hfinalize := hG.finalize (g := g) hrep hframe hresult
  refine wp_bind.mpr (wp_result.mpr (wp_post (wp_and hfinalize (hkeeps h)) ?_))
  rintro fin h₁ ⟨hallowed, hon⟩
  obtain ⟨w₁, hrep₁, -⟩ := hon.state db saved w hrep
  refine Tame.bind ?_ fun fin' h₂ hsep => ?_
  · unfold separate_out_db_error
    split
    · exact .fail (hallowed _ rfl)
    · exact .pure _
  have hsame : h₂ = h₁ := by
    unfold separate_out_db_error at hsep
    split at hsep <;> cases hsep
    rfl
  subst hsame
  refine .bind (close_tame hrep₁ frame _) fun substate h₃ _ => ?_
  refine wp_bind.mpr (wp_gets.mpr ?_)
  refine Tame.bind (.ofPanic fun p hp => ?_) fun observer h₄ _ => ?_
  · refine hG.panic ?_
    split at hp
    · exact MultiObservers.record_result_panic (fun _ => Action.of_create_result_panic) hp
    · exact MultiObservers.record_result_panic (fun _ => Action.of_call_result_panic) hp
  refine wp_bind.mpr (wp_gets.mpr ?_)
  refine Tame.bind (.ofPanic fun p hp => hG.panic (FrameStackInfo.pop_panic hp)) fun _ _ _ => ?_
  exact wp_bind.mpr (wp_update.mpr (Tame.pure _))

/-! ## The beginning of a frame -/

omit [HashOrder] hS in
/-- The value of a frame was seen to be there when the frame was asked for. -/
theorem Guards.pre_exec (hrep : Rep db saved h.state w) (hw : S.holds w) {params : ActionParams}
    (hfunds : ∀ v, params.value = .Transfer v → v.toNat ≤ w.balances params.sender)
    (is_create : Bool) : Tame E F (CallCreateFrame.pre_exec params g.spec is_create) h := by
  refine .ite (fun _ => ?_) fun _ => ?_
  · unfold CallCreateFrame.transfer_exec_balance_and_init_contract
    cases hvalue : params.value with
    | Apparent v => exact hG.panic id
    | Transfer v =>
      refine wp_bind.mpr (wp_inState (balance_refines _) hrep (wp_gets.mpr fun s₁ hrep₁ => ?_))
      refine wp_bind.mpr (wp_inTouched (fun _ => sub_balance_refines _ _ _) (by exact hrep₁)
        (wp_post (hG.sub_balance hw (hfunds v hvalue) _) ?_))
      rintro (e | mode) w₂ he s₂ hrep₂
      · rintro _ ⟨⟩
        exact he e rfl
      · exact tame_inState (new_contract_refines _ _ _) (by exact hrep₂) fun _ he => nomatch he
  · unfold CallCreateFrame.transfer_exec_balance
    cases hvalue : params.value with
    | Apparent v => exact .pure _
    | Transfer v =>
      exact tame_inTouched (fun _ => transfer_balance_refines _ _ _ _ _) hrep fun mode =>
        hG.transfer_balance hw (hfunds v hvalue) _ mode _

omit [HashOrder] hG hS in
/-- What a frame that is entered pays with, and its status. -/
theorem EntersAs.funds {frame : CallCreateFrame} (h : S.EntersAs g w frame) :
    ∃ params, frame.status = .Input params ∧
      ∀ v, params.value = .Transfer v → v.toNat ≤ w.balances params.sender := by
  cases h with
  | @call params a depth flag hasked hsite => exact ⟨params, rfl, hasked.funds⟩
  | @create params depth flag hasked =>
    obtain ⟨v, hv, hle⟩ := hasked.funds
    refine ⟨params, rfl, fun v' hv' => ?_⟩
    obtain rfl : v = v' := ActionValue.Transfer.inj (hv.symm.trans hv')
    exact hle

omit hS in
theorem Guards.enter (hrep : Rep db saved h.state w) (hw : S.holds w) {frame : CallCreateFrame}
    (henters : S.EntersAs g w frame) : Tame E F (frame.exec g) h := by
  obtain ⟨params, hstatus, hfunds⟩ := henters.funds
  unfold CallCreateFrame.exec
  rw [hstatus]
  refine .bind (.assert (hG.panic id)) fun _ h₁ hrun₁ => ?_
  obtain ⟨-, rfl⟩ := run_assert_eq_ok.mp hrun₁
  refine .bind (.assert (hG.panic id)) fun _ h₂ hrun₂ => ?_
  obtain ⟨-, rfl⟩ := run_assert_eq_ok.mp hrun₂
  refine wp_bind.mpr (wp_update.mpr ?_)
  obtain ⟨s₁, hcheck, hrep₁⟩ := checkpoint_spec (x := ⟨w, saved⟩) hrep
  refine wp_bind.mpr (wp_zoom.mpr (wp_intro (fun p hp => ?_) fun r s' hr => ?_))
  · exact absurd (hp.symm.trans hcheck) (by simp)
  obtain ⟨rfl, rfl⟩ := Prod.mk.inj (Except.ok.inj (hr.symm.trans hcheck))
  refine wp_bind.mpr (wp_gets.mpr ?_)
  refine Tame.bind (.ofPanic fun p hp => hG.panic (FrameStackInfo.push_panic hp))
    fun callstack h₃ hrun₃ => ?_
  obtain ⟨-, rfl⟩ := run_ofPanic_eq_ok.mp hrun₃
  refine wp_bind.mpr (wp_update.mpr ?_)
  refine Tame.bind (hG.pre_exec (by exact hrep₁ : Rep db (w :: saved) _ w) hw hfunds _)
    fun _ h₄ _ => ?_
  exact .bind (.ofPanic fun p hp => hG.panic (exec_object_panic hp)) fun _ _ _ => .pure _

/-! ## Rounds -/

omit [Keccak] [HashOrder] hG hS in
theorem onHost_tame {α : Type} {x : DbM α} {s : FrameStack} (h : Tame E F x s.host) :
    Tame E F (FrameStack.onHost x) s := wp_zoom.mpr h

/-- A round from a stack of which the course is known. -/
theorem Guards.step {s : FrameStack} {base : List CallCreateFrame} {tx : Substate} {w₀ : Ledger}
    (hfollows : (S.course g db).Follows saved w₀ base tx s) (hclean : s.Clean) (hI : I s) :
    Tame E F (FrameStack.step g) s := by
  obtain ⟨T, vs, w, hby⟩ := hfollows
  have hrep : Rep db (vs ++ saved) s.host.state w := hby.stands
  have hp := hby.phase
  unfold FrameStack.Clean at hclean
  unfold FrameStack.step
  refine wp_bind.mpr (wp_gets.mpr ?_)
  simp only [id_eq]
  unfold Course.PhaseFollows at hp
  rcases hphase : s.phase with frame | ⟨frame, exec⟩ | r | ⟨kind, caller⟩
  · simp only [hphase] at hp ⊢
    obtain ⟨⟨hw, -, henters⟩, -⟩ := hp
    refine Tame.bind ?_ fun _ _ _ => .pure _
    refine wp_bind.mpr (wp_update.mpr ?_)
    refine Tame.bind (onHost_tame (hG.enter (by exact hrep) hw henters)) fun _ _ _ => ?_
    exact fun _ he => nomatch he
  · simp only [hphase] at hp hclean ⊢
    obtain ⟨⟨hw, -, hframe, hruns⟩, -⟩ := hp
    refine Tame.bind ?_ fun _ _ _ => .pure _
    have hkeeps := hS.exec_step hI hphase hruns
    refine wp_bind.mpr (wp_zoom.mpr (wp_post
      (wp_and (hG.exec_step hS hrep hw hruns hclean) (hkeeps s.host)) ?_))
    rintro _ h₁ ⟨⟨progress, rfl, hallowed⟩, hon⟩
    rcases progress with exec' | result | ⟨kind, resume⟩
    · exact fun _ he => nomatch he
    · obtain ⟨w₁, hrep₁, hgrows⟩ := hon.state db _ w hrep
      have hreturn := hG.process_return hS hrep₁ (hframe.lasts hS hgrows) hallowed
      refine Tame.bind (onHost_tame (.bind hreturn fun _ _ _ => .pure _)) fun _ _ _ => ?_
      exact fun _ he => nomatch he
    · refine Tame.bind (onHost_tame ?_) fun _ _ _ _ he => nomatch he
      exact fun _ he => nomatch he
  · simp only [hphase] at hp ⊢
    rcases hstack : s.frame_stack with _ | ⟨parent, rest⟩
    · exact Tame.pure _
    · refine Tame.bind ?_ fun _ _ _ => .pure _
      refine .bind (.ofPanic fun p hp => hG.panic (resume_panic hp)) fun _ _ _ => ?_
      exact fun _ he => nomatch he
  · exact wp_bind.mpr (wp_update.mpr (Tame.pure _))

end

end Sites

end CfxEvm
