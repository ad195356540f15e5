import CfxEvm.Evm.Proofs.BlindProofs
import CfxEvm.Frame.Proofs.TraceProofs
import CfxEvm.State.Proofs.SnapshotProofs

/-!
# Proofs: replicas of a host

Two hosts are replicas of each other if their states show the same ledger, whatever they keep in
their caches, and if their caches of jump destinations are faithful. Observers only watch. What runs
in a frame does the same on replicas, and leaves replicas.
-/

open Lib Lib.Prog

namespace CfxEvm

variable [Keccak] {codeOf : H256 → Bytes} {db db' : StateDb} {E : Panic → Prop} {α : Type}

/-- The states show the same ledger, and so do their checkpoints. -/
def State.Replicas (db db' : StateDb) (s s' : State) : Prop :=
  ∃ saved w, Rep db saved s w ∧ Rep db' saved s' w

/-- The hosts are replicas; nothing is said about their observers. -/
structure Host.Replicas (codeOf : H256 → Bytes) (db db' : StateDb) (h h' : Host State) : Prop where
  state : State.Replicas db db' h.state h'.state
  callstack : h.callstack = h'.callstack
  substate : h.substate = h'.substate
  cache : h.shared_cache.Faithful codeOf
  cache' : h'.shared_cache.Faithful codeOf

/-! ## Operations on the state -/

/-- An operation does what it does to the ledger. -/
theorem StateRefines.blind {x : StateM α} {y : LedgerM α} (h : StateRefines x y) :
    Blind E (State.Replicas db db') x := by
  rintro s s' ⟨saved, w, hrep, hrep'⟩
  have halike : OutcomeAlike E (fun s s' => ∃ w, Rep db saved s w ∧ Rep db' saved s' w) Eq (x.run s)
      (x.run s') := (h db saved).alike (h db' saved) s s' ⟨w, hrep, hrep'⟩
  exact halike.mono fun _ _ ⟨w', hrep, hrep'⟩ => ⟨saved, w', hrep, hrep'⟩

theorem checkpoint_blind : Blind E (State.Replicas db db') State.checkpoint := by
  rintro s s' ⟨saved, w, hrep, hrep'⟩
  obtain ⟨s₁, hrun, hrep₁⟩ := checkpoint_spec (x := ⟨w, saved⟩) hrep
  obtain ⟨s₁', hrun', hrep₁'⟩ := checkpoint_spec (x := ⟨w, saved⟩) hrep'
  rw [hrun, hrun']
  exact .returns (.ok rfl) ⟨w :: saved, w, hrep₁, hrep₁'⟩

theorem discard_checkpoint_alike (O O' : HashOrder) :
    Alike E (State.Replicas db db') Eq (@State.discard_checkpoint O)
      (@State.discard_checkpoint O') := by
  rintro s s' ⟨saved, w, hrep, hrep'⟩
  obtain ⟨s₁, hrun, hrep₁⟩ := @discard_checkpoint_spec _ db O s ⟨w, saved⟩ hrep
  obtain ⟨s₁', hrun', hrep₁'⟩ := @discard_checkpoint_spec _ db' O' s' ⟨w, saved⟩ hrep'
  rw [hrun, hrun']
  exact .returns (.ok rfl) ⟨saved.tail, w, hrep₁, hrep₁'⟩

/-- The order in which the changes are taken back is of no account. -/
theorem revert_to_checkpoint_alike (O O' : HashOrder) :
    Alike E (State.Replicas db db') Eq (@State.revert_to_checkpoint O)
      (@State.revert_to_checkpoint O') := by
  rintro s s' ⟨saved, w, hrep, hrep'⟩
  obtain ⟨s₁, hrun, hrep₁⟩ := @revert_to_checkpoint_spec _ db O s ⟨w, saved⟩ hrep
  obtain ⟨s₁', hrun', hrep₁'⟩ := @revert_to_checkpoint_spec _ db' O' s' ⟨w, saved⟩ hrep'
  rw [hrun, hrun']
  exact .returns (.ok rfl) ⟨_, _, hrep₁, hrep₁'⟩

/-! ## Operations on the host -/

section
variable {x : StateM α}

theorem Host.inState_alike {y : StateM α} (h : Alike E (State.Replicas db db') Eq x y) :
    Alike E (Host.Replicas codeOf db db') Eq (Host.inState x) (Host.inState y) :=
  h.zoom (fun _ _ hr => hr.state) fun _ _ _ _ hr hs => { hr with state := hs }

theorem Host.onState_blind {y : LedgerM α} (h : StateRefines x y) :
    Blind E (Host.Replicas codeOf db db') (Host.onState x) := .mapErr (Host.inState_alike h.blind)

theorem Host.inTouched_blind {spec : Spec} {x : CleanupMode → StateM CleanupMode}
    {y : CleanupMode → LedgerM CleanupMode} (h : ∀ mode, StateRefines (x mode) (y mode)) :
    Blind E (Host.Replicas codeOf db db') (Host.inTouched spec x) := by
  refine .seq (.gets fun _ _ hr => hr.substate) fun substate =>
    .seq (Host.inState_alike (h _).blind) fun mode =>
    .update fun _ _ hr => { hr with substate := ?_ }
  rw [hr.substate]

theorem Host.onTouched_blind {spec : Spec} {x : CleanupMode → StateM CleanupMode}
    {y : CleanupMode → LedgerM CleanupMode} (h : ∀ mode, StateRefines (x mode) (y mode)) :
    Blind E (Host.Replicas codeOf db db') (Host.onTouched spec x) :=
      .mapErr (Host.inTouched_blind h)

theorem Host.trace_internal_transfer_blind (from_ to_ : AddressPocket) (value : U256) :
    Blind E (Host.Replicas codeOf db db') (Host.trace_internal_transfer from_ to_ value) :=
  .update fun _ _ hr => { hr with }

/-- A change of the substate alone. -/
theorem Host.update_substate_blind (f : Substate → Substate) :
    Blind E (Host.Replicas codeOf db db')
      (Prog.update fun h => { h with substate := f h.substate } : HostM Unit) :=
  .update fun _ _ hr => { hr with substate := congrArg f hr.substate }

end

section
variable {g : Globals} {ctx : FrameContext}

theorem suicide_blind (a refund : Address) (spec : Spec) (nonce : U256) :
    Blind E (Host.Replicas codeOf db db') (suicide a refund spec nonce) := by
  refine .seq (Host.update_substate_blind fun t => { t with suicides := t.suicides.insert a })
    fun _ =>
    .seq (Host.onState_blind (balance_refines _)) fun balance => .ite (fun _ => ?_) fun _ => ?_
  · exact .seq (Host.trace_internal_transfer_blind _ _ _) fun _ =>
      .seq (Host.onTouched_blind fun _ => sub_balance_refines _ _ _) fun _ =>
      Host.onState_blind (subtract_total_issued_refines _)
  · exact .seq (Host.trace_internal_transfer_blind _ _ _) fun _ =>
      Host.onTouched_blind fun _ => transfer_balance_refines _ _ _ _ _

/-- The functions of the context do the same on replicas. -/
theorem replicas_hostBlind : HostBlind g ctx E (Host.Replicas codeOf db db') where
  storage_at key := Host.onState_blind (storage_at_refines _ key)
  set_storage key value :=
    .ite (fun _ => .fail _) fun _ => Host.onState_blind (set_storage_refines _ key value)
  «exists» a := Host.onState_blind (exists_refines a)
  exists_and_not_null a := Host.onState_blind (exists_and_not_null_refines a)
  balance a := Host.onState_blind (balance_refines a)
  create gas value code scheme :=
    .seq (Host.onState_blind (nonce_refines _)) fun _ =>
      .seq (.when fun _ => Host.onState_blind (inc_nonce_refines _ _)) fun _ => .pure rfl
  extcode a := by
    unfold Context.extcode
    cases g.machine.contract a g.spec with
    | none => exact Host.onState_blind (code_refines a)
    | some _ => exact .pure rfl
  extcodehash a := by
    unfold Context.extcodehash
    cases g.machine.contract a g.spec with
    | none => exact Host.onState_blind (code_hash_refines a)
    | some _ => exact .pure rfl
  extcodesize a := by
    unfold Context.extcodesize
    cases g.machine.contract a g.spec with
    | none => exact Host.onState_blind (code_size_refines a)
    | some _ => exact .pure rfl
  log topics data := .ite (fun _ => .fail _) fun _ =>
    Host.update_substate_blind fun t =>
      { t with logs := t.logs ++ [⟨ctx.origin.address, topics, data⟩] }
  suicide refund nonce := .ite (fun _ => .fail _) fun _ => suicide_blind _ _ _ _

/-- So do the lookups of a code that the hash stands for. -/
theorem replicas_contextBlind {code_hash : Option H256} {code : Bytes}
    (hcode : ∀ hash, code_hash = some hash → codeOf hash = code) :
    ContextBlind g ctx E (Host.Replicas codeOf db db') code_hash code where
  toHostBlind := replicas_hostBlind
  destinations h h' hr := by
    obtain ⟨hitem, hcache⟩ := hr.cache.destinations hcode
    obtain ⟨hitem', hcache'⟩ := hr.cache'.destinations hcode
    exact ⟨hitem.trans hitem'.symm, { hr with cache := hcache, cache' := hcache' }⟩

/-! ## Internal contracts -/

theorem gas_sum_blind (gas : Nat) : Blind E (Host.Replicas codeOf db db') (gas_sum gas) :=
  .ite (fun _ => .pure rfl) fun _ => .abort _

theorem log_event_blind {β γ : Type} [EventIndexEncodable β] [ABIEncodable γ] (event_sig : H256)
    (indexed : β) (non_indexed : γ) (params : ActionParams) :
    Blind E (Host.Replicas codeOf db db') (log_event event_sig ctx indexed non_indexed params) := by
  refine .seq (.ofPanic _) fun topics => .seq (.ofPanic _) fun data =>
    .ite (fun _ => .fail _) fun _ => ?_
  exact Host.update_substate_blind fun t =>
    { t with logs := t.logs ++ [⟨params.address, event_sig :: topics, data⟩] }

theorem run_function_blind {β γ : Type} [ABIDecodable β] [ABIEncodable γ] {spec : Spec}
    {t : FunctionType} {upfront : β → HostM U256} {inner : β → U256 → HostM (Answer γ)}
    (hupfront : ∀ b, Blind E (Host.Replicas codeOf db db') (upfront b))
    (hinner : ∀ b gas, Blind E (Host.Replicas codeOf db db') (inner b gas)) (input : Bytes)
    (params : ActionParams) :
    Blind E (Host.Replicas codeOf db db') (run_function spec t upfront inner input params) := by
  refine .seq (.ofExcept _) fun _ => .seq (.ofExcept _) fun b => .seq (hupfront b) fun cost =>
    .ite (fun _ => .fail _) fun _ => .seq (hinner b _) fun answer => ?_
  cases answer with
  | Return output => exact .seq (.ofPanic _) fun _ => .ite (fun _ => .fail _) fun _ => .pure rfl
  | SubCallCreate trap resume => exact .pure rfl

theorem simple_blind {β γ : Type} {inner : β → HostM γ}
    (h : ∀ b, Blind E (Host.Replicas codeOf db db') (inner b)) (b : β) (gas : U256) :
    Blind E (Host.Replicas codeOf db db') (simple inner b gas) := .seq (h b) fun _ => .pure rfl

theorem transaction_gas_blind (is_create : Bool) (data : Bytes) (spec : Spec) :
    Blind E (Host.Replicas codeOf db db') (transaction_gas is_create data spec) :=
  .seq (.expect _ _) fun _ => .seq (.assert _ _) fun _ => .pure rfl

theorem create_gas_blind (spec : Spec) (code : Bytes) :
    Blind E (Host.Replicas codeOf db db') (create_gas spec code) :=
  .seq (transaction_gas_blind _ _ _) fun _ => gas_sum_blind _

theorem call_gas_blind (receiver : Address) (params : ActionParams) (spec : Spec) (data : Bytes) :
    Blind E (Host.Replicas codeOf db db') (call_gas receiver params spec data) :=
  .seq (transaction_gas_blind _ _ _) fun _ =>
    .seq (Host.onState_blind (exists_and_not_null_refines _)) fun _ => gas_sum_blind _

theorem split_gas_blind (spec : Spec) (gas_left value : U256) :
    Blind E (Host.Replicas codeOf db db') (split_gas spec gas_left value) :=
  .seq (gas_sum_blind _) fun _ => .pure rfl

theorem forward_value_blind (params : ActionParams) :
    Blind E (Host.Replicas codeOf db db') (forward_value g params) :=
  .seq (Host.onTouched_blind fun _ => transfer_balance_refines _ _ _ _ _) fun _ =>
    Host.trace_internal_transfer_blind _ _ _

theorem call_to_evmcore_blind (receiver : Address) (data : Bytes) (call_type : CallType)
    (params : ActionParams) (gas_left : U256) :
    Blind E (Host.Replicas codeOf db db')
      (call_to_evmcore g ctx receiver data call_type params gas_left) := by
  refine .ite (fun _ => .fail _) fun _ => .seq (split_gas_blind _ _ _) fun _ =>
    .seq (forward_value_blind _) fun _ => .seq (Host.onState_blind (code_refines _)) fun _ =>
    .seq (Host.onState_blind (code_hash_refines _)) fun _ =>
    .seq (.when fun _ => ?_) fun _ => .pure rfl
  exact .seq (Host.onState_blind (nonce_refines _)) fun _ =>
    .seq (Host.onState_blind (inc_nonce_refines _ _)) fun _ => log_event_blind _ _ _ _

theorem create_to_evmcore_blind (init : Bytes) (salt : Option H256) (params : ActionParams)
    (gas_left : U256) :
    Blind E (Host.Replicas codeOf db db') (create_to_evmcore g ctx init salt params gas_left) :=
  .ite (fun _ => .fail _) fun _ => .seq (split_gas_blind _ _ _) fun _ =>
    .seq (forward_value_blind _) fun _ => .seq (Host.onState_blind (nonce_refines _)) fun _ =>
    .seq (Host.onState_blind (nonce_refines _)) fun _ =>
    .seq (Host.onState_blind (inc_nonce_refines _ _)) fun _ =>
    .seq (log_event_blind _ _ _ _) fun _ => .pure rfl

theorem withdraw_from_evmcore_blind (sender : Address) (value : U256) (params : ActionParams) :
    Blind E (Host.Replicas codeOf db db') (withdraw_from_evmcore g ctx sender value params) :=
  .seq (Host.onState_blind (balance_refines _)) fun _ => .ite (fun _ => .fail _) fun _ =>
    .seq (Host.onTouched_blind fun _ => transfer_balance_refines _ _ _ _ _) fun _ =>
    .seq (Host.trace_internal_transfer_blind _ _ _) fun _ =>
    .seq (Host.onState_blind (nonce_refines _)) fun _ =>
    .seq (Host.onState_blind (inc_nonce_refines _ _)) fun _ => log_event_blind _ _ _ _

theorem deploy_eip1820_blind : Blind E (Host.Replicas codeOf db db') deploy_eip1820 := by
  refine .seq (Host.onState_blind (is_contract_with_code_refines _)) fun _ =>
    .ite (fun _ => .fail _) fun _ => .seq (Host.onState_blind (new_contract_refines _ _ _)) fun _ =>
    .seq (Host.onState_blind (init_code_refines _ _)) fun _ => ?_
  exact Host.update_substate_blind fun t =>
    { t with contracts_created := t.contracts_created ++ [eip_1820.ADDRESS] }

theorem function_blind (f : SolidityFunction) (input : Bytes) (params : ActionParams) :
    Blind E (Host.Replicas codeOf db db') (f.execute g ctx input params) := by
  have hquery : ∀ answer, Blind E (Host.Replicas codeOf db db')
      (SolidityFunction.block_query g answer input params) := fun answer =>
    run_function_blind (fun _ => gas_sum_blind _) (simple_blind fun _ => .pure rfl) _ _
  unfold SolidityFunction.execute
  cases f with
  | CreateToEVM =>
    exact run_function_blind (fun _ => create_gas_blind _ _) (fun _ _ =>
      create_to_evmcore_blind _ _ _ _) _ _
  | TransferToEVM =>
    exact run_function_blind (fun _ => call_gas_blind _ _ _ _) (fun _ _ =>
      call_to_evmcore_blind _ _ _ _ _) _ _
  | CallToEVM =>
    exact run_function_blind (fun _ => call_gas_blind _ _ _ _) (fun _ _ =>
      call_to_evmcore_blind _ _ _ _ _) _ _
  | StaticCallToEVM =>
    exact run_function_blind (fun _ => gas_sum_blind _) (fun _ _ =>
      call_to_evmcore_blind _ _ _ _ _) _ _
  | Withdraw =>
    exact run_function_blind (fun _ => gas_sum_blind _)
      (simple_blind fun _ => withdraw_from_evmcore_blind _ _ _) _ _
  | MappedBalance =>
    exact run_function_blind (fun _ => gas_sum_blind _)
      (simple_blind fun _ => Host.onState_blind (balance_refines _)) _ _
  | MappedNonce =>
    exact run_function_blind (fun _ => gas_sum_blind _)
      (simple_blind fun _ => Host.onState_blind (nonce_refines _)) _ _
  | DeployEip1820 =>
    exact run_function_blind (fun _ => gas_sum_blind _) (simple_blind fun _ =>
      deploy_eip1820_blind) _ _
  | EpochNumber => exact hquery _
  | PoSHeight => exact hquery _
  | FinalizedEpoch => exact hquery _

theorem internal_exec_blind (c : InternalContract) (params : ActionParams) :
    Blind E (Host.Replicas codeOf db db') (c.exec g ctx params) :=
  .ite (fun _ => .seq (.ofExcept _) fun _ => function_blind _ _ _) fun _ => .fail _

theorem pass_result_blind (pass : PassResult) :
    Blind E (Host.Replicas codeOf db db') (pass.exec g ctx) := by
  refine .seq (.when fun _ => ?_) fun _ => .seq (.ofExcept _) fun _ => .seq (.expect _ _) fun _ =>
    .ite (fun _ => .fail _) fun _ => .pure rfl
  exact .seq (.result_eq (log_event_blind _ _ _ _)) fun _ => .assert _ _

/-! ## Frames -/

theorem finalize_blind (result : Except VmError GasLeft) :
    Blind E (Host.Replicas codeOf db db') (finalize g ctx result) := by
  rcases result with err | ⟨gas_left⟩ | ⟨gas_left, data, apply_state⟩
  · exact .fail _
  · exact .pure rfl
  · refine .seq (.ite (fun hc => ?_) fun _ => .pure rfl) fun _ => .pure rfl
    refine .seq (.expect _ _) fun code => .ite (fun _ => ?_) fun _ => ?_
    · exact .ite (fun _ => .fail _) fun _ => .pure rfl
    · exact .seq (Host.onState_blind (init_code_refines _ _)) fun _ => .pure rfl

theorem pre_exec_blind (params : ActionParams) (spec : Spec) (is_create : Bool) :
    Blind E (Host.Replicas codeOf db db') (CallCreateFrame.pre_exec params spec is_create) := by
  refine .ite (fun _ => ?_) fun _ => ?_
  · unfold CallCreateFrame.transfer_exec_balance_and_init_contract
    cases params.value with
    | Apparent v => exact .abort _
    | Transfer v =>
      exact .seq (Host.inState_alike (balance_refines _).blind) fun _ =>
        .seq (Host.inTouched_blind fun _ => sub_balance_refines _ _ _) fun _ =>
        Host.inState_alike (new_contract_refines _ _ _).blind
  · unfold CallCreateFrame.transfer_exec_balance
    cases params.value with
    | Apparent v => exact .pure rfl
    | Transfer v => exact Host.inTouched_blind fun _ => transfer_balance_refines _ _ _ _ _

theorem Host.callstack_blind :
    Blind E (Host.Replicas codeOf db db') (Prog.gets Host.callstack : DbM FrameStackInfo) :=
  .gets fun _ _ hr => hr.callstack

/-- A frame begins in the same way on replicas. -/
theorem frame_exec_alike (O O' : HashOrder) (frame : CallCreateFrame) :
    Alike E (Host.Replicas codeOf db db') Eq (@CallCreateFrame.exec g _ O frame)
      (@CallCreateFrame.exec g _ O' frame) := by
  unfold CallCreateFrame.exec
  cases frame.status with
  | Input params =>
    refine .seq (.assert _ _) fun _ => .seq (.assert _ _) fun _ =>
      .seq (.update fun _ _ hr => { hr with }) fun _ =>
      .seq (Host.inState_alike checkpoint_blind) fun _ =>
      .seq Host.callstack_blind fun _ => .seq (.ofPanic _) fun callstack =>
      .seq (.update fun _ _ hr => { hr with callstack := rfl }) fun _ =>
      .seq (pre_exec_blind _ _ _) fun _ =>
      .seq (.ofPanic _) fun _ => .pure rfl
  | Running => exact .abort _
  | ResumeCall resume => exact .abort _
  | ResumeCreate resume => exact .abort _
  | Done => exact .abort _

theorem close_alike (O O' : HashOrder) (frame : CallCreateFrame) (apply_state : Bool) :
    Alike E (Host.Replicas codeOf db db') Eq (@CallCreateFrame.close O frame apply_state)
      (@CallCreateFrame.close O' frame apply_state) := by
  refine .ite (fun _ => ?_) fun _ => ?_
  · refine .seq (.update fun _ _ hr => { hr with substate := ?_ }) fun _ =>
      .seq (Host.inState_alike (discard_checkpoint_alike O O')) fun _ =>
      .seq (.gets fun _ _ hr => hr.substate) fun _ => .pure rfl
    rw [hr.substate]
  · exact .seq (Host.inState_alike (revert_to_checkpoint_alike O O')) fun _ => .pure rfl

/-- A frame ends in the same way on replicas, unless an observer panics. -/
theorem process_return_alike (O O' : HashOrder) (frame : CallCreateFrame)
    (result : Except VmError GasLeft) :
    Alike ObserverPanic (Host.Replicas codeOf db db') Eq
      (@CallCreateFrame.process_return g _ O frame result)
      (@CallCreateFrame.process_return g _ O' frame result) := by
  have hseparate : ∀ r : Except VmError FinalizationResult,
      Blind ObserverPanic (Host.Replicas codeOf db db') (separate_out_db_error r : DbM _) := by
    intro r
    unfold separate_out_db_error
    split
    · exact .fail _
    · exact .pure rfl
  refine .seq (.result_eq (finalize_blind _)) fun r => .seq (hseparate r) fun r =>
    .seq (close_alike O O' _ _) fun substate => ?_
  have hgets : Alike ObserverPanic (Host.Replicas codeOf db db') (fun _ _ => True)
      (Prog.gets Host.observer : DbM MultiObservers)
      (Prog.gets Host.observer : DbM MultiObservers) :=
    .gets fun _ _ _ => trivial
  refine hgets.bind fun o o' _ => ?_
  have hpanics : ∀ (o : MultiObservers) (executive_result : Except VmError FrameReturn) p,
      (if frame.context.is_create then o.record_create_result executive_result
        else o.record_call_result executive_result) = .error p → ObserverPanic p := by
    intro o executive_result p hp
    split at hp
    · exact observerPanic_of_record_create_result hp
    · exact observerPanic_of_record_call_result hp
  refine Alike.bind (R := fun _ _ => True) (.ofPanic_of_panics (hpanics o _) (hpanics o' _)
    fun _ _ _ _ => trivial) fun o o' _ => ?_
  exact .seq Host.callstack_blind fun _ => .seq (.ofPanic _) fun _ =>
    .seq (.update fun _ _ hr => { hr with callstack := rfl }) fun _ => .pure rfl

theorem process_output_alike (O O' : HashOrder) (frame : CallCreateFrame)
    (output : TrapResult GasLeft Suspended) :
    Alike ObserverPanic (Host.Replicas codeOf db db') Eq
      (@CallCreateFrame.process_output g _ O frame output)
      (@CallCreateFrame.process_output g _ O' frame output) := by
  unfold CallCreateFrame.process_output
  cases output with
  | Return result => exact .seq (process_return_alike O O' _ _) fun _ => .pure rfl
  | SubCallCreate trap resume => exact .seq (.gets fun _ _ hr => hr.substate) fun _ => .pure rfl

/-- What an interpreter needs of the hash that it was given with its code. -/
def Exec.Named (codeOf : H256 → Bytes) : Exec → Prop
  | Interpreter _ i => ∀ hash, i.params.code_hash = some hash → codeOf hash = i.code
  | _ => True

/-- A step of what runs in a frame. -/
theorem exec_step_blind {exec : Exec} (hnamed : exec.Named codeOf) :
    Blind E (Host.Replicas codeOf db db') (exec.step g ctx) := by
  cases exec with
  | NoopExec gas => exact .pure rfl
  | BuiltinExec builtin params => exact .pure rfl
  | InternalContractExec internal params =>
    exact .seq (.result_eq (internal_exec_blind _ _)) fun _ => .pure rfl
  | PassResult pass => exact .seq (.result_eq (pass_result_blind _)) fun _ => .pure rfl
  | Interpreter c i =>
    have hstep :
      Blind E (Interpreter.AbreastIn i.params.code_hash i.code (Host.Replicas codeOf db db'))
        (Interpreter.step g ctx : Interpreter.StepM c _) :=
      Interpreter.step_blind (replicas_contextBlind hnamed)
    refine (hstep.withPart (P := Eq) (fun _ _ hr => ⟨⟨rfl, hr⟩, rfl, rfl⟩)
      fun _ _ hpq => hpq.1).bind ?_
    rintro ⟨r, i₁⟩ ⟨_, _⟩ ⟨hr, rfl⟩
    obtain rfl := hr.eq
    rcases r with e | _ | value | _ | trap
    · exact .pure rfl
    · exact .abort _
    · exact .pure rfl
    · exact .pure rfl
    · exact .pure rfl

end

/-! ## Stacks of frames -/

/-- The stacks are the same but for their hosts, which are replicas. -/
structure FrameStack.Replicas (codeOf : H256 → Bytes) (db db' : StateDb) (s s' : FrameStack) :
    Prop where
  host : Host.Replicas codeOf db db' s.host s'.host
  frame_stack : s.frame_stack = s'.frame_stack
  tx_substate : s.tx_substate = s'.tx_substate
  base_gas_required : s.base_gas_required = s'.base_gas_required
  phase : s.phase = s'.phase

/-- The outputs are the same but for the observers. -/
structure FrameStackOutput.Replicas (o o' : FrameStackOutput) : Prop where
  result : o.result = o'.result
  substate : o.substate = o'.substate
  base_gas_required : o.base_gas_required = o'.base_gas_required

/-- An interpreter that runs was given the hash of its code, or none. -/
def FrameStack.Named (codeOf : H256 → Bytes) (s : FrameStack) : Prop :=
  ∀ frame exec, s.phase = .Execute frame exec → exec.Named codeOf

section
variable {g : Globals}

theorem onHost_alike {x y : DbM α} (h : Alike E (Host.Replicas codeOf db db') Eq x y) :
    Alike E (FrameStack.Replicas codeOf db db') Eq (FrameStack.onHost x) (FrameStack.onHost y) :=
  h.zoom (fun _ _ hr => hr.host) fun _ _ _ _ hr hh => { hr with host := hh }

theorem goto_blind (phase : Phase) :
    Blind E (FrameStack.Replicas codeOf db db') (FrameStack.goto phase) :=
  .update fun _ _ hr => { hr with phase := rfl }

/-- A round does the same on replicas, unless an observer panics. -/
theorem round_alike (O O' : HashOrder) {s s' : FrameStack} (hr : s.Replicas codeOf db db' s')
    (hnamed : s.Named codeOf) :
    OutcomeAlike ObserverPanic (FrameStack.Replicas codeOf db db')
      (OptionRel FrameStackOutput.Replicas)
      ((@FrameStack.step _ O g).run s) ((@FrameStack.step _ O' g).run s') := by
  have hnext : Alike ObserverPanic (FrameStack.Replicas codeOf db db')
    (OptionRel FrameStackOutput.Replicas)
      (pure none : StackM (Option FrameStackOutput))
      (pure none : StackM (Option FrameStackOutput)) :=
    .pure .none
  unfold FrameStack.step
  rw [run_bind, run_bind, run_gets, run_gets]
  have hphase := hr.phase
  have hstack := hr.frame_stack
  simp only [id]
  rw [← hphase, ← hstack]
  rcases hs : s.phase with frame | ⟨frame, exec⟩ | ⟨result | ⟨kind, caller⟩⟩
  · have henter : Alike ObserverPanic (FrameStack.Replicas codeOf db db') Eq
      (@FrameStack.enter _ O g frame)
        (@FrameStack.enter _ O' g frame) := by
      refine .seq (.update fun _ _ hr => { hr with host := { hr.host with substate := rfl } })
        fun _ => ?_
      exact .seq (onHost_alike (frame_exec_alike O O' frame)) fun _ => goto_blind _
    exact (henter.seq fun _ => hnext) s s' hr
  · have hstep : Alike ObserverPanic (FrameStack.Replicas codeOf db db') Eq
        (@FrameStack.execute _ O g frame exec) (@FrameStack.execute _ O' g frame exec) := by
      refine .seq (onHost_alike (exec_step_blind (hnamed frame exec hs))) fun progress => ?_
      cases progress with
      | Continue exec => exact goto_blind _
      | Output output =>
        exact .seq (onHost_alike (process_output_alike O O' frame output)) fun _ => goto_blind _
    exact (hstep.seq fun _ => hnext) s s' hr
  · rcases hframes : s.frame_stack with _ | ⟨parent, rest⟩
    · refine .returns (.ok (.some ⟨rfl, ?_, hr.base_gas_required⟩)) hr
      show accrue_substate s.tx_substate result = accrue_substate s'.tx_substate result
      rw [hr.tx_substate]
    · have hresume : Blind ObserverPanic (FrameStack.Replicas codeOf db db')
          (FrameStack.resume parent rest result) := by
        refine .seq (.ofPanic _) fun _ => .update fun _ _ hr => ?_
        exact { hr with host := { hr.host with substate := rfl }, frame_stack := rfl, phase := rfl }
      exact (hresume.seq fun _ => hnext) s s' hr
  · have htrap : Blind ObserverPanic (FrameStack.Replicas codeOf db db')
        (Prog.update (FrameStack.trap g kind caller) : StackM Unit) := by
      refine .update fun s s' hr => { hr with frame_stack := ?_, phase := rfl }
      show caller :: s.frame_stack = caller :: s'.frame_stack
      rw [hr.frame_stack]
    exact (htrap.seq fun _ => hnext) s s' hr

end

end CfxEvm
