import CfxEvm.Frame.Proofs.EffectProofs

/-!
# Proofs: effects of the internal contracts

The functions of the internal contracts move balances, count nonces up, emit events and, one of
them, deploy a contract. A relation between hosts that these keep is kept by all of them; so an
effect that allows these is the effect of all of them.
-/

open Lib Lib.Prog

namespace CfxEvm

/-- What the functions of the internal contracts do, the deployment apart, keeps the relation. -/
structure FunctionsKeep [Keccak] (g : Globals) (R : Host State → Host State → Prop) : Prop where
  exists_and_not_null : ∀ a, Keeps R (Host.onState (State.exists_and_not_null a))
  code : ∀ a, Keeps R (Host.onState (State.code a))
  code_hash : ∀ a, Keeps R (Host.onState (State.code_hash a))
  nonce : ∀ a, Keeps R (Host.onState (State.nonce a))
  balance : ∀ a, Keeps R (Host.onState (State.balance a))
  transfer : ∀ from_ to_ v, Keeps R (Host.onTouched g.spec fun mode =>
    State.transfer_balance from_ to_ v mode g.spec.account_start_nonce)
  trace : ∀ from_ to_ v, Keeps R (Host.trace_internal_transfer from_ to_ v)
  inc_nonce : ∀ a, Keeps R (Host.onState (State.inc_nonce a g.spec.account_start_nonce))
  log : ∀ ctx params topics data, Keeps R (internal_log ctx params topics data)

section
variable {g : Globals} {R : Host State → Host State → Prop} [IsPreorder (Host State) R]

theorem gas_sum_keeps (gas : Nat) : Keeps R (gas_sum gas) :=
  .ite (fun _ => .pure _) fun _ => .abort _

theorem transaction_gas_keeps (is_create : Bool) (data : Bytes) (spec : Spec) :
    Keeps R (transaction_gas is_create data spec) :=
  .bind (.expect _ _) fun _ => .bind (.assert _ _) fun _ => .pure _

theorem create_gas_keeps (spec : Spec) (code : Bytes) : Keeps R (create_gas spec code) :=
  .bind (transaction_gas_keeps _ _ _) fun _ => gas_sum_keeps _

theorem split_gas_keeps (spec : Spec) (gas_left value : U256) :
    Keeps R (split_gas spec gas_left value) :=
  .bind (gas_sum_keeps _) fun _ => .pure _

variable [Keccak]

namespace FunctionsKeep

variable (h : FunctionsKeep g R)
include h

theorem call_gas (receiver : Address) (params : ActionParams) (spec : Spec) (data : Bytes) :
    Keeps R (CfxEvm.call_gas receiver params spec data) :=
  .bind (transaction_gas_keeps _ _ _) fun _ =>
    .bind (h.exists_and_not_null _) fun _ => gas_sum_keeps _

theorem log_event {α β : Type} [EventIndexEncodable α] [ABIEncodable β] (event_sig : H256)
    (ctx : FrameContext) (indexed : α) (non_indexed : β) (params : ActionParams) :
    Keeps R (CfxEvm.log_event event_sig ctx indexed non_indexed params) :=
  .bind (.ofPanic _) fun _ => .bind (.ofPanic _) fun _ => h.log _ _ _ _

theorem forward_value (params : ActionParams) : Keeps R (CfxEvm.forward_value g params) :=
  .bind (h.transfer _ _ _) fun _ => h.trace _ _ _

theorem call_to_evmcore (ctx : FrameContext) (receiver : Address) (data : Bytes)
    (call_type : CallType) (params : ActionParams) (gas_left : U256) :
    Keeps R (CfxEvm.call_to_evmcore g ctx receiver data call_type params gas_left) := by
  refine .ite (fun _ => .fail _) fun _ => .bind (split_gas_keeps _ _ _) fun _ =>
    .bind (h.forward_value _) fun _ => .bind (h.code _) fun _ =>
    .bind (h.code_hash _) fun _ => .bind (.when fun _ => ?_) fun _ => .pure _
  exact .bind (h.nonce _) fun _ => .bind (h.inc_nonce _) fun _ => h.log_event _ _ _ _ _

theorem create_to_evmcore (ctx : FrameContext) (init : Bytes) (salt : Option H256)
    (params : ActionParams) (gas_left : U256) :
    Keeps R (CfxEvm.create_to_evmcore g ctx init salt params gas_left) :=
  .ite (fun _ => .fail _) fun _ => .bind (split_gas_keeps _ _ _) fun _ =>
    .bind (h.forward_value _) fun _ => .bind (h.nonce _) fun _ =>
    .bind (h.nonce _) fun _ => .bind (h.inc_nonce _) fun _ =>
    .bind (h.log_event _ _ _ _ _) fun _ => .pure _

theorem withdraw_from_evmcore (ctx : FrameContext) (sender : Address) (value : U256)
    (params : ActionParams) :
    Keeps R (CfxEvm.withdraw_from_evmcore g ctx sender value params) := by
  refine .bind (h.balance _) fun _ => .ite (fun _ => .fail _) fun _ => ?_
  exact .bind (h.transfer _ _ _) fun _ => .bind (h.trace _ _ _) fun _ =>
    .bind (h.nonce _) fun _ => .bind (h.inc_nonce _) fun _ => h.log_event _ _ _ _ _

end FunctionsKeep

omit [Keccak] in
theorem run_function_keeps {α β : Type} [ABIDecodable α] [ABIEncodable β] (spec : Spec)
    (t : FunctionType) {payment : α → HostM U256} {body : α → U256 → HostM (Answer β)}
    (hpayment : ∀ a, Keeps R (payment a)) (hbody : ∀ a gas, Keeps R (body a gas))
    (input : Bytes) (params : ActionParams) :
    Keeps R (run_function spec t payment body input params) := by
  refine .bind (.ofExcept _) fun _ => .bind (.ofExcept _) fun a => .bind (hpayment a) fun cost =>
    .ite (fun _ => .fail _) fun _ => .bind (hbody a _) fun answer => ?_
  cases answer with
  | Return output =>
    exact .bind (.ofPanic _) fun _ => .ite (fun _ => .fail _) fun _ => .pure _
  | SubCallCreate trap resume => exact .pure _

omit [Keccak] in
theorem simple_keeps {α β : Type} {body : α → HostM β} (hbody : ∀ a, Keeps R (body a))
    (a : α) (gas : U256) : Keeps R (simple body a gas) :=
  .bind (hbody a) fun _ => .pure _

/-- Every function keeps what they all keep; the deployment is a case of its own. -/
theorem FunctionsKeep.execute (h : FunctionsKeep g R) (ctx : FrameContext) {f : SolidityFunction}
    (hdeploy : f = .DeployEip1820 → Keeps R deploy_eip1820) (input : Bytes)
    (params : ActionParams) : Keeps R (f.execute g ctx input params) := by
  have hquery : ∀ answer, Keeps R (SolidityFunction.block_query g answer input params) :=
    fun answer => run_function_keeps _ _ (fun _ => gas_sum_keeps _) (simple_keeps fun _ =>
      .pure _) _ _
  unfold SolidityFunction.execute
  cases f with
  | CreateToEVM =>
    exact run_function_keeps _ _ (fun _ => create_gas_keeps _ _)
      (fun _ _ => h.create_to_evmcore _ _ _ _ _) _ _
  | TransferToEVM =>
    exact run_function_keeps _ _ (fun _ => h.call_gas _ _ _ _)
      (fun _ _ => h.call_to_evmcore _ _ _ _ _ _) _ _
  | CallToEVM =>
    exact run_function_keeps _ _ (fun _ => h.call_gas _ _ _ _)
      (fun _ _ => h.call_to_evmcore _ _ _ _ _ _) _ _
  | StaticCallToEVM =>
    exact run_function_keeps _ _ (fun _ => gas_sum_keeps _)
      (fun _ _ => h.call_to_evmcore _ _ _ _ _ _) _ _
  | Withdraw =>
    exact run_function_keeps _ _ (fun _ => gas_sum_keeps _)
      (simple_keeps fun _ => h.withdraw_from_evmcore _ _ _ _) _ _
  | MappedBalance =>
    exact run_function_keeps _ _ (fun _ => gas_sum_keeps _)
      (simple_keeps fun _ => h.balance _) _ _
  | MappedNonce =>
    exact run_function_keeps _ _ (fun _ => gas_sum_keeps _)
      (simple_keeps fun _ => h.nonce _) _ _
  | DeployEip1820 =>
    exact run_function_keeps _ _ (fun _ => gas_sum_keeps _) (simple_keeps fun _ => hdeploy rfl) _ _
  | EpochNumber => exact hquery _
  | PoSHeight => exact hquery _
  | FinalizedEpoch => exact hquery _

/-- So does a call of an internal contract. -/
theorem FunctionsKeep.exec (h : FunctionsKeep g R) {c : InternalContract} {params : ActionParams}
    (hdeploy : c.Deploys g params → Keeps R deploy_eip1820) (ctx : FrameContext) :
    Keeps R (c.exec g ctx params) := by
  refine .ite (fun _ => ?_) fun _ => .fail _
  unfold InternalContract.execute
  rcases hload : InternalContract.load_solidity_fn params.data c.get_func_table g.spec with
    e | ⟨f, input⟩
  · exact Keeps.fail (R := R) e
  · refine h.execute ctx (fun hf => hdeploy ⟨input, ?_⟩) input params
    rw [hload, hf]

theorem FunctionsKeep.pass_result (h : FunctionsKeep g R) (ctx : FrameContext)
    (pass : PassResult) : Keeps R (pass.exec g ctx) := by
  refine .bind (.when fun _ => ?_) fun _ => .bind (.ofExcept _) fun _ =>
    .bind (.expect _ _) fun _ =>
    .ite (fun _ => .fail _) fun _ => .pure _
  exact .bind (.result (h.log_event _ _ _ _ _)) fun _ => .assert _ _

/-- What the context and the internal contracts keep is kept by a step of whatever runs in a
    frame. -/
theorem exec_step_keeps {ctx : FrameContext} (hctx : ContextKeeps g ctx R)
    (h : FunctionsKeep g R) (hdeploy : Keeps R deploy_eip1820) (exec : Exec) :
    Keeps R (exec.step g ctx) := by
  cases exec with
  | NoopExec gas => exact .pure _
  | BuiltinExec builtin params => exact .pure _
  | InternalContractExec internal params =>
    exact .bind (.result (h.exec (fun _ => hdeploy) _)) fun _ => .pure _
  | Interpreter c i => exact interpreter_step_keeps hctx i
  | PassResult pass => exact .bind (.result (h.pass_result _ _)) fun _ => .pure _

end

/-! ## What the frames leave alone -/

namespace Overlooks

variable [Keccak] {g : Globals} {ctx : FrameContext} {R : Host State → Host State → Prop}
  [IsPreorder (Host State) R] (h : Overlooks R)
include h

theorem functions : FunctionsKeep g R where
  exists_and_not_null _ := h.onState _
  code _ := h.onState _
  code_hash _ := h.onState _
  nonce _ := h.onState _
  balance _ := h.onState _
  transfer _ _ _ := h.onTouched _ _
  trace _ _ _ := .update fun _ => h.transfer _ _ _ _
  inc_nonce _ := h.onState _
  log _ _ _ _ := .ite (fun _ => .fail _) fun _ => .update fun _ => h.substate _ _

theorem deploy_eip1820 : Keeps R CfxEvm.deploy_eip1820 :=
  .bind (h.onState _) fun _ => .ite (fun _ => .fail _) fun _ =>
    .bind (h.onState _) fun _ => .bind (h.onState _) fun _ => .update fun _ => h.substate _ _

theorem exec_step (hcache : ∀ k cache, R k { k with shared_cache := cache }) (exec : Exec) :
    Keeps R (exec.step g ctx) :=
  exec_step_keeps ⟨h.context, hcache⟩ h.functions h.deploy_eip1820 exec

theorem finalize (result : Except VmError GasLeft) : Keeps R (CfxEvm.finalize g ctx result) := by
  rcases result with err | ⟨gas_left⟩ | ⟨gas_left, data, apply_state⟩
  · exact .fail _
  · exact .pure _
  · refine .bind (.ite (fun _ => .bind (.expect _ _) fun _ => ?_) fun _ => .pure _) fun _ => .pure _
    refine .ite (fun _ => .ite (fun _ => .fail _) fun _ => .pure _) fun _ => ?_
    exact .bind (h.onState _) fun _ => .pure _

theorem pre_exec (params : ActionParams) (spec : Spec) (is_create : Bool) :
    Keeps R (CallCreateFrame.pre_exec params spec is_create) := by
  refine .ite (fun _ => ?_) fun _ => ?_
  · unfold CallCreateFrame.transfer_exec_balance_and_init_contract
    cases params.value with
    | Transfer val =>
      exact .bind (h.inState _) fun _ => .bind (h.inTouched _ _) fun _ => h.inState _
    | Apparent val => exact .abort _
  · unfold CallCreateFrame.transfer_exec_balance
    cases params.value with
    | Transfer val => exact h.inTouched _ _
    | Apparent val => exact .pure _

omit [Keccak] in
theorem close [HashOrder] (frame : CallCreateFrame) (apply_state : Bool) :
    Keeps R (frame.close apply_state) := by
  refine .ite (fun _ => ?_) fun _ => ?_
  · exact .bind (.update fun _ => h.substate _ _) fun _ => .bind (h.inState _) fun _ =>
      .bind (.gets _) fun _ => .pure _
  · exact .bind (h.inState _) fun _ => .pure _

end Overlooks

/-! ## Effects -/

section
variable [Keccak] {g : Globals} {e : Effect}

/-- The effect allows what the functions of the internal contracts do, the deployment apart. -/
structure Effect.AllowsFunctions (e : Effect) (g : Globals) : Prop where
  transfer : ∀ from_ to_ v t, Keeps e.ledger (Ledger.transfer_balance from_ to_ v
    (cleanup_mode t g.spec) g.spec.account_start_nonce)
  inc_nonce : ∀ a, Keeps e.ledger (Ledger.inc_nonce a g.spec.account_start_nonce)
  log : ∀ {s} entry, e.substate s → e.substate { s with logs := s.logs ++ [entry] }

/-- The registry is deployed under an effect that allows the parts. -/
theorem deploy_eip1820_keeps
    (hnew : Keeps e.ledger (Ledger.new_contract eip_1820.ADDRESS 0 1))
    (hinit : ∀ code, Keeps e.ledger (Ledger.init_code eip_1820.ADDRESS code))
    (hnoted : ∀ {t}, e.substate t → e.substate (CallCreateFrame.note_created eip_1820.ADDRESS t)) :
    Keeps e.On deploy_eip1820 :=
  .bind (onState_keeps (is_contract_with_code_refines _) (.gets _)) fun _ =>
    .ite (fun _ => .fail _) fun _ =>
    .bind (onState_keeps (new_contract_refines _ _ _) hnew) fun _ =>
    .bind (onState_keeps (init_code_refines _ _) (hinit _)) fun _ =>
    .update fun _ => ⟨refl_of (Evolves e.ledger) _, hnoted⟩

theorem Effect.AllowsFunctions.functionsKeep (h : e.AllowsFunctions g) : FunctionsKeep g e.On where
  exists_and_not_null a := onState_keeps (exists_and_not_null_refines a) (.gets _)
  code a := onState_keeps (code_refines a) (Ledger.code_keeps a)
  code_hash a := onState_keeps (code_hash_refines a) (.gets _)
  nonce a := onState_keeps (nonce_refines a) (.gets _)
  balance a := onState_keeps (balance_refines a) (.gets _)
  transfer _ _ _ := onTouched_keeps (fun _ => transfer_balance_refines _ _ _ _ _) (h.transfer _ _ _)
  trace _ _ _ := trace_internal_transfer_keeps _ _ _
  inc_nonce a := onState_keeps (inc_nonce_refines _ _) (h.inc_nonce a)
  log _ _ _ _ := .ite (fun _ => .fail _) fun _ =>
    .update fun _ => ⟨refl_of (Evolves e.ledger) _, h.log _⟩

end

end CfxEvm
