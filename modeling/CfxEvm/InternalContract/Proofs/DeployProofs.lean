import CfxEvm.InternalContract.Proofs.FunctionProofs
import CfxEvm.State.Proofs.CreationProofs

/-!
# Proofs: writes of the cross-space contract under the static flag

The functions that write are refused when they are called with `STATICCALL`. When they are called
with `CALL` from a static frame, only the event that they emit in the end fails; the deployment of
the registry emits none.
-/

open Lib Lib.Prog

namespace CfxEvm

section
variable [Keccak] {g : Globals} {ctx : FrameContext} {params : ActionParams} {input : Bytes}
  {f : SolidityFunction}

/-! ## Functions that emit an event -/

theorem log_event_static (hstatic : ctx.static_flag = true) {α β : Type} [EventIndexEncodable α]
    [ABIEncodable β] (event_sig : H256) (indexed : α) (non_indexed : β) :
    Yields (fun _ => False) (log_event event_sig ctx indexed non_indexed params) :=
  .seq fun _ => .seq fun _ => .ite (fun _ => .fail _) fun h => absurd hstatic h

omit [Keccak] in
/-- A function whose body never succeeds never does. -/
theorem run_function_fails {α β : Type} [ABIDecodable α] [ABIEncodable β] {spec : Spec}
    {t : FunctionType} {payment : α → HostM U256} {body : α → U256 → HostM (Answer β)}
    (hbody : ∀ a gas, Yields (fun _ => False) (body a gas)) :
    Yields (fun _ => False) (run_function spec t payment body input params) :=
  .seq fun _ => .seq fun a => .seq fun _ => .ite (fun _ => .fail _) fun _ =>
    .bind (hbody a _) fun _ h => h.elim

theorem call_to_evmcore_static (hstatic : ctx.static_flag = true) (receiver : Address)
    (data : Bytes) (gas_left : U256) :
    Yields (fun _ => False) (call_to_evmcore g ctx receiver data .Call params gas_left) := by
  refine .ite (fun _ => .fail _) fun _ => .seq fun _ => .seq fun _ => .seq fun _ => .seq fun _ =>
    .bind (P := fun _ => False) ?_ fun _ h => h.elim
  exact .seq fun _ => .seq fun _ => log_event_static hstatic _ _ _

theorem create_to_evmcore_static (hstatic : ctx.static_flag = true) (init : Bytes)
    (salt : Option H256) (gas_left : U256) :
    Yields (fun _ => False) (create_to_evmcore g ctx init salt params gas_left) :=
  .ite (fun _ => .fail _) fun _ => .seq fun _ => .seq fun _ => .seq fun _ => .seq fun _ =>
    .seq fun _ => .bind (log_event_static hstatic _ _ _) fun _ h => h.elim

theorem withdraw_from_evmcore_static (hstatic : ctx.static_flag = true) (sender : Address)
    (value : U256) :
    Yields (fun _ => False) (withdraw_from_evmcore g ctx sender value params) :=
  .seq fun _ => .ite (fun _ => .fail _) fun _ => .seq fun _ => .seq fun _ => .seq fun _ =>
    .seq fun _ => log_event_static hstatic _ _ _

/-- The functions that write and emit an event fail under the static flag. -/
theorem function_static (hstatic : ctx.static_flag = true)
    (hwrite : f.function_type.HAS_WRITE_OP = true) (hne : f ≠ .DeployEip1820) :
    Yields (fun _ => False) (f.execute g ctx input params) := by
  cases f with
  | CreateToEVM => exact run_function_fails fun _ _ => create_to_evmcore_static hstatic _ _ _
  | TransferToEVM => exact run_function_fails fun _ _ => call_to_evmcore_static hstatic _ _ _
  | CallToEVM => exact run_function_fails fun _ _ => call_to_evmcore_static hstatic _ _ _
  | Withdraw =>
    exact run_function_fails fun _ _ =>
      .bind (withdraw_from_evmcore_static hstatic _ _) fun _ h => h.elim
  | DeployEip1820 => exact absurd rfl hne
  | StaticCallToEVM => cases hwrite
  | MappedBalance => cases hwrite
  | MappedNonce => cases hwrite
  | EpochNumber => cases hwrite
  | PoSHeight => cases hwrite
  | FinalizedEpoch => cases hwrite

/-! ## The deployment of the registry -/

/-- What `deployEip1820` asks for before it deploys the registry: a `CALL` without value and with
    enough gas, while there is no code at the address. -/
structure Deploys (g : Globals) (params : ActionParams) (f : SolidityFunction) (s : State) :
    Prop where
  function : f = .DeployEip1820
  call_type : params.call_type = .Call
  value : params.value.value = 0
  gas : g.spec.eip1820_gas ≤ params.gas.toNat
  code : (State.is_contract_with_code eip_1820.ADDRESS).value s = .ok (.ok false)

/-- The function that the data asks the cross-space contract for. -/
abbrev Asks (g : Globals) (params : ActionParams) (f : SolidityFunction) (input : Bytes) : Prop :=
  InternalContract.load_solidity_fn params.data InternalContract.CrossSpaceCall.get_func_table
    g.spec = .ok (f, input)

theorem wp_onState {α : Type} {x : StateM α} {y : LedgerM α} (hxy : StateRefines x y)
    {db : StateDb} {saved : List Ledger} {h : Host State} {w : Ledger}
    (hrep : Rep db saved h.state w) {E : Panic → Prop} {Q : Except VmError α → Host State → Prop}
    (hy : wp y E (fun r w' => ∀ s', Rep db saved s' w' →
      Q (r.mapError .StateDbError) { h with state := s' }) w) :
    wp (Host.onState x) E Q h :=
  wp_mapErr.mpr (wp_inState hxy hrep hy)

/-- The deployment replaces the account of the registry by a contract without balance. -/
theorem deploy_eip1820_spec {db : StateDb} {saved : List Ledger} {h : Host State} {w : Ledger}
    (hrep : Rep db saved h.state w)
    (hcode : (State.is_contract_with_code eip_1820.ADDRESS).value h.state = .ok (.ok false)) :
    wp deploy_eip1820 (fun _ => False) (fun r h' => r = .ok () ∧ ∃ w', Rep db saved h'.state w' ∧
      w'.balanceOf = Function.update w.balanceOf eip_1820.ADDRESS 0) h := by
  have hnone : (w.accounts eip_1820.ADDRESS).any (fun v => v.code_hash != KECCAK_EMPTY) =
      false := by
    rw [(is_contract_with_code_refines _ db saved).value_eq hrep] at hcode
    exact Except.ok.inj (Except.ok.inj hcode)
  refine wp_bind.mpr (wp_onState (is_contract_with_code_refines _) hrep (wp_gets.mpr ?_))
  intro s₁ hrep₁
  rw [hnone]
  refine wp_bind.mpr (wp_onState (new_contract_refines _ _ _) hrep₁ (wp_update.mpr ?_))
  intro s₂ hrep₂
  refine wp_bind.mpr (wp_onState (init_code_refines _ _) hrep₂ ?_)
  refine wp_bind.mpr (wp_gets.mpr ?_)
  simp only [Ledger.setAccount, Function.update_self]
  refine wp_update.mpr fun s₃ hrep₃ => wp_update.mpr ⟨rfl, _, hrep₃, ?_⟩
  funext a
  by_cases ha : a = eip_1820.ADDRESS
  · subst ha
    simp [Ledger.balanceOf, Ledger.setAccount, AccountView.init_code, AccountView.contract]
  · simp [Ledger.balanceOf, Ledger.setAccount, ha]

/-- A deployment that is asked for takes place, and its result is applied. -/
theorem deploys_spec {db : StateDb} {saved : List Ledger} {h : Host State} {w : Ledger}
    (hrep : Rep db saved h.state w) (hasks : Asks g params f input)
    (hd : Deploys g params f h.state) :
    wp (InternalContract.exec g ctx .CrossSpaceCall params) (fun _ => False) (fun r h' =>
      (∃ gas data, r = .ok (.Return (.NeedsReturn gas data true))) ∧
        ∃ w', Rep db saved h'.state w' ∧
        w'.balanceOf = Function.update w.balanceOf eip_1820.ADDRESS 0) h := by
  obtain ⟨rfl, htype, hvalue, hgas, hcode⟩ := hd
  refine wp_ite (fun _ => ?_) fun hne => absurd htype (by simp_all)
  refine wp_bind.mpr (wp_ofExcept.mpr ?_)
  rw [hasks]
  refine wp_bind.mpr (wp_ofExcept.mpr ?_)
  have hcheck : pre_execution_check SolidityFunction.DeployEip1820.function_type params =
      .ok () := by
    simp [pre_execution_check, SolidityFunction.function_type, FunctionType.non_payable_write,
      hvalue, htype, U256.is_zero]
  rw [hcheck]
  refine wp_bind.mpr (wp_ofExcept.mpr ?_)
  have hlt : g.spec.eip1820_gas < 2 ^ 256 := Nat.lt_of_le_of_lt hgas params.gas.isLt
  refine wp_bind.mpr (wp_ite (fun _ => ?_) fun hge => absurd hlt hge)
  have hcost : (BitVec.ofNat 256 g.spec.eip1820_gas).toNat = g.spec.eip1820_gas := by
    rw [BitVec.toNat_ofNat, Nat.mod_eq_of_lt hlt]
  refine wp_ite (fun hless => ?_) fun _ => ?_
  · rw [hcost] at hless
    exact absurd hless (Nat.not_lt.mpr hgas)
  refine wp_bind.mpr (wp_bind.mpr (wp_post (deploy_eip1820_spec hrep hcode) ?_))
  rintro r h' ⟨rfl, hw'⟩
  refine wp_bind.mpr (wp_ite (fun hless => ?_) fun _ => ⟨⟨_, _, rfl⟩, hw'⟩)
  simp at hless

omit [Keccak] in
/-- A function that writes and is not payable can only be called without value, and not with
    `STATICCALL`. -/
theorem non_payable_write_check
    (h : pre_execution_check FunctionType.non_payable_write params = .ok ()) :
    params.value.value = 0 ∧ params.call_type ≠ .StaticCall := by
  unfold pre_execution_check at h
  split at h
  · cases h
  · split at h
    · cases h
    · rename_i hvalue hstatic
      exact ⟨by simpa [FunctionType.non_payable_write, U256.is_zero] using hvalue,
        by simpa [FunctionType.non_payable_write] using hstatic⟩

/-- A deployment that is not asked for as it should be fails without a change. -/
theorem not_deploys_spec {db : StateDb} {saved : List Ledger} {h : Host State} {w : Ledger}
    (hrep : Rep db saved h.state w) (hasks : Asks g params .DeployEip1820 input)
    (hnot : ¬Deploys g params .DeployEip1820 h.state) :
    wp (InternalContract.exec g ctx .CrossSpaceCall params) (fun _ => True) (fun r h' =>
      (∃ e, r = .error e) ∧ Rep db saved h'.state w) h := by
  refine wp_ite (fun htype => ?_) fun _ => ⟨⟨_, rfl⟩, hrep⟩
  refine wp_bind.mpr (wp_ofExcept.mpr ?_)
  rw [hasks]
  refine wp_bind.mpr (wp_ofExcept.mpr ?_)
  rcases hcheck : pre_execution_check SolidityFunction.DeployEip1820.function_type params with e | _
  · exact ⟨⟨_, rfl⟩, hrep⟩
  obtain ⟨hvalue, hnotstatic⟩ := non_payable_write_check hcheck
  have hcall : params.call_type = .Call := by
    simp only [Bool.or_eq_true, decide_eq_true_eq] at htype
    exact htype.resolve_right hnotstatic
  refine wp_bind.mpr (wp_ofExcept.mpr ?_)
  refine wp_bind.mpr (wp_ite (fun hlt => ?_) fun _ => trivial)
  have hcost : (BitVec.ofNat 256 g.spec.eip1820_gas).toNat = g.spec.eip1820_gas := by
    rw [BitVec.toNat_ofNat, Nat.mod_eq_of_lt hlt]
  refine wp_ite (fun _ => ⟨⟨_, rfl⟩, hrep⟩) fun hgas => ?_
  rw [hcost] at hgas
  refine wp_bind.mpr (wp_bind.mpr (wp_bind.mpr
    (wp_onState (is_contract_with_code_refines _) hrep (wp_gets.mpr ?_))))
  intro s₁ hrep₁
  cases hcode : (w.accounts eip_1820.ADDRESS).any fun v => v.code_hash != KECCAK_EMPTY with
  | true => exact ⟨⟨_, rfl⟩, hrep₁⟩
  | false =>
    refine absurd ⟨rfl, hcall, hvalue, Nat.le_of_not_lt hgas, ?_⟩ hnot
    rw [(is_contract_with_code_refines _ db saved).value_eq hrep]
    exact congrArg (fun b => Except.ok (Except.ok b)) hcode

/-! ## Calls of functions that write -/

/-- Whatever the cross-space contract returns is an error. -/
def EndsWithError (g : Globals) (ctx : FrameContext) (params : ActionParams) (h : Host State) :
    Prop :=
  ∀ r h', (InternalContract.exec g ctx .CrossSpaceCall params).run h = .ok (r, h') →
    ∃ e, r = .error e

variable [HashOrder]

/-- In a static frame a call of a function that writes ends with an error, unless it is a `CALL` of
    `deployEip1820` that passes the checks of that function: it then deploys the registry and
    succeeds. -/
theorem static_write_fails_iff {h : Host State} (hs : State.Reachable h.state)
    (hstatic : ctx.static_flag = true) (hasks : Asks g params f input)
    (hwrite : f.function_type.HAS_WRITE_OP = true) :
    EndsWithError g ctx params h ↔ ¬Deploys g params f h.state := by
  obtain ⟨db, saved, w, hrep⟩ := hs.rep
  constructor
  · intro herror hd
    obtain ⟨r, h', hrun, ⟨gas, data, rfl⟩, -⟩ := exists_run_of_wp (deploys_spec hrep hasks hd)
    obtain ⟨e, he⟩ := herror _ h' hrun
    cases he
  · intro hnot r h' hrun
    by_cases hf : f = .DeployEip1820
    · subst hf
      exact (wp_of_run (not_deploys_spec hrep hasks hnot) hrun).1
    · have hfails : Yields (fun _ => False)
          (InternalContract.exec g ctx .CrossSpaceCall params) := by
        refine .ite (fun _ => ?_) fun _ => .fail _
        refine .bind (.ofExcept fun r hr => hr) fun r hr => ?_
        obtain rfl : (f, input) = r := Except.ok.inj (hasks.symm.trans hr)
        exact function_static hstatic hwrite hf
      rcases r with e | answer
      · exact ⟨e, rfl⟩
      · exact (hfails.of_run hrun).elim

end

section

/-- A hash function that agrees with Keccak-256 on the empty string and on the code of the
    registry. -/
@[reducible] def keccakOfRegistry : Keccak :=
  ⟨fun bytes => if bytes.isEmpty then
      0xc5d2460186f7233c927e7db2dcc703c0e500b653ca82273b7bfad8045d85a470
    else 0xf0aa940bb32e37c5f7268b53acc48c7cdd148cd0fc196f30faa00a4d66c0443a⟩

attribute [local instance] keccakOfRegistry HashOrder.asListed

/-- A machine on which the cross-space contract is active. -/
def crossSpaceMachine : Globals where
  env := ⟨1, 0, 0, 0, 0, 0, 1⟩
  machine := ⟨fun _ => none, [.CrossSpaceCall], fun _ => 1⟩
  spec := { Spec.genesis_spec with cip90 := true }

/-- A call of `deployEip1820` from the address 7. -/
def deployCall : ActionParams where
  code_address := InternalContract.CrossSpaceCall.address
  code_hash := none
  address := InternalContract.CrossSpaceCall.address
  sender := 7
  original_sender := 7
  gas := 2000000
  gas_price := 0
  value := .Transfer 0
  code := none
  data := some SolidityFunction.DeployEip1820.FUNC_SIG
  call_type := .Call
  create_type := .None
  params_type := .Separate

/-- The context of that call in a frame that has inherited the static flag. -/
def deployContext : FrameContext :=
  { depth := 2, is_create := false, origin := .of_params deployCall, static_flag := true }

/-- A host with nothing in it but a state. -/
def freshHost (state : State) : Host State := ⟨state, .new, .new, .with_no_tracing, .new 0⟩

/-- Called with `CALL` from a static frame, `deployEip1820` succeeds and is applied. -/
theorem deploy_in_static_frame_succeeds :
    State.Reachable (.new .empty) ∧ deployContext.static_flag = true ∧
      Asks crossSpaceMachine deployCall .DeployEip1820 [] ∧
      SolidityFunction.DeployEip1820.function_type.HAS_WRITE_OP = true ∧
      deployCall.call_type = .Call ∧ deployCall.value.value = 0 ∧
      ¬EndsWithError crossSpaceMachine deployContext deployCall (freshHost (.new .empty)) ∧
      ∃ gas data h', (InternalContract.exec crossSpaceMachine deployContext .CrossSpaceCall
        deployCall).run (freshHost (.new .empty)) =
          .ok (.ok (.Return (.NeedsReturn gas data true)), h') := by
  have hstate : State.Reachable (.new .empty) := ⟨.empty, [], _, rfl⟩
  obtain ⟨db, saved, w, hrep⟩ := hstate.rep
  have hd : Deploys crossSpaceMachine deployCall .DeployEip1820 (.new .empty) :=
    ⟨rfl, rfl, rfl, by decide, rfl⟩
  have hasks : Asks crossSpaceMachine deployCall .DeployEip1820 [] := rfl
  have hdeploy :
    wp (InternalContract.exec crossSpaceMachine deployContext .CrossSpaceCall deployCall)
      _ _ (freshHost (.new .empty)) := deploys_spec hrep hasks hd
  obtain ⟨r, h', hrun, ⟨gas, data, rfl⟩, -⟩ := exists_run_of_wp hdeploy
  refine ⟨hstate, rfl, rfl, rfl, rfl, rfl, fun herror => ?_, gas, data, h', hrun⟩
  obtain ⟨e, he⟩ := herror _ h' hrun
  cases he

/-- A call of `withdrawFromMapped` in the same frame, which ends with an error. -/
def withdrawCall : ActionParams :=
  { deployCall with
    data := some (SolidityFunction.Withdraw.FUNC_SIG ++ List.replicate 32 0) }

theorem withdraw_in_static_frame_fails :
    State.Reachable (.new .empty) ∧
      EndsWithError crossSpaceMachine deployContext withdrawCall (freshHost (.new .empty)) := by
  have hstate : State.Reachable (.new .empty) := ⟨.empty, [], _, rfl⟩
  refine ⟨hstate, (static_write_fails_iff (f := .Withdraw) (h := freshHost (.new .empty)) hstate rfl
    rfl rfl).mpr fun hd => ?_⟩
  cases hd.function

end

end CfxEvm
