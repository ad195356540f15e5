import CfxEvm.Execution.Proofs.RunProofs
import CfxEvm.Execution.Proofs.TraceMarkProofs
import CfxEvm.State.Proofs.TotalProofs

/-!
# Proofs: what an unsuccessful transaction leaves behind

A transaction that is not executed leaves nothing behind. One that is executed and fails is charged:
the frames are taken back, nothing is destroyed, and what is not refunded is the fee.
-/

open Lib Lib.Prog

namespace CfxEvm

section
variable [Keccak] {g : Globals} {tx : Transaction} {options : TransactOptions}
  {db : StateDb} {saved : List Ledger} {t t' : TxState} {w w' : Ledger}

/-! ## The ledger -/

/-- A refund makes the charge smaller. -/
theorem Ledger.Received.charged {a : Address} {nonce cost v fee : U256}
    (h : Received a v nonce (w.charged a nonce cost) w') (hfee : fee.toNat + v.toNat = cost.toNat) :
    w' = w.charged a nonce fee := by
  have hcost : cost = fee + v := by
    refine BitVec.eq_of_toNat_eq ?_
    rw [BitVec.toNat_add_of_lt (hfee ▸ cost.isLt), hfee]
  rcases h with ⟨rfl, rfl⟩ | ⟨-, rfl⟩
  · rw [BitVec.ofNat_eq_ofNat, BitVec.add_zero] at hcost
    rw [hcost]
  · have hacc : (w.charged a nonce cost).accountOrNew a nonce = { w.accountOrNew a nonce with
        nonce := (w.accountOrNew a nonce).nonce + 1
        balance := (w.accountOrNew a nonce).balance - cost } := by
      unfold accountOrNew charged
      rw [setAccount_same]
      rfl
    have hbalance : (w.accountOrNew a nonce).balance - cost + v =
        (w.accountOrNew a nonce).balance - fee := by
      rw [hcost]
      bv_omega
    rw [hacc]
    show setAccount a _ (setAccount a _ w) = _
    rw [setAccount_setAccount]
    simp only [hbalance]
    rfl

/-- The charge of an account that is there. -/
theorem Ledger.charged_of_some (w : Ledger) {a : Address} {nonce fee : U256} {v : AccountView}
    (hacc : w.accounts a = some v) :
    (w.charged a nonce fee).accounts a = (w.accounts a).map fun v =>
      { v with nonce := v.nonce + 1, balance := v.balance - fee } := by
  rw [charged, setAccount_same, accountOrNew, hacc]
  rfl

/-- The charge of an account that is not there. -/
theorem Ledger.charged_of_none (w : Ledger) {a : Address} (nonce fee : U256)
    (hacc : w.accounts a = none) :
    (w.charged a nonce fee).accounts a = some (.basic (0 - fee) (nonce + 1) (w.stored a)) := by
  rw [charged, setAccount_same, accountOrNew, hacc]
  rfl

variable [HashOrder]

namespace TXExecutor

omit [Keccak] [HashOrder] in
/-- The result of a frame that is not applied is that of a transaction that fails. -/
theorem Concluded.not_applied {s : FrameStack} {r : Except VmError FrameReturn}
    {executed : Executed}
    {error : ExecutionError} {executed' : Executed}
    (h : Concluded tx executed (s.process_return r).result
      (.ExecutionErrorBumpNonce error executed')) :
    frame_applied r = false := by
  cases r with
  | error e => rfl
  | ok r =>
    generalize hresult : (s.process_return (.ok r)).result = result at h
    cases h with
    | failed => cases hresult
    | reverted happly =>
      cases hresult
      exact happly

/-- A transaction that is not executed leaves the ledger as it is. -/
theorem rep_of_not_executed {fuel : ℕ} {outcome : ExecutionOutcome} (hrep : Rep db saved t.state w)
    (hrun : (transact g tx fuel options).run t = .ok (.ok (some outcome), t'))
    (hfailed : ∀ error executed, outcome ≠ .ExecutionErrorBumpNonce error executed)
    (hfinished : ∀ executed, outcome ≠ .Finished executed) : Rep db saved t'.state w := by
  rcases transact_inv hrep hrun with ⟨w', hpre, hchecked, hrep'⟩ |
    ⟨frame, substate, observer, base, w₁, t₁, s, r, hpre, hchecked, hrep₁, hexec⟩
  · cases hchecked with
    | old_nonce => exact hrep'
    | base_gas => exact hrep'
    | reconsider => exact hrep'
    | not_enough_cash => exact absurd rfl (hfailed _ _)
  · obtain ⟨w₂, hrep₂, -⟩ := hexec.rep hrep₁
    obtain ⟨refunded, settled, w₃, w', -, -, hconcluded⟩ := hexec.settled hrep₂
    generalize (s.process_return r).result = result at hconcluded
    cases hconcluded with
    | failed => exact absurd rfl (hfailed _ _)
    | applied => exact absurd rfl (hfinished _)
    | reverted => exact absurd rfl (hfailed _ _)

/-- A transaction that fails is charged, and nothing else happens. -/
theorem charged_of_failed {fuel : ℕ} {error : ExecutionError} {executed : Executed}
    (hcharge : options.check_settings.charge_gas = true) (hrep : Rep db saved t.state w)
    (hrun : (transact g tx fuel options).run t =
      .ok (.ok (some (.ExecutionErrorBumpNonce error executed)), t')) :
    Rep db saved t'.state (w.charged tx.sender g.spec.account_start_nonce executed.fee) ∧
      executed.fee.toNat ≤ w.balances tx.sender ∧
      (w.accountOrNew tx.sender g.spec.account_start_nonce).nonce.toNat + 1 < 2 ^ 256 ∧
      ∀ required got cost, error = .NotEnoughCash required got cost →
        executed.fee.toNat = min (tx.gas.toNat * tx.gas_price.toNat) (w.balances tx.sender) := by
  have hcost : gasCost tx options = tx.gas.toNat * tx.gas_price.toNat := by
    rw [gasCost, if_pos hcharge]
  have hlt : w.balances tx.sender < 2 ^ 256 := (w.balanceOf tx.sender).isLt
  rcases transact_inv hrep hrun with ⟨w', hpre, hchecked, hrep'⟩ |
    ⟨frame, substate, observer, base, w₁, t₁, s, r, hpre, hchecked, hrep₁, hexec⟩
  · cases hchecked with
    | not_enough_cash hnonce hcash hpaid hbump =>
      exact ⟨hrep', hpaid.trans_le (Nat.min_le_right _ _), hbump, fun _ _ _ _ => hcost ▸ hpaid⟩
  · obtain ⟨w₂, hrep₂, htx, hunapplied⟩ := hexec.rep hrep₁
    obtain ⟨refunded, settled, w₃, w', hrep', hsettled, hconcluded⟩ := hexec.settled hrep₂
    obtain ⟨rfl, hnone⟩ := hunapplied hconcluded.not_applied
    have hfee := hconcluded.fee_eq hsettled (.inr ⟨error, rfl⟩)
    -- No frame is applied, so no contract is destroyed.
    have hkills : (s.process_return r).substate.suicides = [] := by
      obtain ⟨mode, rfl⟩ := hchecked.substate_eq
      show (accrue_substate s.tx_substate r).suicides = []
      have haccrue : accrue_substate s.tx_substate r = s.tx_substate := by
        unfold accrue_substate
        rcases r with _ | r
        · rfl
        · simp only [show r.substate = none from hnone]
      rw [haccrue, htx, suicides_set_touched]
      rfl
    have hw' : w' = w₃ := by
      rw [hsettled.kills, hkills, (HashOrder.iter_perm _).eq_nil]
      rfl
    cases hchecked with
    | @pass frame mode base cost hnonce hcash hpaid hbase hbump hframe =>
      have hsplit := hsettled.fee_refund (by omega)
      rw [hw', hsettled.refund.charged (by rw [hsplit, hpaid, hcost])] at hrep'
      rw [hfee]
      refine ⟨hrep', by omega, hbump, ?_⟩
      rintro _ _ _ rfl
      generalize (s.process_return r).result = result at hconcluded
      cases hconcluded

end TXExecutor

/-! ## Reads -/

/-- From `s` to `s'` the account at `a` has paid the fee and its nonce was counted up, and nothing
    else has changed; if there was no account, there is one now. -/
structure ChargedOnly (account_start_nonce : U256) (a : Address) (fee : U256) (s s' : State) :
    Prop where
  others : ∀ b, b ≠ a → SameReadsAt b s s'
  total_issued_tokens : s.total_issued_tokens = s'.total_issued_tokens
  balance : s'.balances a + fee.toNat = s.balances a
  code : (State.code a).value s = (State.code a).value s'
  found : (State.exists a).value s = .ok (.ok true) → SameContent a s s' ∧
    ∃ nonce, nonce.toNat + 1 < 2 ^ 256 ∧ (State.nonce a).value s = .ok (.ok nonce) ∧
      (State.nonce a).value s' = .ok (.ok (nonce + 1))
  made : (State.exists a).value s = .ok (.ok false) →
    (State.nonce a).value s' = .ok (.ok (account_start_nonce + 1)) ∧
    (State.code_hash a).value s' = .ok (.ok (some KECCAK_EMPTY)) ∧
    ∀ k, (State.storage_at a k).value s' = .ok (.ok (s.db.slots a k))

omit [HashOrder] in
theorem chargedOnly_of_rep {a : Address} {nonce fee : U256} {s s' : State} (hrep : Rep db saved s w)
    (hrep' : Rep db saved s' (w.charged a nonce fee)) (hfee : fee.toNat ≤ w.balances a)
    (hbump : (w.accountOrNew a nonce).nonce.toNat + 1 < 2 ^ 256) :
    ChargedOnly nonce a fee s s' where
  others b hb := sameReadsAt_of_rep hrep hrep' (Ledger.setAccount_of_ne hb _ w)
  total_issued_tokens := by
    rw [State.issued_eq hrep, State.issued_eq hrep']
    rfl
  balance := by
    rw [State.balances_eq hrep, State.balances_eq hrep', Ledger.charged, Ledger.balances_setAccount,
      Function.update_self]
    have hbalance := w.balance_accountOrNew a nonce
    rw [BitVec.toNat_sub_of_le (BitVec.le_def.mpr (by omega))]
    omega
  code := by
    rcases hacc : w.accounts a with _ | v
    · rw [(code_refines a _ _).value_eq hrep, (code_refines a _ _).value_eq hrep']
      have hnew := w.charged_of_none nonce fee hacc
      simp only [Ledger.code, Ledger.account_with_code, Ledger.account, Prog.value, Prog.run_bind,
        Prog.run_gets, hacc, hnew]
      simp [AccountView.basic, Except.map]
    · exact (sameContent_of_rep hrep hrep' (w.charged_of_some hacc) fun _ => ⟨rfl, rfl, rfl⟩).code
  found hex := by
    rw [(exists_refines a _ _).value_eq hrep] at hex
    obtain ⟨v, hacc⟩ : ∃ v, w.accounts a = some v :=
      Option.isSome_iff_exists.mp (Except.ok.inj (Except.ok.inj hex))
    have hnonce : w.nonceOf a = v.nonce := by rw [Ledger.nonceOf, hacc]; rfl
    have hnonce' : (w.charged a nonce fee).nonceOf a = v.nonce + 1 := by
      rw [Ledger.nonceOf, w.charged_of_some hacc, hacc]
      rfl
    refine ⟨sameContent_of_rep hrep hrep' (w.charged_of_some hacc) fun _ => ⟨rfl, rfl, rfl⟩,
      v.nonce, ?_, ?_, ?_⟩
    · rwa [Ledger.accountOrNew, hacc] at hbump
    · rw [(nonce_refines a _ _).value_eq hrep, ← hnonce]
      rfl
    · rw [(nonce_refines a _ _).value_eq hrep', ← hnonce']
      rfl
  made hex := by
    rw [(exists_refines a _ _).value_eq hrep] at hex
    have hsome : (w.accounts a).isSome = false := Except.ok.inj (Except.ok.inj hex)
    have hacc : w.accounts a = none := Option.isNone_iff_eq_none.mp (by simpa using hsome)
    have hnew := w.charged_of_none nonce fee hacc
    refine ⟨?_, ?_, fun k => ?_⟩
    · rw [(nonce_refines a _ _).value_eq hrep']
      show Except.ok (Except.ok ((w.charged a nonce fee).nonceOf a)) = _
      rw [Ledger.nonceOf, hnew]
      rfl
    · rw [(code_hash_refines a _ _).value_eq hrep']
      show Except.ok (Except.ok (((w.charged a nonce fee).accounts a).map AccountView.code_hash)) =
        _
      rw [hnew]
      rfl
    · rw [(storage_at_refines a k _ _).value_eq hrep']
      show Except.ok (Except.ok ((w.charged a nonce fee).storageOf a k)) = _
      rw [Ledger.storageOf, hnew]
      rw [← hrep.ledger_eq]
      rfl

namespace TXExecutor

/-- An unsuccessful transaction changes what the sender has paid, and its nonce. One that is not
    executed changes nothing; one that fails when it is executed, or that cannot be paid, has its
    sender pay the fee that is reported and counts its nonce up. -/
theorem unsuccessful_transaction_is_only_charged (hstate : t.state.Reachable)
    (hcharge : options.check_settings.charge_gas = true) {fuel : ℕ} {outcome : ExecutionOutcome}
    (hrun : (transact g tx fuel options).run t = .ok (.ok (some outcome), t')) :
    (∀ error, outcome = .NotExecutedDrop error → SameReads t.state t'.state) ∧
    (∀ error, outcome = .NotExecutedToReconsiderPacking error → SameReads t.state t'.state) ∧
    ∀ error executed, outcome = .ExecutionErrorBumpNonce error executed →
      ChargedOnly g.spec.account_start_nonce tx.sender executed.fee t.state t'.state ∧
      ∀ required got cost, error = .NotEnoughCash required got cost →
        executed.fee.toNat =
          min (tx.gas.toNat * tx.gas_price.toNat) (t.state.balances tx.sender) := by
  obtain ⟨db, saved, w, hrep⟩ := hstate.rep
  refine ⟨?_, ?_, ?_⟩
  · rintro error rfl
    exact sameReads_of_rep hrep (rep_of_not_executed hrep hrun (by rintro _ _ ⟨⟩) (by rintro _ ⟨⟩))
  · rintro error rfl
    exact sameReads_of_rep hrep (rep_of_not_executed hrep hrun (by rintro _ _ ⟨⟩) (by rintro _ ⟨⟩))
  · rintro error executed rfl
    obtain ⟨hrep', hfee, hbump, hcash⟩ := charged_of_failed hcharge hrep hrun
    refine ⟨chargedOnly_of_rep hrep hrep' hfee hbump, ?_⟩
    rw [State.balances_eq hrep]
    exact hcash

end TXExecutor

end

section
attribute [local instance] keccakOfCreation HashOrder.asListed

/-- A creation that fails has made the account of its sender, which reads as one without code
    then. -/
theorem failed_creation_makes_its_sender :
    ∃ error executed t', (TXExecutor.transact bareMachine brokenCreation 4 tracing).run
        ⟨.new .empty, .new 0⟩ = .ok (.ok (some (.ExecutionErrorBumpNonce error executed)), t') ∧
      (State.code_hash brokenCreation.sender).value (.new .empty) ≠
        (State.code_hash brokenCreation.sender).value t'.state := by
  have hruns : (TXExecutor.transact bareMachine brokenCreation 4 tracing).returns
      ⟨.new .empty, .new 0⟩ (fun outcome t' => ExecutionOutcome.bumped (fun _ =>
        (State.code_hash brokenCreation.sender).returns t'.state fun hash _ =>
          hash.isSome) outcome) =
      true := by decide +kernel
  have hbefore : (State.code_hash brokenCreation.sender).returns (.new .empty)
      (fun hash _ => hash.isNone) = true := by decide +kernel
  obtain ⟨outcome, t', hrun, hbumped⟩ := exists_of_returns hruns
  obtain ⟨error, executed, rfl, hafter⟩ := ExecutionOutcome.exists_of_bumped hbumped
  obtain ⟨hash, s₁, hhash, hnone⟩ := exists_of_returns hbefore
  obtain ⟨hash', s₂, hhash', hsome⟩ := exists_of_returns hafter
  refine ⟨error, executed, t', hrun, fun heq => ?_⟩
  rw [value_eq_ok.mpr ⟨s₁, hhash⟩, value_eq_ok.mpr ⟨s₂, hhash'⟩] at heq
  obtain rfl := Except.ok.inj (Except.ok.inj heq)
  rw [Option.isNone_iff_eq_none.mp hnone] at hsome
  cases hsome

/-- The same creation, at a price. -/
def pricedCreation : Transaction := { brokenCreation with gas_price := 2 }

/-- A state in which the sender of the creation can pay for it. -/
def fundedState : TxState :=
  ⟨.new (StateDb.empty.set_account 7 ⟨1000000, 0, KECCAK_EMPTY⟩), .new 0⟩

/-- The sender of a creation that fails pays for all of its gas. -/
theorem failed_creation_is_only_charged :
    ∃ error executed t', (TXExecutor.transact bareMachine pricedCreation 4 tracing).run
      fundedState =
        .ok (.ok (some (.ExecutionErrorBumpNonce error executed)), t') ∧
      executed.fee = 200000 ∧ ChargedOnly 0 7 200000 fundedState.state t'.state := by
  have hruns : (TXExecutor.transact bareMachine pricedCreation 4 tracing).returns fundedState
      (fun outcome _ => ExecutionOutcome.bumped (fun executed => executed.fee = 200000) outcome) =
      true := by decide +kernel
  obtain ⟨outcome, t', hrun, hbumped⟩ := exists_of_returns hruns
  obtain ⟨error, executed, rfl, htest⟩ := ExecutionOutcome.exists_of_bumped hbumped
  have hfee : executed.fee = 200000 := of_decide_eq_true htest
  have hstate : fundedState.state.Reachable := ⟨_, [], _, rfl⟩
  have hcharged := ((TXExecutor.unsuccessful_transaction_is_only_charged hstate rfl hrun).2.2
    error executed rfl).1
  rw [hfee] at hcharged
  exact ⟨error, executed, t', hrun, hfee, hcharged⟩

end

end CfxEvm
