import CfxEvm.Execution.Proofs.ReplayProofs
import CfxEvm.Frame.Proofs.PlainProofs
import CfxEvm.Frame.Proofs.TokenProofs

/-!
# Proofs: a transaction neither mints nor loses tokens

The charge takes from the sum of the balances what the gas costs, the frames keep it but for what
they burn, the refund gives back what was not used, and what the destroyed contracts still hold is
burnt.
-/

open Lib Lib.Prog

namespace CfxEvm

section
variable {g : Globals} {tx : Transaction} {options : TransactOptions}
  {t t' : TxState} {w w' : Ledger}

/-! ## Burnt tokens -/

/-- What is missing from the balances was burnt, and is no longer counted as issued. -/
structure Ledger.Burns (w w' : Ledger) : Prop where
  total_le : w'.totalBalance ≤ w.totalBalance
  issued_eq : w'.total_issued_tokens.toNat =
    w.total_issued_tokens.toNat - (w.totalBalance - w'.totalBalance)

theorem Ledger.Burns.refl (w : Ledger) : w.Burns w := ⟨le_rfl, by omega⟩

theorem Ledger.Burns.trans {w₁ w₂ w₃ : Ledger} (h : w₁.Burns w₂) (h' : w₂.Burns w₃) :
    w₁.Burns w₃ := by
  have hle := h.total_le
  have hle' := h'.total_le
  have hissued := h.issued_eq
  have hissued' := h'.issued_eq
  exact ⟨by omega, by omega⟩

theorem Ledger.burns_of_sub {v : U256} (htotal : w'.totalBalance + v.toNat = w.totalBalance)
    (hissued : w'.total_issued_tokens = U256.saturating_sub w.total_issued_tokens v) :
    w.Burns w' := by
  have hsub : w'.total_issued_tokens.toNat = w.total_issued_tokens.toNat - v.toNat := by
    rw [hissued, U256.toNat_saturating_sub]
  exact ⟨by omega, by omega⟩

/-- As long as the sum of the balances is a word, tokens are burnt at most. -/
def Ledger.BurnsOnly (w w' : Ledger) : Prop := w.totalBalance < 2 ^ 256 → w.Burns w'

theorem burnsOnly_law : TokenLaw Ledger.BurnsOnly where
  refl w _ := .refl w
  trans h h' hlt := by
    have hburns := h hlt
    exact hburns.trans (h' (hburns.total_le.trans_lt hlt))
  same hle heq hissued hlt := ⟨hle, by rw [hissued, heq hlt, Nat.sub_self, Nat.sub_zero]⟩
  burnt htotal hissued _ := Ledger.burns_of_sub htotal hissued

variable [Keccak]

/-- A destroyed contract is removed, and what it holds is burnt. -/
theorem Ledger.burns_killed (w : Ledger) (a : Address) : w.Burns (w.killed a) := by
  have hset := w.totalBalance_setAccount a .removed
  have hzero : (AccountView.removed.balance).toNat = 0 := rfl
  rw [hzero, Nat.add_zero] at hset
  exact burns_of_sub hset rfl

theorem Ledger.burns_kills (l : List Address) (w : Ledger) : w.Burns (l.foldl killed w) := by
  induction l generalizing w with
  | nil => exact .refl w
  | cons a l ih => exact (w.burns_killed a).trans (ih (w.killed a))

/-! ## The charge and the refund -/

/-- The charge takes the cost from the sum of the balances. -/
theorem Ledger.charged_total {a : Address} (nonce : U256) {cost : U256}
    (hcost : cost.toNat ≤ w.balances a) :
    (w.charged a nonce cost).totalBalance + cost.toNat = w.totalBalance := by
  have hset : (w.charged a nonce cost).totalBalance + w.balances a =
      w.totalBalance + ((w.accountOrNew a nonce).balance - cost).toNat :=
    w.totalBalance_setAccount a _
  have hbalance := w.balance_accountOrNew a nonce
  have hpaid : ((w.accountOrNew a nonce).balance - cost).toNat = w.balances a - cost.toNat := by
    rw [BitVec.toNat_sub_of_le (BitVec.le_def.mpr (by omega)), hbalance]
  have hle := w.balances_le_total a
  rw [hpaid] at hset
  omega

theorem Ledger.charged_issued (w : Ledger) (a : Address) (nonce cost : U256) :
    (w.charged a nonce cost).total_issued_tokens = w.total_issued_tokens := rfl

variable [HashOrder]

namespace TXExecutor

/-- The settlement gives the refund back and burns what the destroyed contracts hold. -/
theorem Settled.tokens {output : FrameStackOutput} {refunded : U256} {executed : Executed}
    {w₁ : Ledger} (h : Settled g tx output w refunded executed w₁ w') :
    w₁.totalBalance = w.totalBalance + (U256.saturating_mul refunded tx.gas_price).toNat ∧
      w₁.total_issued_tokens = w.total_issued_tokens ∧ w₁.Burns w' := by
  refine ⟨h.refund.total, h.refund.issued, ?_⟩
  rw [h.kills]
  exact w₁.burns_kills _

/-! ## Whole transactions -/

omit [HashOrder] in
/-- The top frame is for no internal contract. -/
theorem Prechecked.noInternal {w₁ : Ledger} {frame : CallCreateFrame} {substate : Substate}
    {observer : MultiObservers} {base : ℕ} (hno : g.NoInternalContract)
    (h : Prechecked g tx options w (.Pass frame substate observer base) w₁) :
    (Phase.Enter frame).NoInternal := by
  cases h with
  | pass hnonce hcash hcost hbase hbump hframe =>
    cases hframe with
    | create =>
      intro internal
      simp [CallCreateFrame.new_create_raw]
    | call => exact (plain_new_call hno _ _ _).kind

/-- The frames burn tokens, but make or lose none. -/
theorem FramesRun.burnsOnly {db : StateDb} {saved : List Ledger} {w₁ : Ledger} {t₁ : TxState}
    {substate : Substate} {observer : MultiObservers} {base : ℕ} {frame : CallCreateFrame}
    {s : FrameStack} {r : Except VmError FrameReturn}
    (h : FramesRun g t₁ substate observer base frame s r) (hno : g.NoInternalContract)
    (hpre : Prechecked g tx options w (.Pass frame substate observer base) w₁)
    (hrep : Rep db saved t₁.state w₁)
    (helsewhere : ∀ s₁, Rounds (FrameStack.step g)
      (.new t₁.state t₁.shared_cache substate observer base frame) s₁ → s₁.CreatesElsewhere) :
    ∃ w₂, Rep db saved s.host.state w₂ ∧ w₁.BurnsOnly w₂ := by
  have hlawful : (burnsOnly_law.sites fun _ => True).Lawful g fun s =>
      s.phase.NoInternal ∧ s.CreatesElsewhere := by
    refine burnsOnly_law.sites_lawful (fun hI => hI.2) (fun _ _ => trivial) fun hI hphase => ?_
    have hnone := hI.1
    rw [hphase] at hnone
    exact absurd rfl (hnone _ _)
  obtain ⟨w₂, hrep₂, hburns, -⟩ := h.effect hlawful hpre hrep trivial fun s₁ hs₁ =>
    ⟨FrameStack.noInternal_of_rounds hno (hpre.noInternal hno) hs₁, helsewhere s₁ hs₁⟩
  exact ⟨w₂, hrep₂, hburns⟩

/-- Tokens are conserved. Where no internal contract is active and no contract is created at the
    address of its creator, a transaction that is charged neither mints nor loses tokens: what all
    accounts hold afterwards, together with the fee and with what was burnt, is what they held
    before. -/
theorem tokens_are_conserved (hno : g.NoInternalContract)
    (helsewhere : ∀ s, Executing g tx options t s → s.CreatesElsewhere)
    (hcharge : options.check_settings.charge_gas = true) (hstate : t.state.Reachable)
    (hissued : t.state.totalBalance ≤ t.state.total_issued_tokens.toNat) {fuel : ℕ}
    {outcome : ExecutionOutcome} {executed : Executed}
    (hrun : (transact g tx fuel options).run t = .ok (.ok (some outcome), t'))
    (houtcome : outcome = .Finished executed ∨
      ∃ error, outcome = .ExecutionErrorBumpNonce error executed) :
    t'.state.total_issued_tokens.toNat ≤ t.state.total_issued_tokens.toNat ∧
    t'.state.totalBalance + executed.fee.toNat +
      (t.state.total_issued_tokens.toNat - t'.state.total_issued_tokens.toNat) =
        t.state.totalBalance := by
  obtain ⟨db, saved, w, hrep⟩ := hstate.rep
  have hcost : gasCost tx options = tx.gas.toNat * tx.gas_price.toNat := by
    rw [gasCost, if_pos hcharge]
  have hlt : w.balances tx.sender < 2 ^ 256 := (w.balanceOf tx.sender).isLt
  rw [State.totalBalance_eq hrep, State.issued_eq hrep] at hissued
  rw [State.totalBalance_eq hrep, State.issued_eq hrep]
  rcases transact_inv hrep hrun with ⟨w', hpre, hchecked, hrep'⟩ |
    ⟨frame, substate, observer, base, w₁, t₁, s, r, hpre, hchecked, hrep₁, hexec⟩
  · rw [State.totalBalance_eq hrep', State.issued_eq hrep']
    cases hchecked with
    | old_nonce => rcases houtcome with h | ⟨_, h⟩ <;> cases h
    | base_gas => rcases houtcome with h | ⟨_, h⟩ <;> cases h
    | reconsider => rcases houtcome with h | ⟨_, h⟩ <;> cases h
    | @not_enough_cash cost hnonce hcash hpaid hbump =>
      rcases houtcome with h | ⟨_, h⟩ <;> cases h
      have hfunds : cost.toNat ≤ w.balances tx.sender := by omega
      have htotal := w.charged_total g.spec.account_start_nonce hfunds
      rw [Ledger.charged_issued]
      refine ⟨le_rfl, ?_⟩
      rw [Nat.sub_self, Nat.add_zero]
      exact htotal
  · obtain ⟨w₂, hrep₂, hburns⟩ := hexec.burnsOnly hno hchecked hrep₁ fun s₁ hs₁ =>
      helsewhere s₁ ⟨frame, substate, observer, base, t₁, hpre, hs₁⟩
    obtain ⟨refunded, settled, w₃, w', hrep', hsettled, hconcluded⟩ := hexec.settled hrep₂
    obtain ⟨hrefund, hissued₃, hkills⟩ := hsettled.tokens
    have hfee := hconcluded.fee_eq hsettled houtcome
    rw [State.totalBalance_eq hrep', State.issued_eq hrep', hfee]
    cases hchecked with
    | @pass frame mode base cost hnonce hcash hpaid hbase hbump hframe =>
      have hfunds : cost.toNat ≤ w.balances tx.sender := by omega
      have htotal := w.charged_total g.spec.account_start_nonce hfunds
      have hsplit := hsettled.fee_refund (by omega)
      have hword : w.total_issued_tokens.toNat < 2 ^ 256 := w.total_issued_tokens.isLt
      have hburns := hburns (by omega)
      have hle := hburns.total_le
      have hburnt := hburns.issued_eq
      have hle₃ := hkills.total_le
      have hburnt₃ := hkills.issued_eq
      rw [Ledger.charged_issued] at hburnt
      rw [hissued₃] at hburnt₃
      exact ⟨by omega, by omega⟩

end TXExecutor

end

section
attribute [local instance] keccakOfEmpty HashOrder.asListed

/-- A database with one account, which holds all the tokens. -/
def oneHolder : StateDb :=
  (StateDb.empty.set_account 7 ⟨1000000, 0, KECCAK_EMPTY⟩).set_total_issued_tokens 1000000

theorem oneHolder_total : (State.new oneHolder).totalBalance = 1000000 := by
  have hbalances : (State.new oneHolder).balances = Function.update (fun _ => 0) 7 1000000 := by
    funext a
    rw [State.balances_eq (rep_new oneHolder)]
    by_cases ha : a = 7
    · subst ha
      rw [Function.update_self]
      decide +kernel
    · have hnone : oneHolder.accounts a = none := Function.update_of_ne ha _ _
      have hview : (State.new oneHolder).snapshots.cur.accounts a = none := by
        show (oneHolder.accounts a).map _ = none
        rw [hnone]
        rfl
      rw [Function.update_of_ne ha]
      unfold Ledger.balances Ledger.balanceOf
      rw [hview]
      rfl
  unfold State.totalBalance
  rw [hbalances, Finset.sum_update_of_mem (Finset.mem_univ _)]
  simp

/-- A transaction that sends tokens, at a price. -/
def pricedTransfer : Transaction where
  sender := 7
  nonce := 0
  gas := 21000
  gas_price := 2
  data := []
  action := .Call 9
  value := 5

/-- After a transfer the fee is missing, and nothing was burnt. -/
theorem transfer_costs_its_fee :
    ∃ executed t', (TXExecutor.transact bareMachine pricedTransfer 3 untraced).run
        ⟨.new oneHolder, .new 0⟩ = .ok (.ok (some (.Finished executed)), t') ∧
      t'.state.total_issued_tokens = 1000000 ∧ t'.state.totalBalance = 958000 := by
  have hruns : (TXExecutor.transact bareMachine pricedTransfer 3 untraced).returns
      ⟨.new oneHolder, .new 0⟩ (fun outcome t' => ExecutionOutcome.finished (fun executed =>
        executed.fee = 42000 ∧ t'.state.total_issued_tokens = 1000000) outcome) = true := by
    decide +kernel
  obtain ⟨outcome, t', hrun, hfinished⟩ := exists_of_returns hruns
  obtain ⟨executed, rfl, htest⟩ := ExecutionOutcome.exists_of_finished hfinished
  obtain ⟨hfee, hissued⟩ := of_decide_eq_true htest
  refine ⟨executed, t', hrun, hissued, ?_⟩
  have helsewhere : ∀ s, TXExecutor.Executing bareMachine pricedTransfer untraced
      ⟨.new oneHolder, .new 0⟩ s → s.CreatesElsewhere := by
    intro s hs frame params hphase hstatus hcreate
    have hrep : Rep oneHolder [] (State.new oneHolder) (State.new oneHolder).ledger :=
      rep_new oneHolder
    obtain ⟨-, hphases⟩ := hs.transferring hrep rfl rfl rfl fun _ _ => rfl
    simp [hphase, hcreate] at hphases
  have htotal := (@TXExecutor.tokens_are_conserved bareMachine pricedTransfer untraced
    ⟨.new oneHolder, .new 0⟩ t' _ _ (fun _ => rfl) helsewhere rfl ⟨oneHolder, [], _, rfl⟩
    (by rw [oneHolder_total]; decide +kernel) 3 _ executed hrun (.inl rfl)).2
  rw [oneHolder_total, hfee, hissued] at htotal
  have hbefore : (State.new oneHolder).total_issued_tokens = 1000000 := by decide +kernel
  simp only [hbefore] at htotal
  simpa using htotal

end

end CfxEvm
