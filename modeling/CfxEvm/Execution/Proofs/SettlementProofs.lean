import CfxEvm.Execution.Proofs.ArithmeticProofs
import CfxEvm.Execution.Proofs.GasConservationProofs
import CfxEvm.Execution.Proofs.TokenConservationProofs

/-!
# Proofs: the settlement of a transaction

What is left of the gas is refunded, but for at most a quarter of the limit. Fee and refund together
are what was charged for the gas in the beginning; whether it was charged is not asked again.
-/

open Lib Lib.Prog

namespace CfxEvm

section
variable [Keccak] {g : Globals} {tx : Transaction} {options : TransactOptions} {w w' : Ledger}
  {t t₁ t₂ : TxState} {a : Address}

/-! ## Balances -/

namespace Ledger

theorem balances_charged (nonce : U256) {cost : U256} (hcost : cost.toNat ≤ w.balances a) :
    (w.charged a nonce cost).balances =
      Function.update w.balances a (w.balances a - cost.toNat) := by
  have hbalance := w.balance_accountOrNew a nonce
  have hpaid : ((w.accountOrNew a nonce).balance - cost).toNat = w.balances a - cost.toNat := by
    rw [BitVec.toNat_sub_of_le (BitVec.le_def.mpr (by omega)), hbalance]
  unfold charged
  rw [balances_setAccount, hpaid]

theorem balances_killed (w : Ledger) (a : Address) :
    (w.killed a).balances = Function.update w.balances a 0 :=
  balances_setAccount w a .removed

/-- The destroyed contracts hold nothing any more, and the others what they held. -/
theorem balances_kills (l : List Address) (w : Ledger) (a : Address) :
    (l.foldl killed w).balances a = if a ∈ l then 0 else w.balances a := by
  induction l generalizing w with
  | nil => simp
  | cons b l ih =>
    rw [List.foldl_cons, ih, balances_killed]
    by_cases hl : a ∈ l
    · rw [if_pos hl, if_pos (List.mem_cons_of_mem b hl)]
    · rw [if_neg hl]
      by_cases hb : a = b
      · subst hb
        rw [Function.update_self, if_pos List.mem_cons_self]
      · rw [Function.update_of_ne hb, if_neg]
        rw [List.mem_cons, not_or]
        exact ⟨hb, hl⟩

end Ledger

/-! ## What is charged -/

/-- An exact settlement of a transaction that leaves `left` of its gas. -/
structure ExactSettlement (tx : Transaction) (left used charged fee refund : ℕ) : Prop where
  used_eq : used + left = tx.gas.toNat
  charged_eq : charged = max used (tx.gas.toNat - tx.gas.toNat / 4)
  fee_eq : fee = charged * tx.gas_price.toNat
  whole : fee + refund = tx.gas.toNat * tx.gas_price.toNat
  refund_le : refund ≤ left * tx.gas_price.toNat

omit [Keccak] in
/-- At most what is left is refunded, and at most a quarter of the limit: the two branches of the
    settlement meet where a quarter is left. -/
theorem gasRefunded_eq {gas_left : U256} (hle : gas_left.toNat ≤ tx.gas.toNat) :
    gasRefunded tx gas_left = min gas_left.toNat (tx.gas.toNat / 4) := by
  unfold gasRefunded
  split
  · rename_i hquarter
    rw [min_eq_right]
    omega
  · rename_i hquarter
    rw [min_eq_left]
    omega

omit [Keccak] in
/-- What saturating products give where the whole product is a word. -/
theorem exactSettlement_of_split {gas_left used charged refunded : U256}
    (hused : used.toNat + gas_left.toNat = tx.gas.toNat)
    (hcharged : charged.toNat + refunded.toNat = tx.gas.toNat)
    (hrefunded : refunded.toNat = gasRefunded tx gas_left)
    (hcost : tx.gas.toNat * tx.gas_price.toNat < 2 ^ 256) :
    ExactSettlement tx gas_left.toNat used.toNat charged.toNat
      (U256.saturating_mul charged tx.gas_price).toNat
      (U256.saturating_mul refunded tx.gas_price).toNat := by
  rw [gasRefunded_eq (by omega)] at hrefunded
  have hsplit : charged.toNat * tx.gas_price.toNat + refunded.toNat * tx.gas_price.toNat =
      tx.gas.toNat * tx.gas_price.toNat := by rw [← Nat.add_mul, hcharged]
  have hfee : (U256.saturating_mul charged tx.gas_price).toNat =
      charged.toNat * tx.gas_price.toNat := by
    rw [U256.toNat_saturating_mul]
    omega
  have hrefund : (U256.saturating_mul refunded tx.gas_price).toNat =
      refunded.toNat * tx.gas_price.toNat := by
    rw [U256.toNat_saturating_mul]
    omega
  refine ⟨hused, by omega, hfee, by omega, ?_⟩
  rw [hrefund]
  exact Nat.mul_le_mul_right _ (by omega)

namespace TXExecutor

omit [Keccak] in
/-- The settlement of a limit below a quarter of the words returns. -/
theorem settle_returns {gas_left : U256} (hgas : tx.gas.toNat < 2 ^ 254)
    (hle : gas_left.toNat ≤ tx.gas.toNat) (t : TxState) :
    ∃ used charged refunded : U256, (settle tx gas_left).run t = .ok (.ok (used, charged,
        U256.saturating_mul charged tx.gas_price, U256.saturating_mul refunded tx.gas_price), t) ∧
      used.toNat + gas_left.toNat = tx.gas.toNat ∧ charged.toNat + refunded.toNat = tx.gas.toNat ∧
      refunded.toNat = gasRefunded tx gas_left := by
  obtain ⟨r, t', hrun, rfl, -, ⟨used, charged, fee, refund⟩, rfl, -⟩ := exists_run_of_wp
    (wp_mono (settle_panics (t := t) hle) (fun _ h => absurd h (by omega)) fun _ _ h => h)
  obtain ⟨refunded, hused, hcharged, hrefunded, hfee, hrefund⟩ :=
    wp_of_run (settle_yields gas_left _) hrun _ rfl
  simp only at hused hcharged hfee hrefund
  subst hfee hrefund
  exact ⟨used, charged, refunded, hrun, hused, hcharged, hrefunded⟩

/-- Every outcome reports what was settled, also the one of a failure, which is made from the limit
    alone. -/
theorem Concluded.reports [HashOrder] {output : FrameStackOutput} {refunded : U256}
    {executed : Executed} {w₁ : Ledger} {outcome : ExecutionOutcome}
    (h : Concluded tx executed output.result outcome)
    (hsettled : Settled g tx output w refunded executed w₁ w') :
    ∃ executed', Concluded tx executed' output.result outcome ∧
      (outcome = .Finished executed' ∨ ∃ error,
        outcome = .ExecutionErrorBumpNonce error executed') ∧
      executed'.gas_used = executed.gas_used ∧ executed'.gas_charged = executed.gas_charged ∧
      executed'.fee = executed.fee := by
  generalize hresult : output.result = result at h
  cases h with
  | failed exception =>
    have hleft : gas_left output.result = 0 := by rw [hresult]; rfl
    have hused := hsettled.used
    have hgas := hsettled.gas
    rw [hsettled.nothing_left hleft] at hgas
    rw [hleft] at hused
    refine ⟨.execution_error_fully_charged tx executed.trace, .failed exception, .inr ⟨_, rfl⟩,
      ?_, ?_, ?_⟩
    · exact BitVec.eq_of_toNat_eq hused.symm
    · exact BitVec.eq_of_toNat_eq hgas.symm
    · exact (hsettled.fully_charged hleft).symm
  | applied happly => exact ⟨executed, .applied happly, .inl rfl, rfl, rfl, rfl⟩
  | reverted happly => exact ⟨executed, .reverted happly, .inr ⟨_, rfl⟩, rfl, rfl, rfl⟩

variable [HashOrder]

/-- The refund goes to the sender, and the destroyed contracts are left with nothing. -/
theorem Settled.balances {output : FrameStackOutput} {refunded : U256} {executed : Executed}
    {w₁ : Ledger} (h : Settled g tx output w refunded executed w₁ w') (a : Address) :
    w'.balances a = if a ∈ output.substate.suicides then 0 else
      w.balances a + if a = tx.sender then (U256.saturating_mul refunded tx.gas_price).toNat
        else 0 := by
  rw [h.kills, Ledger.balances_kills, h.refund.balances]
  refine if_congr (HashOrder.iter_perm _).mem_iff rfl ?_
  by_cases ha : a = tx.sender
  · subst ha
    rw [Function.update_self, if_pos rfl]
  · rw [Function.update_of_ne ha, if_neg ha, Nat.add_zero]

/-- Fee settlement is exact. A transaction that passes the checks is charged for all its gas;
    whatever its frames come to, the settlement returns, what is charged is at least three quarters
    of the limit, fee and refund together are what was charged in the beginning, and every outcome
    reports the fee that the sender paid. -/
theorem settlement_is_exact (hgas : tx.gas.toNat < 2 ^ 254)
    (hcharge : options.check_settings.charge_gas = true) (hstate : t.state.Reachable)
    {frame : CallCreateFrame} {substate : Substate} {observer : MultiObservers} {base : ℕ}
    (hpre : (transact_preprocessing g tx options).run t =
      .ok (.ok (.Pass frame substate observer base), t₁))
    {output : FrameStackOutput} (hleft : (gas_left output.result).toNat + base ≤ tx.gas.toNat)
    (hstate₂ : t₂.state.Reachable) :
    ∃ used charged fee refund : U256,
      (settle tx (gas_left output.result)).run t₂ = .ok (.ok (used, charged, fee, refund), t₂) ∧
      ExactSettlement tx (gas_left output.result).toNat used.toNat charged.toNat fee.toNat
        refund.toNat ∧
      (∀ a, t₁.state.balances a + (if a = tx.sender then fee.toNat + refund.toNat else 0) =
        t.state.balances a) ∧
      ∀ r t₃, (transact_postprocessing g tx output).run t₂ = .ok (r, t₃) →
        (∀ a, t₃.state.balances a = if a ∈ output.substate.suicides then 0 else
          t₂.state.balances a + if a = tx.sender then refund.toNat else 0) ∧
        (∀ e, r = .error e → output.result = .error (.StateDbError e)) ∧
        ∀ outcome, r = .ok outcome → ∃ executed, Concluded tx executed output.result outcome ∧
          (outcome = .Finished executed ∨ ∃ error,
            outcome = .ExecutionErrorBumpNonce error executed) ∧
          executed.gas_used = used ∧ executed.gas_charged = charged ∧ executed.fee = fee := by
  obtain ⟨db, saved, w, hrep⟩ := hstate.rep
  obtain ⟨db₂, saved₂, w₂, hrep₂⟩ := hstate₂.rep
  obtain ⟨w₁, hrep₁, hchecked, -⟩ := wp_of_run (transact_preprocessing_spec hrep) hpre
  obtain ⟨used, charged, refunded, hsettle, hused, hcharged, hrefunded⟩ :=
    settle_returns hgas (by omega : (gas_left output.result).toNat ≤ tx.gas.toNat) t₂
  have hgasCost : gasCost tx options = tx.gas.toNat * tx.gas_price.toNat := by
    rw [gasCost, if_pos hcharge]
  cases hchecked _ rfl with
  | @pass _ mode _ cost hnonce hcash hcost hbase hbump hframe =>
  have hword : w.balances tx.sender < 2 ^ 256 := (w.balanceOf tx.sender).isLt
  have hexact := exactSettlement_of_split hused hcharged hrefunded (by omega)
  refine ⟨used, charged, _, _, hsettle, hexact, ?_, ?_⟩
  · intro a
    rw [State.balances_eq hrep₁, State.balances_eq hrep, hexact.whole,
      Ledger.balances_charged _ (by omega)]
    by_cases ha : a = tx.sender
    · subst ha
      rw [Function.update_self, if_pos rfl]
      omega
    · rw [Function.update_of_ne ha, if_neg ha, Nat.add_zero]
  · intro r t₃ hpost
    obtain ⟨refunded', executed, w₃, w', hrep', hsettled, hok, herr⟩ :=
      wp_of_run (transact_postprocessing_spec output hrep₂) hpost
    have hsame : refunded' = refunded := by
      refine BitVec.eq_of_toNat_eq ?_
      rw [hsettled.refunded_eq, hrefunded]
    subst hsame
    refine ⟨?_, herr, ?_⟩
    · intro a
      rw [State.balances_eq hrep', State.balances_eq hrep₂]
      exact hsettled.balances a
    · intro outcome houtcome
      obtain ⟨executed', hconcluded, hshape, hused', hcharged', hfee'⟩ :=
        (hok outcome houtcome).reports hsettled
      have hsused := hsettled.used
      have hsgas := hsettled.gas
      have heq : executed.gas_charged = charged := BitVec.eq_of_toNat_eq (by omega)
      refine ⟨executed', hconcluded, hshape, ?_, ?_, ?_⟩
      · rw [hused']
        exact BitVec.eq_of_toNat_eq (by omega)
      · rw [hcharged', heq]
      · rw [hfee', hsettled.fee, heq]

/-! ## Gas that was not charged -/

omit [HashOrder] in
/-- The base gas is a 64-bit number. -/
theorem base_gas_fits (options : TransactOptions) :
    Yields (fun pre => ∀ frame substate observer base, pre = .Pass frame substate observer base →
        base < 2 ^ 64) (transact_preprocessing g tx options) := by
  refine .seq fun nonce => .ite (fun _ => .pure (by simp)) fun _ => .ite (fun _ => .pure (by simp))
    fun _ => .bind (P := fun base => base < 2 ^ 64) (.expect fun base hbase => ?_) fun base hbase =>
    .ite (fun _ => .seq fun _ => .pure (by simp)) fun _ => .seq fun balance =>
    .seq fun total_cost =>
    .ite (fun _ => ?_) fun _ => ?_
  · rw [gas_required_for_eq, Option.ite_none_right_eq_some, Option.some_inj] at hbase
    exact hbase.2 ▸ hbase.1
  · exact .seq fun _ => .seq fun _ => .ite (fun _ => .pure (by simp)) fun _ => .seq fun _ =>
      .seq fun _ => .pure (by simp)
  · refine .seq fun _ => .seq fun _ => .seq fun _ => .seq fun _ => .seq fun frame => .pure ?_
    rintro _ _ _ _ ⟨⟩
    exact hbase

theorem base_gas_of_rounds {s s' : FrameStack} (h : Rounds (FrameStack.step g) s s') :
    s'.base_gas_required = s.base_gas_required := by
  induction h with
  | refl => rfl
  | tail _ hnext ih =>
    cases round_of_next hnext <;> exact ih

/-- What the run of a transaction comes to after its frames. -/
theorem run_transact {fuel : ℕ} {frame : CallCreateFrame} {substate : Substate}
    {observer : MultiObservers} {base : ℕ} {output : FrameStackOutput} {t₃ : TxState}
    (hpre : (transact_preprocessing g tx options).run t =
      .ok (.ok (.Pass frame substate observer base), t₁))
    (hframes : (run_frames g fuel substate observer base frame).run t₁ =
      .ok (.ok (some output), t₂)) :
    (∃ r, (transact g tx fuel options).run t = .ok (r, t₃)) ↔
      ∃ r, (transact_postprocessing g tx output).run t₂ = .ok (r, t₃) := by
  unfold transact
  simp only [run_bind, hpre, hframes]
  rcases (transact_postprocessing g tx output).run t₂ with p | ⟨e | outcome, t'⟩ <;> simp

omit [HashOrder] in
/-- Without a charge the checks leave all balances alone. -/
theorem Prechecked.uncharged {pre : PreCheckResult} (h : Prechecked g tx options w pre w')
    (hcharge : options.check_settings.charge_gas = false) :
    w'.balances = w.balances ∧ w'.total_issued_tokens = w.total_issued_tokens := by
  have hfree : gasCost tx options = 0 := by
    rw [gasCost, hcharge]
    rfl
  have hcharged : ∀ {cost : U256}, cost.toNat = 0 →
      (w.charged tx.sender g.spec.account_start_nonce cost).balances = w.balances := by
    intro cost hzero
    rw [Ledger.balances_charged _ (by omega), hzero, Nat.sub_zero, Function.update_eq_self]
  cases h with
  | old_nonce => exact ⟨rfl, rfl⟩
  | base_gas => exact ⟨rfl, rfl⟩
  | reconsider => exact ⟨rfl, rfl⟩
  | not_enough_cash hnonce hcash hcost hbump => exact ⟨hcharged (by omega), rfl⟩
  | pass hnonce hcash hcost hbase hbump hframe => exact ⟨hcharged (by omega), rfl⟩

/-- The settlement returns only if the bytes of the result can be read. -/
theorem readable_of_run {output : FrameStackOutput} {r : Except DbError ExecutionOutcome}
    (hrun : (transact_postprocessing g tx output).run t = .ok (r, t₁)) :
    ∀ res, output.result = .ok res → res.return_data.deref.isSome := by
  intro res hres
  rcases hdata : res.return_data.deref with _ | bytes
  · have hpanics : (output_bytes output.result).run t = .error .memory_out_of_range := by
      unfold output_bytes
      rw [hres]
      simp only [hdata]
      rfl
    unfold transact_postprocessing at hrun
    rw [run_bind, hpanics] at hrun
    cases hrun
  · rfl

/-- What is left when the destroyed contracts are gone with what they hold. -/
theorem Settled.kept {output : FrameStackOutput} {refunded : U256} {executed : Executed}
    {w₁ : Ledger} (h : Settled g tx output w refunded executed w₁ w') :
    w'.totalBalance = (∑ a, if a ∈ output.substate.suicides then 0 else w.balances a) +
      if tx.sender ∈ output.substate.suicides then 0 else
        (U256.saturating_mul refunded tx.gas_price).toNat := by
  have hsplit : ∀ a, w'.balances a =
      (if a ∈ output.substate.suicides then 0 else w.balances a) +
        if a = tx.sender then if tx.sender ∈ output.substate.suicides then 0 else
          (U256.saturating_mul refunded tx.gas_price).toNat else 0 := by
    intro a
    rw [h.balances a]
    by_cases ha : a = tx.sender
    · subst ha
      rw [if_pos rfl, if_pos rfl]
      split <;> simp
    · rw [if_neg ha, if_neg ha, Nat.add_zero, Nat.add_zero]
  unfold Ledger.totalBalance
  rw [Finset.sum_congr rfl fun a _ => hsplit a, Finset.sum_add_distrib, Finset.sum_ite_eq' _ _ _,
    if_pos (Finset.mem_univ _)]

/-- A refund that nobody paid for keeps the sum of the balances, together with what is no longer
    issued, and the balance of the sender just if there is none, or if it is burnt again uncounted:
    with the sender, when all that was issued is burnt. -/
theorem Settled.keeps_iff {before : Ledger} {output : FrameStackOutput} {refunded : U256}
    {executed : Executed} {w₁ : Ledger} (hburns : before.Burns w)
    (h : Settled g tx output w refunded executed w₁ w') {burnt : ℕ}
    (hburnt : burnt = before.totalBalance -
      ∑ a, if a ∈ output.substate.suicides then 0 else w.balances a) :
    (w'.totalBalance +
        (before.total_issued_tokens.toNat - w'.total_issued_tokens.toNat) = before.totalBalance ∧
      w'.balances tx.sender =
        if tx.sender ∈ output.substate.suicides then 0 else w.balances tx.sender) ↔
    burnt ≤ before.total_issued_tokens.toNat ∧
      ((U256.saturating_mul refunded tx.gas_price).toNat = 0 ∨
        tx.sender ∈ output.substate.suicides ∧ burnt = before.total_issued_tokens.toNat) := by
  obtain ⟨hrefund, hissued, hkills⟩ := h.tokens
  have hle := hburns.total_le
  have hissued₂ := hburns.issued_eq
  have hle₃ := hkills.total_le
  have hissued₃ := hkills.issued_eq
  rw [hissued] at hissued₃
  have hkept := h.kept
  have hkept_le : (∑ a, if a ∈ output.substate.suicides then 0 else w.balances a) ≤
      w.totalBalance := by
    refine Finset.sum_le_sum fun a _ => ?_
    split
    · exact Nat.zero_le _
    · exact le_rfl
  rw [h.balances tx.sender, if_pos rfl]
  by_cases hsender : tx.sender ∈ output.substate.suicides
  · rw [if_pos hsender] at hkept
    simp only [hsender, if_true, true_and, and_true]
    omega
  · rw [if_neg hsender] at hkept
    simp only [hsender, if_false, false_and, or_false]
    omega

/-- A transaction that is not charged for its gas, where no internal contract is active. -/
structure Uncharged (g : Globals) (tx : Transaction) (options : TransactOptions) (t : TxState) :
    Prop where
  charge_gas : options.check_settings.charge_gas = false
  gas : tx.gas.toNat < 2 ^ 254
  state : t.state.Reachable
  total : t.state.totalBalance < 2 ^ 256
  no_internal : g.NoInternalContract

/-- What the frames burn, and what goes down with the contracts that they destroy. -/
noncomputable def burnt (before after : State) (suicides : List Address) : ℕ :=
  before.totalBalance - ∑ a, if suicides.contains a then 0 else after.balances a

/-- Nothing is refunded: the gas is free, all of it is used up, or a quarter of it is no gas. -/
def NothingToRefund (tx : Transaction) (gas_left : U256) : Prop :=
  tx.gas_price = 0 ∨ gas_left = 0 ∨ tx.gas.toNat < 4

/-- The settlement of frames that led from one state to another mints nothing, if the gas was not
    charged: no more is burnt than was issued, and there is nothing to refund, or the refund goes
    down with the sender when all that was issued is burnt. -/
structure MintsNothing (tx : Transaction) (before after : State) (output : FrameStackOutput) :
    Prop where
  readable : ∀ res, output.result = .ok res → res.return_data.deref.isSome
  estimate : ∀ m, output.observer.gas_man = some m → m.gas_limit.toNat * 7 < 2 ^ 256 ∧
    m.gas_limit.toNat * 7 / 6 + output.base_gas_required < 2 ^ 256
  issued : burnt before after output.substate.suicides ≤ before.total_issued_tokens.toNat
  refund : NothingToRefund tx (gas_left output.result) ∨
    tx.sender ∈ output.substate.suicides ∧
      burnt before after output.substate.suicides = before.total_issued_tokens.toNat ∧
      after.balances tx.sender + refundValue tx (gas_left output.result) < 2 ^ 256

omit [Keccak] [HashOrder] in
/-- The refund is worth nothing just if nothing is refunded. -/
theorem refundValue_eq_zero_iff {gas_left : U256} (hle : gas_left.toNat ≤ tx.gas.toNat) :
    refundValue tx gas_left = 0 ↔ NothingToRefund tx gas_left := by
  have hzero : ∀ {x : U256}, x = 0 ↔ x.toNat = 0 := fun {x} => BitVec.toNat_eq
  have hmin : ∀ n, min n (2 ^ 256 - 1) = 0 ↔ n = 0 := fun n => by omega
  rw [refundValue, NothingToRefund, hmin, Nat.mul_eq_zero, gasRefunded_eq hle, hzero, hzero]
  omega

/-- What a settlement without a charge comes to, once it has returned. -/
theorem postprocessing_keeps_iff {before : State} {output : FrameStackOutput} {w₁ : Ledger}
    {r : Except DbError ExecutionOutcome}
    (hpost : (transact_postprocessing g tx output).run t = .ok (r, t₁))
    (hrep : Rep db saved t.state w) (hburns : w₁.Burns w)
    (htotal : before.totalBalance = w₁.totalBalance)
    (hissued : before.total_issued_tokens = w₁.total_issued_tokens) :
    (t₁.state.totalBalance +
          (before.total_issued_tokens.toNat - t₁.state.total_issued_tokens.toNat) =
        before.totalBalance ∧
      t₁.state.balances tx.sender =
        if tx.sender ∈ output.substate.suicides then 0 else t.state.balances tx.sender) ↔
    burnt before t.state output.substate.suicides ≤ before.total_issued_tokens.toNat ∧
      (refundValue tx (gas_left output.result) = 0 ∨
        tx.sender ∈ output.substate.suicides ∧
          burnt before t.state output.substate.suicides = before.total_issued_tokens.toNat) := by
  obtain ⟨refunded, executed, w₂, w', hrep', hsettled, -⟩ :=
    wp_of_run (transact_postprocessing_spec _ hrep) hpost
  have hvalue : refundValue tx (gas_left output.result) =
      (U256.saturating_mul refunded tx.gas_price).toNat := by
    rw [U256.toNat_saturating_mul, refundValue, hsettled.refunded_eq]
  rw [hvalue, htotal, hissued, State.totalBalance_eq hrep', State.issued_eq hrep',
    State.balances_eq hrep', State.balances_eq hrep]
  refine hsettled.keeps_iff hburns ?_
  rw [burnt, htotal, State.balances_eq hrep]
  simp only [List.contains_iff_mem]

/-- Gas that was not charged is not refunded just if there is none to refund. The checks return if
    the base gas fits, and leave all balances alone. If the transaction passes them, and its frames
    create no contract at the address of its creator, then after its frames the run ends without a
    panic, with no tokens minted or lost and with what the frames left to the sender, just if the
    settlement mints nothing. -/
theorem uncharged_gas_is_kept_iff (hspec : g.spec.GenesisConstants) (h : Uncharged g tx options t)
    (helsewhere : ∀ s, Executing g tx options t s → s.CreatesElsewhere) :
    (tx.nonce.toNat < 2 ^ 256 - 1 →
      ((∃ r t', (transact_preprocessing g tx options).run t = .ok (r, t')) ↔
        BaseGasFits g tx t.state.ledger)) ∧
    (∀ pre t', (transact_preprocessing g tx options).run t = .ok (.ok pre, t') →
      (∀ a, t'.state.balances a = t.state.balances a) ∧
        t'.state.total_issued_tokens = t.state.total_issued_tokens) ∧
    ∀ fuel frame substate observer base t₁ output t₂,
      (transact_preprocessing g tx options).run t =
        .ok (.ok (.Pass frame substate observer base), t₁) →
      (run_frames g fuel substate observer base frame).run t₁ = .ok (.ok (some output), t₂) →
      ((∃ r t₃, (transact g tx fuel options).run t = .ok (r, t₃) ∧
          t₃.state.totalBalance +
            (t.state.total_issued_tokens.toNat - t₃.state.total_issued_tokens.toNat) =
              t.state.totalBalance ∧
          t₃.state.balances tx.sender = if tx.sender ∈ output.substate.suicides then 0 else
            t₂.state.balances tx.sender) ↔
        MintsNothing tx t.state t₂.state output) := by
  obtain ⟨hcharge, hgas, hstate, htotal, hno⟩ := h
  obtain ⟨db, saved, w, hrep⟩ := hstate.rep
  have hchecks : ∀ pre t', (transact_preprocessing g tx options).run t = .ok (.ok pre, t') →
      ∃ w', Rep db saved t'.state w' ∧ Prechecked g tx options w pre w' := by
    intro pre t' hpre
    obtain ⟨w', hrep', hchecked, -⟩ := wp_of_run (transact_preprocessing_spec hrep) hpre
    exact ⟨w', hrep', hchecked _ rfl⟩
  refine ⟨fun hnonce => ?_, ?_, ?_⟩
  · rw [hrep.ledger_eq]
    exact completes_iff_of_wp (transact_preprocessing_panics options hspec hnonce hrep)
  · intro pre t' hpre
    obtain ⟨w', hrep', hchecked⟩ := hchecks pre t' hpre
    obtain ⟨hbalances, hissued⟩ := hchecked.uncharged hcharge
    rw [State.balances_eq hrep', State.balances_eq hrep, State.issued_eq hrep',
      State.issued_eq hrep, hbalances, hissued]
    exact ⟨fun _ => rfl, rfl⟩
  intro fuel frame substate observer base t₁ output t₂ hpre hframes
  obtain ⟨w₁, hrep₁, hchecked⟩ := hchecks _ _ hpre
  have hleft : (gas_left output.result).toNat ≤ tx.gas.toNat :=
    (run_frames_gas hspec hframes).trans ((top_frame_gas options).of_run hpre _ _ _ _ rfl)
  have hbase := (base_gas_fits options).of_run hpre _ _ _ _ rfl
  obtain ⟨s, r, hran, rfl, rfl⟩ := framesRun_of_run hframes
  rw [← show (s.process_return r).base_gas_required = base
    from base_gas_of_rounds hran.rounds] at hbase
  obtain ⟨w₂, hrep₂, hburns⟩ := hran.burnsOnly hno hchecked hrep₁ fun s₁ hs₁ =>
    helsewhere s₁ ⟨frame, substate, observer, base, t₁, hpre, hs₁⟩
  obtain ⟨hbalances₁, hissued₁⟩ := hchecked.uncharged hcharge
  have htotal₁ : t.state.totalBalance = w₁.totalBalance := by
    rw [State.totalBalance_eq hrep, Ledger.totalBalance_of_balances hbalances₁]
  rw [← State.issued_eq hrep] at hissued₁
  have hnothing := refundValue_eq_zero_iff hleft
  have hburns := hburns (by omega)
  have hcompletes := fun hdata => completes_iff_of_wp
    (transact_postprocessing_panics (g := g) (t := ⟨s.host.state, s.host.shared_cache⟩)
      hbase hleft hdata hrep₂)
  constructor
  · rintro ⟨r', t₃, hrun, hkept⟩
    obtain ⟨r'', hpost⟩ := (run_transact hpre hframes).mp ⟨r', hrun⟩
    have hreadable := readable_of_run hpost
    have hfits := (hcompletes hreadable).mp ⟨r'', t₃, hpost⟩
    obtain ⟨hissued, hrefund⟩ :=
      (postprocessing_keeps_iff hpost hrep₂ hburns htotal₁ hissued₁.symm).mp hkept
    refine ⟨hreadable, hfits.estimate, hissued, ?_⟩
    rw [State.balances_eq hrep₂]
    exact hrefund.imp hnothing.mp fun h => ⟨h.1, h.2, hfits.refund⟩
  · rintro ⟨hreadable, hestimate, hissued, hrefund⟩
    rw [State.balances_eq hrep₂] at hrefund
    have hfits : SettlementFits tx (s.process_return r) (w₂.balances tx.sender) := by
      refine ⟨hestimate, by omega, ?_⟩
      rcases hrefund with hnone | ⟨-, -, hfits⟩
      · rw [hnothing.mpr hnone, Nat.add_zero]
        exact (w₂.balanceOf tx.sender).isLt
      · exact hfits
    obtain ⟨r₃, t₃, hpost⟩ := (hcompletes hreadable).mpr hfits
    obtain ⟨r', hrun⟩ := (run_transact hpre hframes).mpr ⟨r₃, hpost⟩
    refine ⟨r', t₃, hrun,
      (postprocessing_keeps_iff hpost hrep₂ hburns htotal₁ hissued₁.symm).mpr ⟨hissued, ?_⟩⟩
    exact hrefund.imp hnothing.mpr fun h => ⟨h.1, h.2.1⟩

end TXExecutor

end

section
attribute [local instance] keccakOfEmpty HashOrder.asListed

/-- The transfer with a choice of gas. -/
def pricedTransferOf (gas : U256) : Transaction := { pricedTransfer with gas := gas }

def richState : TxState := ⟨.new oneHolder, .new 0⟩

theorem richState_reachable : richState.state.Reachable := ⟨oneHolder, [], _, rfl⟩

/-- Of 30000 gas 9000 are left and 7500 refunded. -/
theorem three_quarters_are_charged :
    ∃ used charged fee refund : U256,
      (TXExecutor.settle (pricedTransferOf 30000) 9000).run richState =
        .ok (.ok (used, charged, fee, refund), richState) ∧
      used.toNat = 21000 ∧ charged.toNat = 22500 ∧ fee.toNat = 45000 ∧ refund.toNat = 15000 := by
  have hruns : (TXExecutor.transact_preprocessing bareMachine (pricedTransferOf 30000)
      untraced).returns richState (fun result _ => result.passes fun _ _ _ base => base = 21000) =
      true := by decide +kernel
  obtain ⟨result, t₁, hpre, hpasses⟩ := exists_of_returns hruns
  obtain ⟨frame, substate, observer, base, rfl, hbase⟩ := PreCheckResult.exists_of_passes hpasses
  obtain rfl := of_decide_eq_true hbase
  have hleaves : (TXExecutor.gas_left (leavesGas 9000).result).toNat + 21000 ≤
      (pricedTransferOf 30000).gas.toNat := by decide
  obtain ⟨used, charged, fee, refund, hsettle, hexact, -⟩ := TXExecutor.settlement_is_exact
    (by decide) rfl richState_reachable hpre hleaves richState_reachable
  have hused := hexact.used_eq
  have hcharged := hexact.charged_eq
  have hfee := hexact.fee_eq
  have hwhole := hexact.whole
  have hgas : (pricedTransferOf 30000).gas.toNat = 30000 := rfl
  have hprice : (pricedTransferOf 30000).gas_price.toNat = 2 := rfl
  have hleft : (TXExecutor.gas_left (leavesGas 9000).result).toNat = 9000 := rfl
  rw [hleft, hgas] at hused
  rw [hgas] at hcharged
  rw [hprice] at hfee
  rw [hgas, hprice] at hwhole
  exact ⟨used, charged, fee, refund, hsettle, by omega, by omega, by omega, by omega⟩

/-- Gas is not charged, as in a virtual execution. -/
def uncharging : TransactOptions := ⟨.with_no_tracing, ⟨false, true⟩⟩

theorem uncharged_transfer (gas : U256) (hgas : gas.toNat < 2 ^ 254) :
    TXExecutor.Uncharged bareMachine (pricedTransferOf gas) uncharging richState := by
  refine ⟨rfl, hgas, richState_reachable, ?_, fun _ => rfl⟩
  rw [show richState.state.totalBalance = 1000000 from oneHolder_total]
  decide

/-- A transfer creates no contracts. -/
theorem uncharged_transfer_createsElsewhere (gas : U256) (s : FrameStack)
    (hs : TXExecutor.Executing bareMachine (pricedTransferOf gas) uncharging richState s) :
    s.CreatesElsewhere := by
  intro frame params hphase hstatus hcreate
  have hrep : Rep oneHolder [] (State.new oneHolder) (State.new oneHolder).ledger :=
    rep_new oneHolder
  obtain ⟨-, hphases⟩ := hs.transferring hrep rfl rfl rfl fun _ _ => rfl
  simp [hphase, hcreate] at hphases

/-- A transfer that uses all its gas is not paid for it. -/
theorem spent_gas_is_not_refunded :
    ∃ r t₃, (TXExecutor.transact bareMachine (pricedTransferOf 21000) 3 uncharging).run richState =
        .ok (r, t₃) ∧
      t₃.state.totalBalance + (1000000 - t₃.state.total_issued_tokens.toNat) = 1000000 := by
  have hruns : (TXExecutor.transact_preprocessing bareMachine (pricedTransferOf 21000)
      uncharging).returns richState (fun result t₁ => result.passes
        fun frame substate observer base =>
          (TXExecutor.run_frames bareMachine 3 substate observer base frame).returns t₁
            fun output _ => output.any fun output =>
              decide (output.result = .ok ⟨0, true, .empty⟩) &&
              decide (output.observer.gas_man = none)) = true := by decide +kernel
  obtain ⟨result, t₁, hpre, hpasses⟩ := exists_of_returns hruns
  obtain ⟨frame, substate, observer, base, rfl, hframes⟩ := PreCheckResult.exists_of_passes hpasses
  obtain ⟨output, t₂, hframes, houtput⟩ := exists_of_returns hframes
  obtain ⟨output, rfl, htest⟩ := (Option.any_eq_true _ _).mp houtput
  rw [Bool.and_eq_true, decide_eq_true_iff, decide_eq_true_iff] at htest
  obtain ⟨hresult, hgas_man⟩ := htest
  have hreadable : ∀ res, output.result = .ok res → res.return_data.deref.isSome := by
    intro res hres
    rw [hresult] at hres
    cases hres
    rfl
  have hissued : richState.state.total_issued_tokens.toNat = 1000000 := by decide +kernel
  have htotal : richState.state.totalBalance = 1000000 := oneHolder_total
  have hmints : TXExecutor.MintsNothing (pricedTransferOf 21000) richState.state t₂.state
      output := by
    refine ⟨hreadable, ?_, ?_, .inl (.inr (.inl (by rw [hresult]; rfl)))⟩
    · intro m hm
      rw [hgas_man] at hm
      cases hm
    · unfold TXExecutor.burnt
      omega
  obtain ⟨r, t₃, hrun, hsum, -⟩ := ((TXExecutor.uncharged_gas_is_kept_iff (by decide)
    (uncharged_transfer 21000 (by decide)) (uncharged_transfer_createsElsewhere 21000)).2.2
    _ _ _ _ _ _ _ _ hpre hframes).mpr hmints
  rw [hissued, htotal] at hsum
  exact ⟨r, t₃, hrun, hsum⟩

/-- The rest of the gas is refunded although none was charged: tokens are minted. -/
theorem uncharged_gas_is_refunded :
    TXExecutor.Uncharged bareMachine (pricedTransferOf 30000) uncharging richState ∧
      ∃ r t₃, (TXExecutor.transact bareMachine (pricedTransferOf 30000) 3 uncharging).run
        richState =
          .ok (r, t₃) ∧
        t₃.state.total_issued_tokens = richState.state.total_issued_tokens ∧
        richState.state.balances 7 = 1000000 ∧ t₃.state.balances 7 = 1000000 - 5 + 15000 ∧
        richState.state.totalBalance < t₃.state.totalBalance := by
  refine ⟨uncharged_transfer 30000 (by decide), ?_⟩
  have hruns : (TXExecutor.transact bareMachine (pricedTransferOf 30000) 3 uncharging).returns
      richState (fun _ t₃ =>
        t₃.state.total_issued_tokens = richState.state.total_issued_tokens ∧
          richState.state.balances 7 = 1000000 ∧ t₃.state.balances 7 = 1000000 - 5 + 15000) =
              true := by
    decide +kernel
  obtain ⟨outcome, t₃, hrun, htest⟩ := exists_of_returns hruns
  obtain ⟨hissued, hbefore, hafter⟩ := of_decide_eq_true htest
  refine ⟨.ok outcome, t₃, hrun, hissued, hbefore, hafter, ?_⟩
  have hle : t₃.state.balances 7 ≤ t₃.state.totalBalance :=
    Finset.single_le_sum (fun a _ => Nat.zero_le (t₃.state.balances a)) (Finset.mem_univ _)
  rw [show richState.state.totalBalance = 1000000 from oneHolder_total]
  omega

end

end CfxEvm
