import CfxEvm.Execution.Proofs.SecureRunProofs
import CfxEvm.Execution.Proofs.TokenConservationProofs

/-!
# Proofs: balances are never overdrawn

As long as the balances together can be counted, and no contract is created at the address of its
creator, the frames of a transaction only take what is there, and no balance overflows. What the
transaction paid for its gas covers the refund, so this is again so for the next one.
-/

open Lib Lib.Prog

namespace CfxEvm

section
variable {g : Globals} {tx : Transaction} {options : TransactOptions}
  {db : StateDb} {saved : List Ledger} {w w' : Ledger} {t t' : TxState}

/-! ## The balances together -/

/-- The balances together do not grow. -/
def Ledger.HoldsNoMore (w w' : Ledger) : Prop := w'.totalBalance ≤ w.totalBalance

theorem holdsNoMore_law : TokenLaw Ledger.HoldsNoMore where
  refl _ := le_refl _
  trans h h' := le_trans h' h
  same hle _ _ := hle
  burnt htotal _ := by
    unfold Ledger.HoldsNoMore
    omega

/-- The balances together can be counted. -/
def Ledger.Countable (w : Ledger) : Prop := w.totalBalance < 2 ^ 256

theorem Ledger.holdsNoMore_removed (w : Ledger) (a : Address) (v : AccountView)
    (hv : v.balance = 0) :
    w.HoldsNoMore (w.setAccount a v) := by
  have hset := w.totalBalance_setAccount a v
  rw [hv, BitVec.ofNat_eq_ofNat, BitVec.toNat_zero, Nat.add_zero] at hset
  unfold HoldsNoMore
  omega

variable [Keccak]

theorem Ledger.holdsNoMore_kills (l : List Address) (w : Ledger) :
    w.HoldsNoMore (l.foldl Ledger.killed w) := by
  induction l generalizing w with
  | nil => exact holdsNoMore_law.refl _
  | cons a l ih =>
    have hkilled : w.HoldsNoMore (w.killed a) := w.holdsNoMore_removed a .removed rfl
    exact holdsNoMore_law.trans hkilled (ih (w.killed a))

/-- The registry is deployed without a balance. -/
theorem holdsNoMore_deploy : Keeps holdsNoMore_law.effect.On deploy_eip1820 := by
  refine deploy_eip1820_keeps (fun w => ?_) (fun code => holdsNoMore_law.init_code _ code)
    fun _ => trivial
  exact wp_update.mpr (w.holdsNoMore_removed _ _ rfl)

/-- The sites at which any code may run, where the balances can be counted. -/
abbrev solventSites : Sites := holdsNoMore_law.sites Ledger.Countable

theorem solventSites_lawful : solventSites.Lawful g FrameStack.CreatesElsewhere :=
  holdsNoMore_law.sites_lawful (fun h => h) (fun hle hw => lt_of_le_of_lt hle hw)
    fun _ _ _ => holdsNoMore_deploy

section
variable {E : Panic → Prop} {F : DbError → Prop} {a b : Address} {v : U256}

omit [Keccak] in
theorem Ledger.sub_balance_tame (h : v.toNat ≤ w.balances a) (mode : CleanupMode) :
    Tame E (fun _ => True) (Ledger.sub_balance a v mode) w :=
  wp_mono (Ledger.sub_balance_returns h mode) (fun _ hp => hp.elim) fun _ _ _ _ _ => trivial

theorem Ledger.add_balance_tame (h : w.balances a + v.toNat < 2 ^ 256) (mode : CleanupMode)
    (nonce : U256) : Tame E (fun _ => True) (Ledger.add_balance a v mode nonce) w :=
  wp_mono (Ledger.add_balance_returns h mode nonce) (fun _ hp => hp.elim) fun _ _ _ _ _ => trivial

/-- What is moved is part of the balances together, so it fits where it goes. -/
theorem Ledger.transfer_balance_tame (hw : w.Countable) (h : v.toNat ≤ w.balances a) (b : Address)
    (mode : CleanupMode) (nonce : U256) :
    Tame E (fun _ => True) (Ledger.transfer_balance a b v mode nonce) w := by
  refine wp_bind.mpr (wp_post (wp_and (Ledger.sub_balance_tame h mode)
    (Ledger.sub_balance_debits a v mode w)) ?_)
  rintro (e | mode') w₁ ⟨-, hok, -⟩
  · exact fun _ _ => trivial
  · have htotal := (hok mode' rfl).total
    have hle := w₁.balances_le_total b
    unfold Countable at hw
    exact Ledger.add_balance_tame (by omega) mode' nonce

end

/-- No operation on such balances panics. -/
theorem solventSites_guards : solventSites.Guards (fun p => ¬BalancePanic p) fun _ => True where
  panic h := h
  sub_balance _ hle mode := Ledger.sub_balance_tame hle mode
  transfer_balance hw hle b mode nonce := Ledger.transfer_balance_tame hw hle b mode nonce
  code {w} _ a := by
    refine wp_bind.mpr (wp_gets.mpr ?_)
    rcases w.accounts a with _ | u
    · exact fun _ _ => trivial
    · exact wp_ite (fun _ _ _ => trivial) fun _ _ _ => trivial
  set_storage {w a} _ key value := by
    refine wp_bind.mpr (wp_gets.mpr (Tame.when fun _ => wp_bind.mpr (wp_gets.mpr ?_)))
    rcases w.accounts a with _ | u
    · exact fun _ _ => trivial
    · exact fun _ _ => trivial
  init_code {w a} _ code := by
    refine wp_bind.mpr (wp_gets.mpr ?_)
    rcases w.accounts a with _ | u
    · exact fun _ _ => trivial
    · exact fun _ _ => trivial

/-! ## The checks and the settlement -/

variable [HashOrder]

namespace TXExecutor

section
variable {E : Panic → Prop} (hE : ∀ p, ¬BalancePanic p → E p)
include hE

omit [HashOrder] in
/-- The nonce is counted up, and then the cost, which was seen to be there, is taken. -/
theorem bump_and_charge_tame {β : Type} {cost : U256} (hcost : cost.toNat ≤ w.balances tx.sender)
    (hrep : Rep db saved t.state w) {mode : CleanupMode} {f : CleanupMode → TxM β}
    (hf : ∀ mode' t', Rep db saved t'.state (w.charged tx.sender g.spec.account_start_nonce cost) →
      Tame E (fun _ => True) (f mode') t') :
    Tame E (fun _ => True) (onState (State.inc_nonce tx.sender g.spec.account_start_nonce) >>=
      fun _ =>
      onState (State.sub_balance tx.sender cost mode) >>= f) t := by
  have hcounts : Tame E (fun _ => True)
      (Ledger.inc_nonce tx.sender g.spec.account_start_nonce) w :=
    Ledger.inc_nonce_tame (hE _ id) _ _ w
  refine wp_bind.mpr (wp_onState (inc_nonce_refines _ _) hrep
    (wp_post (wp_and hcounts (Ledger.inc_nonce_spec _ _ w)) ?_))
  rintro _ w₁ ⟨-, rfl, -, rfl⟩ s₁ hrep₁
  have hle : cost.toNat ≤ (w.setAccount tx.sender
      { w.accountOrNew tx.sender g.spec.account_start_nonce with
        nonce := (w.accountOrNew tx.sender g.spec.account_start_nonce).nonce + 1 }).balances
      tx.sender := by
    rw [Ledger.balances_bump]
    exact hcost
  refine wp_bind.mpr (wp_onState (sub_balance_refines _ _ _) (by exact hrep₁)
    (wp_post (wp_and (Ledger.sub_balance_tame (E := E) hle mode)
      (Ledger.sub_balance_debits _ _ mode _)) ?_))
  rintro (e | mode') w₂ ⟨-, hok, -⟩ s₂ hrep₂
  · exact fun _ _ => trivial
  · obtain rfl := (hok mode' rfl).charged
    exact hf mode' _ hrep₂

omit [HashOrder] in
/-- The checks take no more than the sender has. -/
theorem transact_preprocessing_tame (hrep : Rep db saved t.state w) :
    Tame E (fun _ => True) (transact_preprocessing g tx options) t := by
  have hpure : ∀ {r : PreCheckResult} {t₁ : TxState},
      Tame E (fun _ => True) (pure r : TxM PreCheckResult) t₁ := .pure _
  have hbalance : (U512.of_u256 (w.balanceOf tx.sender)).toNat = w.balances tx.sender :=
    U512.toNat_of_u256 _
  refine wp_bind.mpr (wp_onState (nonce_refines _) hrep (wp_gets.mpr fun s₁ hrep₁ => ?_))
  refine wp_ite (fun _ => hpure) fun _ => wp_ite (fun _ => hpure) fun _ => ?_
  refine wp_bind.mpr (wp_expect (fun _ => hE _ id) fun base hbase =>
    wp_ite (fun _ => ?_) fun _ => ?_)
  · exact wp_bind.mpr (wp_expect (fun _ => hE _ id) fun _ _ => hpure)
  refine wp_bind.mpr (wp_onState (balance_refines _) (by exact hrep₁) (wp_gets.mpr
    fun s₂ hrep₂ => ?_))
  refine wp_bind.mpr (wp_expect (fun _ => hE _ id) fun total htotal => ?_)
  refine wp_ite (fun hcash => ?_) fun hcash => ?_
  · refine wp_bind.mpr (wp_expect (fun _ => hE _ id) fun cost hcost => ?_)
    refine wp_bind.mpr (wp_onState (exists_refines _) (by exact hrep₂) (wp_gets.mpr
      fun s₃ hrep₃ => ?_))
    refine wp_ite (fun _ => hpure) fun _ => bump_and_charge_tame hE ?_ (by exact hrep₃)
      fun _ _ _ => .pure _
    rw [U256.try_from_eq_some.mp hcost, toNat_lesser, hbalance]
    exact min_le_right _ _
  · have hle : tx.value.toNat + gasCost tx options ≤ w.balances tx.sender := by
      rw [hbalance, U512.checked_add_eq_some htotal, U512.toNat_of_u256, toNat_gas_cost] at hcash
      exact not_lt.mp hcash
    obtain ⟨cost, hpaid, hcost⟩ := exists_paid hle
    unfold charge
    rw [hpaid]
    have hfunds : cost.toNat ≤ w.balances tx.sender := by omega
    refine bump_and_charge_tame hE hfunds (by exact hrep₂) fun mode' t₁ hrep₁ => ?_
    refine wp_bind.mpr (wp_expect (fun _ => hE _ id) fun init_gas _ => ?_)
    refine Tame.bind ?_ fun _ _ _ => .pure _
    exact wp_mono (top_frame_spec hrep₁) (fun _ h => h.elim) fun _ _ _ _ _ => trivial

/-- The refund is no more than what the gas costs. -/
theorem transact_postprocessing_tame (output : FrameStackOutput) (hrep : Rep db saved t.state w)
    (hfits : w.balances tx.sender + tx.gas.toNat * tx.gas_price.toNat < 2 ^ 256) :
    Tame E (fun _ => True) (transact_postprocessing g tx output) t := by
  unfold transact_postprocessing
  have hbytes : wp (output_bytes output.result) E (fun _ t' => t' = t) t := by
    unfold output_bytes
    cases output.result with
    | error e => exact rfl
    | ok res => exact wp_expect (fun _ => hE _ id) fun _ _ => rfl
  refine wp_bind.mpr (wp_post hbytes ?_)
  rintro (e | bytes) t₁ ht₁
  · exact fun _ _ => trivial
  subst t₁
  have hestimate : wp (estimate output) E (fun _ t' => t' = t) t := by
    unfold estimate
    cases output.observer.gas_man with
    | none => exact rfl
    | some m => exact wp_bind.mpr (wp_expect (fun _ => hE _ id) fun _ _ => rfl)
  refine wp_bind.mpr (wp_post hestimate ?_)
  rintro (e | limit) t₁ ht₁
  · exact fun _ _ => trivial
  subst t₁
  have hsettle : wp (settle tx (gas_left output.result)) E (fun _ t' => t' = t) t := by
    refine wp_bind.mpr (wp_expect (fun _ => hE _ id) fun _ _ => wp_bind.mpr
      (wp_expect (fun _ => hE _ id) fun _ _ =>
        wp_bind.mpr (wp_expect (fun _ => hE _ id) fun _ _ => ?_)))
    exact wp_ite (fun _ => wp_bind.mpr (wp_expect (fun _ => hE _ id) fun _ _ => rfl)) fun _ => rfl
  refine wp_bind.mpr (wp_post (wp_and hsettle (settle_yields (gas_left output.result) t)) ?_)
  rintro (e | ⟨gas_used, gas_charged, fee, refund⟩) t₁ ⟨ht₁, hyields⟩
  · exact fun _ _ => trivial
  subst t₁
  obtain ⟨refunded, -, hgas, -, -, hrefund⟩ := hyields _ rfl
  have hle : refund.toNat ≤ tx.gas.toNat * tx.gas_price.toNat := by
    have hrefund : refund = U256.saturating_mul refunded tx.gas_price := hrefund
    have hmul : refunded.toNat * tx.gas_price.toNat ≤ tx.gas.toNat * tx.gas_price.toNat :=
      Nat.mul_le_mul_right _ (by simp only at hgas; omega)
    rw [hrefund, U256.toNat_saturating_mul]
    omega
  refine wp_bind.mpr (wp_onState (add_balance_refines _ _ _ _) hrep
    (wp_post (Ledger.add_balance_tame (by omega) _ _) fun r w₁ _ s₁ hrep₁ => ?_))
  rcases r with e | mode
  · exact fun _ _ => trivial
  refine wp_bind.mpr (wp_mono (kills_spec _ _ (by exact hrep₁)) (fun _ h => h.elim) ?_)
  rintro _ t₂ ⟨-, rfl⟩
  exact wp_mono (outcome_spec _ _ t₂) (fun _ h => h.elim) fun _ _ _ _ _ => trivial

end

/-! ## Whole transactions -/

section
variable {fuel : ℕ} {outcome : ExecutionOutcome}

/-- A transaction on balances that can be counted panics on none of them. -/
theorem transact_solvent (hcharge : options.check_settings.charge_gas = true)
    (helsewhere : ∀ s, Executing g tx options t s → s.CreatesElsewhere)
    (hrep : Rep db saved t.state w) (hw : w.Countable) (fuel : ℕ) :
    Tame (fun p => ¬BalancePanic p) (fun _ => True) (transact g tx fuel options) t := by
  have hcost : gasCost tx options = tx.gas.toNat * tx.gas_price.toNat := by
    rw [gasCost, if_pos hcharge]
  refine Tame.bind (transact_preprocessing_tame (fun _ hp => hp) hrep) fun pre t₁ hpre => ?_
  obtain ⟨w₁, hrep₁, hchecked, -⟩ := wp_of_run (transact_preprocessing_spec hrep) hpre
  have hchecked := hchecked _ rfl
  cases pre with
  | Fail outcome => exact .pure _
  | Pass frame substate observer base =>
    have helsewhere₁ : ∀ s₁, Rounds (FrameStack.step g)
        (.new t₁.state t₁.shared_cache substate observer base frame) s₁ → s₁.CreatesElsewhere :=
      fun s₁ hs₁ => helsewhere s₁ ⟨frame, substate, observer, base, t₁, hpre, hs₁⟩
    -- What was paid for the gas is missing from the balances while the frames are run.
    have htotal : w₁.totalBalance + tx.gas.toNat * tx.gas_price.toNat = w.totalBalance := by
      cases hchecked with
      | pass hnonce hcash hpaid =>
        rw [← hcost, ← hpaid]
        exact w.charged_total _ (by omega)
    have hw₁ : w₁.Countable := by
      unfold Ledger.Countable at hw ⊢
      omega
    refine Tame.bind (run_frames_tame solventSites_guards solventSites_lawful hchecked hrep₁ hw₁
      helsewhere₁ fuel) fun output t₂ hframes => ?_
    cases output with
    | none => exact .pure _
    | some output =>
      obtain ⟨s, r, hran, rfl, rfl⟩ := framesRun_of_run hframes
      obtain ⟨w₂, hrep₂, hless, -⟩ := hran.effect solventSites_lawful hchecked hrep₁ hw₁ helsewhere₁
      have hless : w₂.totalBalance ≤ w₁.totalBalance := hless
      refine Tame.bind ?_ fun _ _ _ => .pure _
      refine transact_postprocessing_tame (fun _ hp => hp) _ (by exact hrep₂) ?_
      have hle := w₂.balances_le_total tx.sender
      unfold Ledger.Countable at hw
      omega

/-- The balances together do not grow: the refund is paid from what was charged. -/
theorem transact_holdsNoMore (hcharge : options.check_settings.charge_gas = true)
    (helsewhere : ∀ s, Executing g tx options t s → s.CreatesElsewhere)
    (hrep : Rep db saved t.state w) (hw : w.Countable)
    (hrun : (transact g tx fuel options).run t = .ok (.ok (some outcome), t')) :
    ∃ w', Rep db saved t'.state w' ∧ w.HoldsNoMore w' := by
  have hcost : gasCost tx options = tx.gas.toNat * tx.gas_price.toNat := by
    rw [gasCost, if_pos hcharge]
  rcases transact_inv hrep hrun with ⟨w', hpre, hchecked, hrep'⟩ |
    ⟨frame, substate, observer, base, w₁, t₁, s, r, hpre, hchecked, hrep₁, hexec⟩
  · refine ⟨w', hrep', ?_⟩
    unfold Ledger.HoldsNoMore
    cases hchecked with
    | @not_enough_cash cost hnonce hcash hpaid =>
      have hle : cost.toNat ≤ w.balances tx.sender := by omega
      have htotal := w.charged_total g.spec.account_start_nonce hle
      omega
    | _ => exact le_refl _
  · have hcashes : tx.gas.toNat * tx.gas_price.toNat ≤ w.balances tx.sender ∧
        w₁.totalBalance + tx.gas.toNat * tx.gas_price.toNat = w.totalBalance := by
      cases hchecked with
      | pass hnonce hcash hpaid =>
        rw [← hcost, ← hpaid]
        exact ⟨by omega, w.charged_total _ (by omega)⟩
    obtain ⟨hcash, htotal⟩ := hcashes
    have hw₁ : w₁.Countable := by
      unfold Ledger.Countable at hw ⊢
      omega
    obtain ⟨w₂, hrep₂, hless, -⟩ := hexec.effect solventSites_lawful hchecked hrep₁ hw₁
      fun s₁ hs₁ =>
      helsewhere s₁ ⟨frame, substate, observer, base, t₁, hpre, hs₁⟩
    have hless : w₂.totalBalance ≤ w₁.totalBalance := hless
    obtain ⟨refunded, executed, w₃, w', hrep', hsettled, -⟩ := hexec.settled hrep₂
    have hrefund := hsettled.refund.total
    have hlt : w.balances tx.sender < 2 ^ 256 := (w.balanceOf tx.sender).isLt
    have hsplit := hsettled.fee_refund (by omega)
    have hkills := w₃.holdsNoMore_kills (HashOrder.iter (s.process_return r).substate.suicides)
    rw [← hsettled.kills] at hkills
    refine ⟨w', hrep', ?_⟩
    unfold Ledger.HoldsNoMore at hkills ⊢
    omega

end

end TXExecutor

/-! ## Runs -/

/-- A commit writes the balances that are shown, and those of null accounts and removed contracts
    are zero. -/
theorem balances_commit {owner : Owner} {s s' : State} (hrep : RepBy db [] owner s w)
    (hcovers : ∀ a, w.accounts a = none → db.accounts a = none)
    (hrun : State.commit.final s = .ok s') (a : Address) :
    (Ledger.mk s'.db.view s'.total_issued_tokens s'.db.slots).balances a ≤ w.balances a := by
  obtain ⟨haccount, -⟩ := records_commit hrep hrun a
  have haccounts := hrep.accounts_eq a
  rw [hrep.db_eq] at haccounts
  have hnone : s'.db.accounts a = none →
      (Ledger.mk s'.db.view s'.total_issued_tokens s'.db.slots).balances a ≤ w.balances a := by
    intro hnone
    simp [Ledger.balances, Ledger.balanceOf, StateDb.view, hnone]
  rcases hlookup : s.cache.lookup a with _ | ⟨_ | acc, state⟩
  · -- The address is not cached.
    rw [hlookup] at haccount haccounts
    have hshown : w.accounts a = db.view a := haccounts
    have hsame : s'.db.accounts a = db.accounts a := haccount
    unfold Ledger.balances Ledger.balanceOf
    rw [hshown]
    simp only [StateDb.view, hsame]
    rcases db.accounts a with _ | acc
    · exact le_refl _
    · exact le_refl _
  · -- There is no account, in the database neither.
    rw [hlookup] at haccount haccounts
    exact hnone (haccount.trans (hcovers a haccounts))
  · have hshown : w.accounts a = some (acc.view db) := by
      rw [haccounts, hlookup]
      rfl
    rw [hlookup] at haccount
    simp only [entryRecords, Option.bind_some] at haccount
    by_cases hremoved : acc.removed_without_update = true
    · simp only [hremoved, if_true] at haccount
      exact hnone haccount
    · simp only [hremoved] at haccount
      have haccount : s'.db.accounts a = acc.as_account.stored := haccount
      unfold Account.stored at haccount
      by_cases hdefault : acc.as_account.is_default = true
      · rw [if_pos hdefault] at haccount
        exact hnone haccount
      · rw [if_neg hdefault] at haccount
        unfold Ledger.balances Ledger.balanceOf
        rw [hshown]
        simp only [StateDb.view, haccount]
        exact le_refl _

/-- The balances together are no more than `n`, and no account of the database is hidden. -/
structure TxState.HoldsAtMost (n : ℕ) (t : TxState) : Prop where
  closed : ∃ w, Rep t.state.db [] t.state w ∧ w.totalBalance ≤ n ∧
    ∀ a, w.accounts a = none → t.state.db.accounts a = none

/-- A transaction that pays for its gas, or a commit, keeps that. -/
theorem TxState.HoldsAtMost.step {n : ℕ} (hn : n < 2 ^ 256) (h : t.HoldsAtMost n)
    (hstep : PaidStep t t') : t'.HoldsAtMost n := by
  obtain ⟨w, hrep, hw, hcovers⟩ := h
  cases hstep with
  | transact hrun hcharge hstacks =>
    obtain ⟨w', hrep', hless⟩ := TXExecutor.transact_holdsNoMore hcharge hstacks hrep
      (lt_of_le_of_lt hw hn) hrun
    have hany : Lasting w.stored fun _ _ => True :=
      ⟨fun _ _ => trivial, fun _ _ => trivial, fun _ _ => trivial, fun _ _ => trivial,
        fun _ _ => trivial⟩
    obtain ⟨w'', hrep'', hlasts⟩ := TXExecutor.transact_lasts hany (fun _ _ _ _ => trivial)
      (fun _ => trivial) hrep ⟨rfl, fun _ _ _ => trivial⟩ hrun
    obtain rfl := hrep'.unique hrep''
    have hsame : t'.state.db = t.state.db := by
      obtain ⟨owner, hrep'⟩ := hrep'
      exact hrep'.db_eq
    refine ⟨w', ?_, le_trans hless hw, ?_⟩
    · rw [hsame]
      exact hrep'
    · intro a ha
      rw [hsame]
      exact hcovers a (hlasts.grows a ha)
  | @commit s hrun ht =>
    subst ht
    obtain ⟨owner, hrep⟩ := hrep
    have hle := balances_commit hrep hcovers hrun
    obtain ⟨-, -, hcache, hreads, hcs, hts, -⟩ := commit_inv hrun
    refine ⟨_, rep_of_empty hcache hcs hts hreads, le_trans (Finset.sum_le_sum fun a _ => hle a) hw,
      fun a ha => ?_⟩
    exact Option.map_eq_none_iff.mp ha

theorem TxState.HoldsAtMost.steps {n : ℕ} (hn : n < 2 ^ 256) (h : t.HoldsAtMost n)
    (hsteps : PaidSteps t t') : t'.HoldsAtMost n := by
  induction hsteps with
  | refl => exact h
  | tail _ hstep ih => exact ih.step hn hstep

/-- Balances are never overdrawn. From a database whose balances together can be counted, after any
    transactions that paid for their gas and any commits, the balances together are no more than at
    the beginning, and whatever transaction comes next, in no round of its frames and in no other
    part of it does a balance underflow or overflow. -/
theorem TXExecutor.balances_are_never_overdrawn {cache : SharedCache}
    (hdb : (State.new db).totalBalance < 2 ^ 256) (hsteps : PaidSteps ⟨State.new db, cache⟩ t)
    (hcharge : options.check_settings.charge_gas = true)
    (helsewhere : ∀ s, Executing g tx options t s → s.CreatesElsewhere) :
    t.state.totalBalance ≤ (State.new db).totalBalance ∧
      (∀ s, Executing g tx options t s → ∀ p, (FrameStack.step g).run s = .error p →
        p ≠ .balance_underflow ∧ p ≠ .balance_overflow) ∧
      ∀ fuel p, (transact g tx fuel options).run t = .error p →
        p ≠ .balance_underflow ∧ p ≠ .balance_overflow := by
  have hpanic : ∀ {p}, ¬BalancePanic p → p ≠ .balance_underflow ∧ p ≠ .balance_overflow := by
    intro p hp
    refine ⟨?_, ?_⟩
    · rintro rfl
      exact hp trivial
    · rintro rfl
      exact hp trivial
  have hstart : TxState.HoldsAtMost (State.new db).totalBalance ⟨State.new db, cache⟩ := by
    refine ⟨_, rep_new db, ?_, fun a ha => Option.map_eq_none_iff.mp ha⟩
    exact le_of_eq (State.totalBalance_eq (rep_new db)).symm
  obtain ⟨w, hrep, hw, -⟩ := hstart.steps hdb hsteps
  have hcountable : w.Countable := lt_of_le_of_lt hw hdb
  refine ⟨?_, ?_, fun fuel p hp => ?_⟩
  · rw [State.totalBalance_eq hrep]
    exact hw
  · rintro s hexecuting p hp
    obtain ⟨frame, substate, observer, base, t₁, hpre, hrounds⟩ := id hexecuting
    obtain ⟨w₁, hrep₁, hchecked, -⟩ := wp_of_run (transact_preprocessing_spec hrep) hpre
    have hchecked := hchecked _ rfl
    have hw₁ : w₁.Countable := by
      cases hchecked with
      | @pass frame mode base cost hnonce hcash hpaid =>
        have hle : cost.toNat ≤ w.balances tx.sender := by omega
        have htotal := w.charged_total g.spec.account_start_nonce hle
        unfold Ledger.Countable at hcountable ⊢
        omega
    have hI : ∀ s₁, Rounds (FrameStack.step g)
        (.new t₁.state t₁.shared_cache substate observer base frame) s₁ → s₁.CreatesElsewhere :=
      fun s₁ hs₁ => helsewhere s₁ ⟨frame, substate, observer, base, t₁, hpre, hs₁⟩
    have hfollows := hchecked.follows solventSites_lawful hrep₁ hw₁ hI hrounds
    have htame := solventSites_guards.step solventSites_lawful hfollows (clean_of_rounds hrounds)
      (helsewhere s hexecuting)
    have hnot : ¬BalancePanic p := wp_of_panic (E := fun p => ¬BalancePanic p) htame hp
    exact hpanic hnot
  · have hnot : ¬BalancePanic p :=
      wp_of_panic (E := fun p => ¬BalancePanic p)
        (transact_solvent hcharge helsewhere hrep hcountable fuel) hp
    exact hpanic hnot

end

section
attribute [local instance] keccakOfEmpty HashOrder.asListed

/-- After a transfer and a commit, the rest is transferred on. -/
theorem rest_is_transferred_on :
    ∃ t, PaidSteps ⟨.new oneHolder, .new 0⟩ t ∧ t.state.totalBalance ≤ 1000000 ∧
      ∀ fuel p, (TXExecutor.transact bareMachine { pricedTransfer with nonce := 1 } fuel
        untraced).run t =
        .error p → p ≠ .balance_underflow ∧ p ≠ .balance_overflow := by
  have hruns : (TXExecutor.transact bareMachine pricedTransfer 3 untraced).returns
      ⟨.new oneHolder, .new 0⟩ (fun outcome t' => ExecutionOutcome.finished (fun _ =>
        match State.commit.final t'.state with
        | .error _ => false
        | .ok s => ((entryView s.db 9 (s.cache.lookup 9)).bind AccountView.code).isNone) outcome) =
      true := by
    decide +kernel
  obtain ⟨outcome, t₁, hrun, hfinished⟩ := exists_of_returns hruns
  obtain ⟨executed, rfl, hcommit⟩ := ExecutionOutcome.exists_of_finished hfinished
  rcases hs : State.commit.final t₁.state with p | s
  · rw [hs] at hcommit
    cases hcommit
  rw [hs] at hcommit
  have helsewhere : ∀ s, TXExecutor.Executing bareMachine pricedTransfer untraced
      ⟨.new oneHolder, .new 0⟩ s → s.CreatesElsewhere := by
    intro s hs frame params hphase hstatus hcreate
    have hrep : Rep oneHolder [] (State.new oneHolder) (State.new oneHolder).ledger :=
      rep_new oneHolder
    obtain ⟨-, hphases⟩ := hs.transferring hrep rfl rfl rfl fun _ _ => rfl
    simp [hphase, hcreate] at hphases
  have hsteps : PaidSteps ⟨.new oneHolder, .new 0⟩ { t₁ with state := s } :=
    .tail (.single (.transact hrun rfl helsewhere)) (.commit hs rfl)
  have hstart : TxState.HoldsAtMost 1000000 ⟨.new oneHolder, .new 0⟩ := by
    refine ⟨_, rep_new oneHolder, ?_, fun a ha => Option.map_eq_none_iff.mp ha⟩
    exact le_of_eq ((State.totalBalance_eq (rep_new oneHolder)).symm.trans oneHolder_total)
  obtain ⟨w, hrep, -, -⟩ := hstart.steps (by omega) hsteps
  have hcode : ∀ nonce cost, (w.charged 7 nonce cost).codeOf 9 = none := by
    intro nonce cost
    obtain ⟨owner, hrep⟩ := hrep
    have haccounts : (w.charged 7 nonce cost).accounts 9 = w.accounts 9 := by
      simp [Ledger.charged, Ledger.setAccount]
    have hshown : w.accounts 9 = entryView s.db 9 (s.cache.lookup 9) := hrep.accounts_eq 9
    unfold Ledger.codeOf
    rw [haccounts, hshown, Option.isNone_iff_eq_none.mp hcommit]
    rfl
  have helsewhere' : ∀ s', TXExecutor.Executing bareMachine
    { pricedTransfer with nonce := 1 } untraced
      { t₁ with state := s } s' → s'.CreatesElsewhere := by
    intro s' hs' frame params hphase hstatus hcreate
    obtain ⟨-, hphases⟩ := hs'.transferring hrep rfl rfl rfl hcode
    simp [hphase, hcreate] at hphases
  have hbound : (State.new oneHolder).totalBalance < 2 ^ 256 := by
    rw [oneHolder_total]
    omega
  obtain ⟨htotal, -, hpanics⟩ :=
    TXExecutor.balances_are_never_overdrawn hbound hsteps rfl helsewhere'
  rw [oneHolder_total] at htotal
  exact ⟨_, hsteps, htotal, hpanics⟩

end

end CfxEvm
