import CfxEvm.Execution.Executor
import CfxEvm.Frame.Proofs.AskedProofs

/-!
# Proofs: what a transaction does to the ledger

The checks of a transaction, the charge for its gas, the refund and the removal of the destroyed
contracts in terms of the ledger behind the state, and the parts that a whole transaction consists
of.
-/

open Lib Lib.Prog

namespace CfxEvm

variable [Keccak] {g : Globals} {tx : Transaction} {options : TransactOptions} {db : StateDb}
  {saved : List Ledger} {w w' : Ledger} {t t' : TxState}

/-- A program over the state, as a part of a transaction, in terms of the ledger. -/
theorem TXExecutor.wp_onState {α : Type} {x : StateM α} {y : LedgerM α} (hxy : StateRefines x y)
    (hrep : Rep db saved t.state w) {E : Panic → Prop} {Q : Except DbError α → TxState → Prop}
    (hy : wp y E (fun r w' => ∀ s', Rep db saved s' w' → Q r { t with state := s' }) w) :
    wp (TXExecutor.onState x) E Q t := by
  unfold TXExecutor.onState
  rw [wp_zoom]
  refine wp_post ((hxy db saved).wp hrep hy) ?_
  rintro r s' ⟨w', hrep', hq⟩
  exact hq s' hrep'

/-! ## The charge -/

/-- The ledger after the account at `a` has paid `cost` and its nonce was counted up. -/
def Ledger.charged (w : Ledger) (a : Address) (nonce cost : U256) : Ledger :=
  w.setAccount a { w.accountOrNew a nonce with
    nonce := (w.accountOrNew a nonce).nonce + 1
    balance := (w.accountOrNew a nonce).balance - cost }

/-- The nonce is counted up first, then the cost is taken. -/
theorem Ledger.Debited.charged {a : Address} {nonce cost : U256}
    (h : Debited a cost (w.setAccount a { w.accountOrNew a nonce with
      nonce := (w.accountOrNew a nonce).nonce + 1 }) w') : w' = w.charged a nonce cost := by
  unfold Debited at h
  split at h
  · rename_i hzero
    subst hzero h
    simp [Ledger.charged]
  · obtain ⟨u, hu, -, rfl⟩ := h
    rw [setAccount_same, Option.some_inj] at hu
    subst hu
    exact setAccount_setAccount w a _ _

/-- The charge keeps what lasts. -/
theorem Ledger.All.charged {stored : Address → Bytes → U256} {P : Address → AccountView → Prop}
    (h : w.All stored P) (hP : Lasting stored P) (a : Address) (nonce cost : U256) :
    (w.charged a nonce cost).All stored P := by
  refine h.setAccount (hP.balance _ (hP.nonce _ ?_))
  unfold accountOrNew
  rcases hacc : w.accounts a with _ | u
  · rw [Option.getD_none, h.stored_eq]
    exact hP.basic a nonce
  · exact h.holds a u hacc

namespace TXExecutor

/-! ## The checks -/

/-- What the gas of the transaction costs. -/
def gasCost (tx : Transaction) (options : TransactOptions) : ℕ :=
  if options.check_settings.charge_gas then tx.gas.toNat * tx.gas_price.toNat else 0

omit [Keccak] in
theorem toNat_gas_cost (tx : Transaction) (options : TransactOptions) :
    (gas_cost tx options).toNat = gasCost tx options := by
  unfold gas_cost gasCost
  split
  · exact U256.toNat_full_mul _ _
  · exact BitVec.toNat_zero

/-- The top frame of the transaction, with the code that the ledger shows. -/
inductive TopFrame (g : Globals) (tx : Transaction) (nonce init_gas : U256) (w : Ledger) :
    CallCreateFrame → Prop
  | create (haction : tx.action = .Create) :
      TopFrame g tx nonce init_gas w (.new_create_raw (create_params tx nonce init_gas) 0 false)
  | call {address : Address} {code_hash : Option H256} (haction : tx.action = .Call address)
      (hhash : code_hash = (w.accounts address).map AccountView.code_hash) :
      TopFrame g tx nonce init_gas w
        (.new_call_raw g (call_params tx address init_gas (w.codeOf address) code_hash) 0 false)

theorem top_frame_spec {nonce init_gas : U256} (hrep : Rep db saved t.state w) :
    wp (top_frame g tx nonce init_gas) (fun _ => False) (fun r t' => Rep db saved t'.state w ∧
      (∀ frame, r = .ok frame → TopFrame g tx nonce init_gas w frame) ∧
      ∀ e, r = .error e → ¬∀ a v, w.accounts a = some v → v.CodeOk a) t := by
  unfold top_frame
  rcases haction : tx.action with _ | address
  · refine ⟨hrep, ?_, by rintro _ ⟨⟩⟩
    rintro _ ⟨⟩
    exact .create haction
  · refine wp_bind.mpr (wp_onState (code_refines address) hrep
      (wp_post (Ledger.code_spec address w) ?_))
    rintro (e | code) _ ⟨rfl, hok, herr⟩ s₁ hrep₁
    · exact ⟨hrep₁, by rintro _ ⟨⟩, fun _ _ => herr e rfl⟩
    · obtain rfl := hok code rfl
      refine wp_bind.mpr (wp_onState (code_hash_refines address) (by exact hrep₁) (wp_gets.mpr ?_))
      intro s₂ hrep₂
      refine ⟨hrep₂, ?_, by rintro _ ⟨⟩⟩
      rintro _ ⟨⟩
      exact .call haction rfl

/-- What the checks come to, and the ledger they leave. -/
inductive Prechecked (g : Globals) (tx : Transaction) (options : TransactOptions) (w : Ledger) :
    PreCheckResult → Ledger → Prop
  | old_nonce (hnonce : tx.nonce.toNat < (w.nonceOf tx.sender).toNat) :
      Prechecked g tx options w
        (.Fail (.NotExecutedDrop (.OldNonce (w.nonceOf tx.sender) tx.nonce))) w
  | base_gas {base : ℕ} (hgas : tx.gas.toNat < base) :
      Prechecked g tx options w (.Fail (.NotExecutedDrop (.NotEnoughBaseGas base tx.gas.toNat))) w
  | reconsider (error : ToRepackError) :
      Prechecked g tx options w (.Fail (.NotExecutedToReconsiderPacking error)) w
  | not_enough_cash {cost : U256} (hnonce : w.nonceOf tx.sender = tx.nonce)
      (hcash : w.balances tx.sender < tx.value.toNat + gasCost tx options)
      (hcost : cost.toNat = min (gasCost tx options) (w.balances tx.sender))
      (hbump : (w.accountOrNew tx.sender g.spec.account_start_nonce).nonce.toNat + 1 < 2 ^ 256)
      {required got : U512} (hrequired : required.toNat = tx.value.toNat + gasCost tx options)
      (hgot : got.toNat = w.balances tx.sender) :
      Prechecked g tx options w
        (.Fail (.ExecutionErrorBumpNonce (.NotEnoughCash required got cost)
          (.not_enough_balance_fee_charged tx cost (options.observer.trace_internal_transfer
            (.Balance tx.sender) .GasPayment cost).drain)))
        (w.charged tx.sender g.spec.account_start_nonce cost)
  | pass {frame : CallCreateFrame} {mode : CleanupMode} {base : ℕ} {cost : U256}
      (hnonce : w.nonceOf tx.sender = tx.nonce)
      (hcash : tx.value.toNat + gasCost tx options ≤ w.balances tx.sender)
      (hcost : cost.toNat = gasCost tx options) (hbase : base ≤ tx.gas.toNat)
      (hbump : (w.accountOrNew tx.sender g.spec.account_start_nonce).nonce.toNat + 1 < 2 ^ 256)
      (hframe : TopFrame g tx (w.nonceOf tx.sender) (tx.gas - BitVec.ofNat 256 base)
        (w.charged tx.sender g.spec.account_start_nonce cost) frame) :
      Prechecked g tx options w
        (.Pass frame (Substate.new.set_touched mode) (options.observer.trace_internal_transfer
          (.Balance tx.sender) .GasPayment cost) base)
        (w.charged tx.sender g.spec.account_start_nonce cost)

section
omit [Keccak]

/-- What a balance covers is a word. -/
theorem exists_paid (hcash : tx.value.toNat + gasCost tx options ≤ w.balances tx.sender) :
    ∃ cost, U256.try_from (gas_cost tx options) = some cost ∧ cost.toNat = gasCost tx options := by
  have hlt : w.balances tx.sender < 2 ^ 256 := (w.balanceOf tx.sender).isLt
  rcases hcost : U256.try_from (gas_cost tx options) with _ | cost
  · have hle := U256.try_from_eq_none.mp hcost
    rw [toNat_gas_cost] at hle
    omega
  · exact ⟨cost, rfl, by rw [U256.try_from_eq_some.mp hcost, toNat_gas_cost]⟩

theorem checked_sub_base {base : ℕ} (hbase : base ≤ tx.gas.toNat) :
    U256.checked_sub tx.gas (BitVec.ofNat 256 base) = some (tx.gas - BitVec.ofNat 256 base) := by
  have hlt := tx.gas.isLt
  refine if_pos ?_
  rw [BitVec.toNat_ofNat, Nat.mod_eq_of_lt (by omega)]
  exact hbase

theorem toNat_lesser (x y : U512) : (if x.toNat ≤ y.toNat then x else y).toNat =
    min x.toNat y.toNat := by
  split
  · exact (min_eq_left ‹_›).symm
  · exact (min_eq_right (by omega)).symm

end

/-- The nonce is counted up and the cost is taken. -/
theorem bump_and_charge_spec {β : Type} {cost : U256} {mode : CleanupMode}
    (hrep : Rep db saved t.state w) {f : CleanupMode → TxM β}
    {Q : Except DbError β → TxState → Prop}
    (hf : ∀ mode' t', Rep db saved t'.state (w.charged tx.sender g.spec.account_start_nonce cost) →
      (w.accountOrNew tx.sender g.spec.account_start_nonce).nonce.toNat + 1 < 2 ^ 256 →
      wp (f mode') (fun _ => True) Q t') :
    wp (onState (State.inc_nonce tx.sender g.spec.account_start_nonce) >>= fun _ =>
      onState (State.sub_balance tx.sender cost mode) >>= f) (fun _ => True) Q t := by
  refine wp_bind.mpr (wp_onState (inc_nonce_refines _ _) hrep
    (wp_post (Ledger.inc_nonce_spec _ _ w) ?_))
  rintro _ w₁ ⟨rfl, hbump, rfl⟩ s₁ hrep₁
  refine wp_bind.mpr (wp_onState (sub_balance_refines _ _ _) (by exact hrep₁)
    (wp_post (Ledger.sub_balance_debits _ _ _ _) ?_))
  rintro (e | mode') w₂ ⟨hok, herr⟩ s₂ hrep₂
  · -- The account was just written, so it is there.
    have hnone := (herr e rfl).2.2
    rw [Ledger.setAccount_same] at hnone
    cases hnone
  · obtain rfl := (hok mode' rfl).charged
    exact hf mode' _ hrep₂ hbump

theorem not_enough_cash_spec {sender_balance total_cost : U512} (hrep : Rep db saved t.state w)
    (hnonce : w.nonceOf tx.sender = tx.nonce)
    (hbalance : sender_balance.toNat = w.balances tx.sender)
    (htotal : total_cost.toNat = tx.value.toNat + gasCost tx options)
    (hcash : w.balances tx.sender < tx.value.toNat + gasCost tx options) :
    wp (not_enough_cash g tx options (gas_cost tx options) sender_balance total_cost)
      (fun _ => True)
      (fun r t' => ∃ pre w', r = .ok pre ∧ Rep db saved t'.state w' ∧
        Prechecked g tx options w pre w') t := by
  refine wp_bind.mpr (wp_expect (fun _ => trivial) fun cost hcost => ?_)
  have hcost := U256.try_from_eq_some.mp hcost
  refine wp_bind.mpr (wp_onState (exists_refines _) hrep (wp_gets.mpr ?_))
  intro s₁ hrep₁
  refine wp_ite (fun _ => ?_) fun _ => ?_
  · exact ⟨_, w, rfl, hrep₁, .reconsider _⟩
  · refine bump_and_charge_spec (by exact hrep₁) fun mode' t' hrep' hbump => ?_
    refine ⟨_, _, rfl, hrep', .not_enough_cash hnonce hcash ?_ hbump htotal hbalance⟩
    rw [hcost, toNat_lesser, toNat_gas_cost, hbalance]

theorem charge_spec {base : ℕ} (hrep : Rep db saved t.state w)
    (hnonce : w.nonceOf tx.sender = tx.nonce) (hbase : base ≤ tx.gas.toNat)
    (hcash : tx.value.toNat + gasCost tx options ≤ w.balances tx.sender) :
    wp (charge g tx options (w.nonceOf tx.sender) base (gas_cost tx options)) (fun _ => True)
      (fun r t' => ∃ w', Rep db saved t'.state w' ∧
        (∀ pre, r = .ok pre → Prechecked g tx options w pre w') ∧
        ∀ e, r = .error e → ¬∀ a v, w.accounts a = some v → v.CodeOk a) t := by
  obtain ⟨cost, hpaid, hcost⟩ := exists_paid hcash
  unfold charge
  rw [hpaid]
  refine bump_and_charge_spec hrep fun mode' t' hrep' hbump => ?_
  refine wp_bind.mpr (wp_expect (fun _ => trivial) fun init_gas hinit => ?_)
  obtain rfl := Option.some.inj ((checked_sub_base hbase).symm.trans hinit)
  refine wp_bind.mpr (wp_mono (top_frame_spec hrep') (fun _ h => h.elim) ?_)
  rintro (e | frame) t₂ ⟨hrep₂, hok, herr⟩
  · refine ⟨_, hrep₂, by rintro _ ⟨⟩, fun _ _ hcodes => herr e rfl ?_⟩
    have hall : w.All w.stored AccountView.CodeOk := ⟨rfl, hcodes⟩
    exact (hall.charged (codeOk_lasting w.stored) _ _ _).holds
  · refine ⟨_, hrep₂, ?_, by rintro _ ⟨⟩⟩
    rintro _ ⟨⟩
    exact .pass hnonce hcash hcost hbase hbump (hok frame rfl)

/-- The checks leave a ledger as `Prechecked` says; they fail only if a code is missing. -/
theorem transact_preprocessing_spec (hrep : Rep db saved t.state w) :
    wp (transact_preprocessing g tx options) (fun _ => True) (fun r t' => ∃ w',
      Rep db saved t'.state w' ∧ (∀ pre, r = .ok pre → Prechecked g tx options w pre w') ∧
      ∀ e, r = .error e → ¬∀ a v, w.accounts a = some v → v.CodeOk a) t := by
  refine wp_bind.mpr (wp_onState (nonce_refines _) hrep (wp_gets.mpr ?_))
  intro s₁ hrep₁
  refine wp_ite (fun hold => ?_) fun hold => wp_ite (fun _ => ?_) fun hnew => ?_
  · refine ⟨w, hrep₁, ?_, by rintro _ ⟨⟩⟩
    rintro _ ⟨⟩
    exact .old_nonce hold
  · refine ⟨w, hrep₁, ?_, by rintro _ ⟨⟩⟩
    rintro _ ⟨⟩
    exact .reconsider _
  have hnonce : w.nonceOf tx.sender = tx.nonce := BitVec.eq_of_toNat_eq (by omega)
  refine wp_bind.mpr (wp_expect (fun _ => trivial) fun base _ => ?_)
  refine wp_ite (fun hgas => ?_) fun hgas => ?_
  · refine wp_bind.mpr (wp_expect (fun _ => trivial) fun actual hactual => ?_)
    refine ⟨w, hrep₁, ?_, by rintro _ ⟨⟩⟩
    rintro _ ⟨⟩
    rw [(U256.as_u64_eq_some.mp hactual).2]
    exact .base_gas hgas
  refine wp_bind.mpr (wp_onState (balance_refines _) (by exact hrep₁) (wp_gets.mpr ?_))
  intro s₂ hrep₂
  refine wp_bind.mpr (wp_expect (fun _ => trivial) fun total htotal => ?_)
  have htotal : total.toNat = tx.value.toNat + gasCost tx options := by
    rw [U512.checked_add_eq_some htotal, U512.toNat_of_u256, toNat_gas_cost]
  have hbalance : (U512.of_u256 (w.balanceOf tx.sender)).toNat = w.balances tx.sender :=
    U512.toNat_of_u256 _
  refine wp_ite (fun hcash => ?_) fun hcash => ?_
  · rw [hbalance, htotal] at hcash
    refine wp_post (not_enough_cash_spec (by exact hrep₂) hnonce hbalance htotal hcash) ?_
    rintro _ t' ⟨pre, w', rfl, hrep', hpre⟩
    refine ⟨w', hrep', ?_, by rintro _ ⟨⟩⟩
    rintro _ ⟨⟩
    exact hpre
  · rw [hbalance, htotal, not_lt] at hcash
    exact charge_spec (by exact hrep₂) hnonce (by omega) hcash

/-! ## The settlement -/

end TXExecutor

/-- The gas that is refunded when `gas_left` is left. -/
def gasRefunded (tx : Transaction) (gas_left : U256) : ℕ :=
  if tx.gas.toNat - gas_left.toNat ≤ 3 * gas_left.toNat then tx.gas.toNat / 4 else gas_left.toNat

namespace TXExecutor

omit [Keccak] in
/-- The gas is split into what is charged and what is refunded. -/
theorem settle_yields (gas_left : U256) :
    Yields (fun p : U256 × U256 × U256 × U256 => ∃ refunded : U256,
        p.1.toNat + gas_left.toNat = tx.gas.toNat ∧
        p.2.1.toNat + refunded.toNat = tx.gas.toNat ∧ refunded.toNat = gasRefunded tx gas_left ∧
        p.2.2.1 = U256.saturating_mul p.2.1 tx.gas_price ∧
        p.2.2.2 = U256.saturating_mul refunded tx.gas_price) (settle tx gas_left) := by
  refine .bind (P := fun gas_used : U256 => gas_used.toNat + gas_left.toNat = tx.gas.toNat)
    (.expect fun gas_used hused => ?_) fun gas_used hused => ?_
  · exact U256.checked_sub_eq_some.mp hused
  refine .bind (P := fun twice : U256 => twice.toNat = gas_left.toNat + gas_left.toNat)
    (.expect fun twice htwice => ?_) fun twice htwice => ?_
  · exact U256.checked_add_eq_some.mp htwice
  refine .bind (P := fun thrice : U256 => thrice.toNat = twice.toNat + gas_left.toNat)
    (.expect fun thrice hthrice => ?_) fun thrice hthrice => ?_
  · exact U256.checked_add_eq_some.mp hthrice
  refine .ite (fun hle => ?_) fun hle => .pure ⟨gas_left, hused, hused, ?_, rfl, rfl⟩
  · refine .bind (P := fun charged : U256 => charged.toNat + (tx.gas >>> 2).toNat = tx.gas.toNat)
      (.expect fun charged hcharged => U256.checked_sub_eq_some.mp hcharged) fun charged hcharged =>
      .pure ⟨tx.gas >>> 2, hused, hcharged, ?_, rfl, rfl⟩
    rw [gasRefunded, if_pos (by omega), BitVec.toNat_ushiftRight, Nat.shiftRight_eq_div_pow]
  · rw [gasRefunded, if_neg (by omega)]

omit [Keccak] in
theorem settle_spec (gas_left : U256) (t : TxState) :
    wp (settle tx gas_left) (fun _ => True) (fun r t' => t = t' ∧ ∃ p, r = .ok p) t := by
  refine wp_bind.mpr (wp_expect (fun _ => trivial) fun _ _ => wp_bind.mpr
    (wp_expect (fun _ => trivial) fun _ _ =>
      wp_bind.mpr (wp_expect (fun _ => trivial) fun _ _ => ?_)))
  exact wp_ite (fun _ => wp_bind.mpr (wp_expect (fun _ => trivial) fun _ _ => ⟨rfl, _, rfl⟩))
    fun _ => ⟨rfl, _, rfl⟩

end TXExecutor

/-- The ledger after a destroyed contract is removed and what it held is burnt. -/
def Ledger.killed (w : Ledger) (a : Address) : Ledger :=
  { w.setAccount a .removed with
    total_issued_tokens := U256.saturating_sub w.total_issued_tokens (w.balanceOf a) }

/-- What the observers are shown while contracts are removed one after another. -/
def killsObserved : List Address → Ledger → MultiObservers → MultiObservers
  | [], _, observer => observer
  | a :: l, w, observer => killsObserved l (w.killed a)
      (observer.trace_internal_transfer (.Balance a) .MintBurn (w.balanceOf a))

namespace TXExecutor

theorem kill_spec (observer : MultiObservers) (a : Address) (hrep : Rep db saved t.state w) :
    wp (kill observer a) (fun _ => False) (fun r t' => Rep db saved t'.state (w.killed a) ∧
      r = .ok (observer.trace_internal_transfer (.Balance a) .MintBurn (w.balanceOf a))) t := by
  refine wp_bind.mpr (wp_onState (balance_refines a) hrep (wp_gets.mpr ?_))
  intro s₁ hrep₁
  refine wp_bind.mpr (wp_onState (remove_contract_refines a) (by exact hrep₁) (wp_update.mpr ?_))
  intro s₂ hrep₂
  refine wp_bind.mpr (wp_onState (subtract_total_issued_refines _) (by exact hrep₂)
    (wp_update.mpr ?_))
  intro s₃ hrep₃
  exact ⟨hrep₃, rfl⟩

theorem kills_spec (l : List Address) (observer : MultiObservers) (hrep : Rep db saved t.state w) :
    wp (l.foldlM kill observer) (fun _ => False) (fun r t' =>
      Rep db saved t'.state (l.foldl Ledger.killed w) ∧
        r = .ok (killsObserved l w observer)) t := by
  induction l generalizing observer w t with
  | nil => exact ⟨hrep, rfl⟩
  | cons a l ih =>
    rw [List.foldlM_cons]
    refine wp_bind.mpr (wp_post (kill_spec observer a hrep) ?_)
    rintro _ t' ⟨hrep', rfl⟩
    exact ih _ hrep'

/-- The outcome of a transaction with the result given. -/
inductive Concluded (tx : Transaction) (executed : Executed) :
    Except VmError FinalizationResult → ExecutionOutcome → Prop
  | failed (exception : VmError) : Concluded tx executed (.error exception)
      (.ExecutionErrorBumpNonce (.VmError exception)
        (.execution_error_fully_charged tx executed.trace))
  | applied {r : FinalizationResult} (happly : r.apply_state = true) :
      Concluded tx executed (.ok r) (.Finished executed)
  | reverted {r : FinalizationResult} (happly : r.apply_state = false) :
      Concluded tx executed (.ok r) (.ExecutionErrorBumpNonce (.VmError .Reverted) executed)

omit [Keccak] in
theorem outcome_spec (result : Except VmError FinalizationResult) (executed : Executed)
    (t : TxState) :
    wp (outcome tx result executed) (fun _ => False) (fun r t' => t' = t ∧
      (∀ o, r = .ok o → Concluded tx executed result o) ∧
      ∀ e, r = .error e → result = .error (.StateDbError e)) t := by
  unfold outcome
  split
  · exact ⟨rfl, by rintro _ ⟨⟩, by rintro _ ⟨⟩; rfl⟩
  · refine ⟨rfl, ?_, by rintro _ ⟨⟩⟩
    rintro _ ⟨⟩
    exact .failed _
  · rename_i r
    refine wp_ite (fun happly => ⟨rfl, ?_, by rintro _ ⟨⟩⟩) fun happly => ⟨rfl, ?_, by rintro _ ⟨⟩⟩
    · rintro _ ⟨⟩
      exact .applied happly
    · rintro _ ⟨⟩
      exact .reverted (by simpa using happly)

variable [HashOrder]

/-- What the end of a transaction does to the ledger, and what it reports. -/
structure Settled (g : Globals) (tx : Transaction) (output : FrameStackOutput) (w : Ledger)
    (refunded : U256) (executed : Executed) (w₁ w' : Ledger) : Prop where
  used : executed.gas_used.toNat + (gas_left output.result).toNat = tx.gas.toNat
  gas : executed.gas_charged.toNat + refunded.toNat = tx.gas.toNat
  refunded_eq : refunded.toNat = gasRefunded tx (gas_left output.result)
  fee : executed.fee = U256.saturating_mul executed.gas_charged tx.gas_price
  refund : Ledger.Received tx.sender (U256.saturating_mul refunded tx.gas_price)
    g.spec.account_start_nonce w w₁
  kills : w' = (HashOrder.iter output.substate.suicides).foldl Ledger.killed w₁
  logs : executed.logs = output.substate.logs
  contracts_created : executed.contracts_created = output.substate.contracts_created
  trace : executed.trace = (killsObserved (HashOrder.iter output.substate.suicides) w₁
    (output.observer.trace_internal_transfer .GasPayment (.Balance tx.sender)
      (U256.saturating_mul refunded tx.gas_price))).drain

/-- Nothing is refunded if nothing is left. -/
theorem Settled.nothing_left {output : FrameStackOutput} {refunded : U256} {executed : Executed}
    {w₁ : Ledger} (h : Settled g tx output w refunded executed w₁ w')
    (hleft : gas_left output.result = 0) : refunded = 0 := by
  have hrefunded := h.refunded_eq
  refine BitVec.eq_of_toNat_eq ?_
  rw [hrefunded, hleft, gasRefunded]
  simp only [BitVec.ofNat_eq_ofNat, BitVec.toNat_zero]
  split <;> omega

/-- What is charged and what is refunded is the cost of the gas. -/
theorem Settled.fee_refund {output : FrameStackOutput} {refunded : U256} {executed : Executed}
    {w₁ : Ledger} (h : Settled g tx output w refunded executed w₁ w')
    (hcost : tx.gas.toNat * tx.gas_price.toNat < 2 ^ 256) :
    executed.fee.toNat + (U256.saturating_mul refunded tx.gas_price).toNat =
      tx.gas.toNat * tx.gas_price.toNat := by
  have hsplit : executed.gas_charged.toNat * tx.gas_price.toNat +
      refunded.toNat * tx.gas_price.toNat = tx.gas.toNat * tx.gas_price.toNat := by
    rw [← Nat.add_mul, h.gas]
  rw [h.fee, U256.toNat_saturating_mul, U256.toNat_saturating_mul]
  omega

/-- Where nothing is left, all the gas is paid for. -/
theorem Settled.fully_charged {output : FrameStackOutput} {refunded : U256} {executed : Executed}
    {w₁ : Ledger} (h : Settled g tx output w refunded executed w₁ w')
    (hleft : gas_left output.result = 0) :
    executed.fee = U256.saturating_mul tx.gas tx.gas_price := by
  have hgas := h.gas
  rw [h.nothing_left hleft, BitVec.ofNat_eq_ofNat, BitVec.toNat_zero, Nat.add_zero] at hgas
  rw [h.fee, BitVec.eq_of_toNat_eq hgas]

/-- Every outcome reports the fee that was taken. -/
theorem Concluded.fee_eq {output : FrameStackOutput} {refunded : U256}
    {executed executed' : Executed}
    {w₁ : Ledger} {outcome : ExecutionOutcome} (h : Concluded tx executed output.result outcome)
    (hsettled : Settled g tx output w refunded executed w₁ w')
    (houtcome : outcome = .Finished executed' ∨
      ∃ error, outcome = .ExecutionErrorBumpNonce error executed') :
    executed'.fee = executed.fee := by
  generalize hresult : output.result = result at h
  cases h with
  | failed exception =>
    have hleft : gas_left output.result = 0 := by rw [hresult]; rfl
    rcases houtcome with h | ⟨_, h⟩ <;> cases h
    rw [hsettled.fully_charged hleft]
    rfl
  | applied => rcases houtcome with h | ⟨_, h⟩ <;> cases h; rfl
  | reverted => rcases houtcome with h | ⟨_, h⟩ <;> cases h; rfl

section
omit [Keccak] [HashOrder]

theorem suicides_set_touched (substate : Substate) (mode : CleanupMode) :
    (substate.set_touched mode).suicides = substate.suicides := by
  cases mode <;> rfl

theorem logs_set_touched (substate : Substate) (mode : CleanupMode) :
    (substate.set_touched mode).logs = substate.logs := by
  cases mode <;> rfl

theorem created_set_touched (substate : Substate) (mode : CleanupMode) :
    (substate.set_touched mode).contracts_created = substate.contracts_created := by
  cases mode <;> rfl

end

theorem transact_postprocessing_spec (output : FrameStackOutput) (hrep : Rep db saved t.state w) :
    wp (transact_postprocessing g tx output) (fun _ => True) (fun r t' =>
      ∃ refunded executed w₁ w', Rep db saved t'.state w' ∧
        Settled g tx output w refunded executed w₁ w' ∧
        (∀ o, r = .ok o → Concluded tx executed output.result o) ∧
        ∀ e, r = .error e → output.result = .error (.StateDbError e)) t := by
  unfold transact_postprocessing
  have hbytes : wp (output_bytes output.result) (fun _ => True)
      (fun r t' => t = t' ∧ ∃ b, r = .ok b) t := by
    unfold output_bytes
    cases output.result with
    | error e => exact ⟨rfl, _, rfl⟩
    | ok res => exact wp_expect (fun _ => trivial) fun b _ => ⟨rfl, b, rfl⟩
  refine wp_bind.mpr (wp_post hbytes ?_)
  rintro _ _ ⟨rfl, bytes, rfl⟩
  have hestimate : wp (estimate output) (fun _ => True) (fun r t' => t = t' ∧
      ∃ b, r = .ok b) t := by
    unfold estimate
    cases output.observer.gas_man with
    | none => exact ⟨rfl, _, rfl⟩
    | some m => exact wp_bind.mpr (wp_expect (fun _ => trivial) fun b _ => ⟨rfl, _, rfl⟩)
  refine wp_bind.mpr (wp_post hestimate ?_)
  rintro _ _ ⟨rfl, limit, rfl⟩
  refine wp_bind.mpr (wp_post (wp_and (settle_spec (gas_left output.result) t)
    (settle_yields (gas_left output.result) t)) ?_)
  rintro _ _ ⟨⟨rfl, ⟨gas_used, gas_charged, fee, refund⟩, rfl⟩, hsettle⟩
  obtain ⟨refunded, hused, hgas, hleft, hfee, hrefund⟩ := hsettle _ rfl
  simp only at hused hgas hfee hrefund
  subst hfee hrefund
  refine wp_bind.mpr (wp_onState (add_balance_refines _ _ _ _) hrep
    (wp_post (Ledger.add_balance_received _ _ _ _ w) ?_))
  rintro _ w₁ ⟨mode, rfl, hreceived⟩ s₁ hrep₁
  refine wp_bind.mpr (wp_mono (kills_spec _ _ (by exact hrep₁)) (fun _ h => h.elim) ?_)
  rintro _ t₂ ⟨hrep₂, rfl⟩
  refine wp_mono (outcome_spec _ _ t₂) (fun _ h => h.elim) ?_
  rintro r _ ⟨rfl, hok, herr⟩
  refine ⟨refunded, _, w₁, _, hrep₂, ?_, hok, herr⟩
  rw [suicides_set_touched]
  exact ⟨hused, hgas, hleft, rfl, hreceived, rfl, logs_set_touched _ _,
    created_set_touched _ _, rfl⟩

/-! ## Whole transactions -/

/-- The frames of a transaction were run to the end. -/
structure FramesRun (g : Globals) (t₁ : TxState) (substate : Substate) (observer : MultiObservers)
    (base : ℕ) (frame : CallCreateFrame) (s : FrameStack) (r : Except VmError FrameReturn) :
    Prop where
  rounds : Rounds (FrameStack.step g)
    (.new t₁.state t₁.shared_cache substate observer base frame) s
  phase : s.phase = .LastRes (.Return r)
  stack : s.frame_stack = []

/-- What a transaction that was executed went through after the checks. -/
structure Executes (g : Globals) (tx : Transaction)
    (t₁ : TxState) (substate : Substate) (observer : MultiObservers) (base : ℕ)
    (frame : CallCreateFrame) (s : FrameStack) (r : Except VmError FrameReturn)
    (outcome : ExecutionOutcome) (t' : TxState) : Prop
    extends FramesRun g t₁ substate observer base frame s r where
  settles : (transact_postprocessing g tx (s.process_return r)).run
    ⟨s.host.state, s.host.shared_cache⟩ = .ok (.ok outcome, t')

theorem framesRun_of_run {fuel : ℕ} {t₁ t₂ : TxState} {substate : Substate}
    {observer : MultiObservers} {base : ℕ} {frame : CallCreateFrame} {output : FrameStackOutput}
    (h : (run_frames g fuel substate observer base frame).run t₁ = .ok (.ok (some output), t₂)) :
    ∃ s r, FramesRun g t₁ substate observer base frame s r ∧ output = s.process_return r ∧
      t₂ = ⟨s.host.state, s.host.shared_cache⟩ := by
  obtain ⟨s, hexec, rfl⟩ := run_zoom_eq_ok.mp h
  obtain ⟨r, hrounds, hphase, hstack, rfl⟩ := rounds_of_exec hexec
  exact ⟨s, r, ⟨hrounds, hphase, hstack⟩, rfl, rfl⟩

/-- A transaction fails in the checks, or its frames are run and it is settled. -/
theorem transact_inv {fuel : ℕ} {outcome : ExecutionOutcome} (hrep : Rep db saved t.state w)
    (hrun : (transact g tx fuel options).run t = .ok (.ok (some outcome), t')) :
    (∃ w', (transact_preprocessing g tx options).run t = .ok (.ok (.Fail outcome), t') ∧
        Prechecked g tx options w (.Fail outcome) w' ∧ Rep db saved t'.state w') ∨
      ∃ frame substate observer base w₁ t₁ s r,
        (transact_preprocessing g tx options).run t =
          .ok (.ok (.Pass frame substate observer base), t₁) ∧
        Prechecked g tx options w (.Pass frame substate observer base) w₁ ∧
        Rep db saved t₁.state w₁ ∧
        Executes g tx t₁ substate observer base frame s r outcome t' := by
  obtain ⟨pre, t₁, hpre, hrest⟩ := run_bind_eq_ok.mp hrun
  obtain ⟨w₁, hrep₁, hok, -⟩ := wp_of_run (transact_preprocessing_spec hrep) hpre
  cases pre with
  | Fail outcome =>
    cases hrest
    exact .inl ⟨w₁, hpre, hok _ rfl, hrep₁⟩
  | Pass frame substate observer base =>
    obtain ⟨result, t₂, hframes, hrest₂⟩ := run_bind_eq_ok.mp hrest
    cases result with
    | none => cases hrest₂
    | some output =>
      obtain ⟨o, t₃, hpost, hpure⟩ := run_bind_eq_ok.mp hrest₂
      cases hpure
      obtain ⟨s, r, hran, rfl, rfl⟩ := framesRun_of_run hframes
      exact .inr ⟨frame, substate, observer, base, w₁, t₁, s, r, hpre, hok _ rfl, hrep₁,
        hran, hpost⟩

/-- What a settled transaction comes to. -/
theorem Executes.settled {t₁ : TxState} {substate : Substate} {observer : MultiObservers} {base : ℕ}
    {frame : CallCreateFrame} {s : FrameStack} {r : Except VmError FrameReturn}
    {outcome : ExecutionOutcome} {w₂ : Ledger}
    (h : Executes g tx t₁ substate observer base frame s r outcome t')
    (hrep : Rep db saved s.host.state w₂) :
    ∃ refunded executed w₃ w', Rep db saved t'.state w' ∧
      Settled g tx (s.process_return r) w₂ refunded executed w₃ w' ∧
      Concluded tx executed (s.process_return r).result outcome := by
  obtain ⟨refunded, executed, w₃, w', hrep', hsettled, hok, -⟩ :=
    wp_of_run (transact_postprocessing_spec (s.process_return r) (by exact hrep)) h.settles
  exact ⟨refunded, executed, w₃, w', hrep', hsettled, hok _ rfl⟩

end TXExecutor

/-! ## Tests of one outcome -/

namespace ExecutionOutcome

/-- The transaction is finished, and what was executed passes the test. -/
def finished (test : Executed → Bool) : Option ExecutionOutcome → Bool
  | some (.Finished executed) => test executed
  | _ => false

/-- The transaction failed in its execution, and what was executed passes the test. -/
def bumped (test : Executed → Bool) : Option ExecutionOutcome → Bool
  | some (.ExecutionErrorBumpNonce _ executed) => test executed
  | _ => false

def dropped : Option ExecutionOutcome → Bool
  | some (.NotExecutedDrop _) => true
  | _ => false

variable {test : Executed → Bool} {outcome : Option ExecutionOutcome}

section
omit [Keccak]

theorem exists_of_finished (h : finished test outcome = true) :
    ∃ executed, outcome = some (.Finished executed) ∧ test executed = true := by
  unfold finished at h
  split at h
  · exact ⟨_, rfl, h⟩
  · cases h

theorem exists_of_bumped (h : bumped test outcome = true) :
    ∃ error executed, outcome = some (.ExecutionErrorBumpNonce error executed) ∧
      test executed = true := by
  unfold bumped at h
  split at h
  · exact ⟨_, _, rfl, h⟩
  · cases h

theorem exists_of_dropped (h : dropped outcome = true) :
    ∃ error, outcome = some (.NotExecutedDrop error) := by
  unfold dropped at h
  split at h
  · exact ⟨_, rfl⟩
  · cases h

end

end ExecutionOutcome

/-- The options of a transaction that is really executed, pays for its gas and is not traced. -/
def untraced : TransactOptions := ⟨.with_no_tracing, ⟨true, true⟩⟩

/-- The checks are passed, and the gas that they require passes the test. -/
def PreCheckResult.passes (test : CallCreateFrame → Substate → MultiObservers → Nat → Bool) :
    PreCheckResult → Bool
  | .Pass frame substate observer base => test frame substate observer base
  | .Fail _ => false

omit [Keccak] in
theorem PreCheckResult.exists_of_passes {test : CallCreateFrame → Substate →
    MultiObservers → Nat → Bool}
    {result : PreCheckResult} (h : result.passes test = true) :
    ∃ frame substate observer base, result = .Pass frame substate observer base ∧
      test frame substate observer base = true := by
  cases result with
  | Pass frame substate observer base => exact ⟨_, _, _, _, rfl, h⟩
  | Fail outcome => cases h

end CfxEvm
