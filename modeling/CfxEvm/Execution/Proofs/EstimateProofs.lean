import CfxEvm.Execution.Estimate
import CfxEvm.Execution.Proofs.ArithmeticProofs
import CfxEvm.Execution.Proofs.RunProofs
import CfxEvm.State.Proofs.TotalProofs

/-!
# Proofs: what a virtual execution leaves behind

The first pass runs in a checkpoint that is reverted when the transaction is finished, so that what
is set up for the sender is all that stays. With any other outcome of the first pass the function
returns at once.
-/

open Lib Lib.Prog

namespace CfxEvm

section
variable [Keccak]

/-- No checkpoint is open, and nothing has changed but what is set up for the sender: its balance
    and the total of issued tokens if it is made up, its nonce if the request has one. An account
    that was there keeps its content; one that was not may have come into being, without code. -/
structure LeftAsFound (request : EstimateRequest) (sender : Address) (s s' : State) : Prop where
  checkpoints : s'.checkpoints = []
  statistics : s'.world_statistics_checkpoints = []
  others : ∀ a, a ≠ sender → SameReadsAt a s s'
  code : (State.code sender).value s = (State.code sender).value s'
  balance : request.has_sender = true →
    (State.balance sender).value s = (State.balance sender).value s'
  total : request.has_sender = true → s'.total_issued_tokens = s.total_issued_tokens
  found : (State.exists sender).value s = .ok (.ok true) → SameContent sender s s' ∧
    (request.has_nonce = false → (State.nonce sender).value s = (State.nonce sender).value s')
  made : (State.exists sender).value s = .ok (.ok false) → SameReadsAt sender s s' ∨
    (State.exists sender).value s' = .ok (.ok true) ∧
    (State.code_hash sender).value s' = .ok (.ok (some KECCAK_EMPTY)) ∧
    ∀ k, (State.storage_at sender k).value s' = .ok (.ok (s.db.slots sender k))
  idle : request.has_sender = true → request.has_nonce = false → SameReads s s'

/-- The sender of a virtual execution. -/
def virtualSender (random_hex : Address) (tx : Transaction) (request : EstimateRequest) : Address :=
  if request.has_sender then tx.sender else random_hex

/-- The outcomes that a virtual execution gives for a first pass that is finished: it is finished,
    or the balance does not cover what the first pass estimates. -/
def ExecutionOutcome.OfFinishedPass : ExecutionOutcome → Prop
  | .Finished _ => True
  | .ExecutionErrorBumpNonce (.NotEnoughCash ..) executed => executed.estimated_gas_limit.isSome
  | _ => False

variable {g : Globals} {tx tx' : Transaction} {request : EstimateRequest} {random_hex : Address}
  {db : StateDb} {saved : List Ledger} {w w' : Ledger} {t t' : TxState}

/-! ## The set-up -/

/-- The ledgers differ in what is set up for the sender `a`. -/
structure Ledger.SetUp (request : EstimateRequest) (a : Address) (w w' : Ledger) : Prop where
  others : ∀ b, b ≠ a → w'.accounts b = w.accounts b
  stored : w'.stored = w.stored
  found : ∀ v, w.accounts a = some v → ∃ balance nonce,
    w'.accounts a = some { v with balance := balance, nonce := nonce } ∧
      (request.has_nonce = false → nonce = v.nonce)
  made : w.accounts a = none → w'.accounts a = none ∨
    ∃ balance nonce, w'.accounts a = some (.basic balance nonce (w.stored a))
  balance : request.has_sender = true → w'.balanceOf a = w.balanceOf a
  total : request.has_sender = true → w'.total_issued_tokens = w.total_issued_tokens
  idle : request.has_sender = true → request.has_nonce = false → w' = w

theorem Ledger.SetUp.trans {a : Address} {w₁ : Ledger} (h : SetUp request a w w₁)
    (h' : SetUp request a w₁ w') : SetUp request a w w' where
  others b hb := (h'.others b hb).trans (h.others b hb)
  stored := h'.stored.trans h.stored
  found v hv := by
    obtain ⟨balance, nonce, hv₁, hnonce⟩ := h.found v hv
    obtain ⟨balance', nonce', hv', hnonce'⟩ := h'.found _ hv₁
    exact ⟨balance', nonce', hv', fun hn => (hnonce' hn).trans (hnonce hn)⟩
  made hnone := by
    rcases h.made hnone with h₁ | ⟨balance, nonce, h₁⟩
    · exact h.stored ▸ h'.made h₁
    · obtain ⟨balance', nonce', h', -⟩ := h'.found _ h₁
      exact .inr ⟨balance', nonce', h'⟩
  balance hs := (h'.balance hs).trans (h.balance hs)
  total hs := (h'.total hs).trans (h.total hs)
  idle hs hn := (h'.idle hs hn).trans (h.idle hs hn)

theorem Ledger.SetUp.refl (request : EstimateRequest) (a : Address) (w : Ledger) :
    SetUp request a w w where
  others _ _ := rfl
  stored := rfl
  found v hv := ⟨v.balance, v.nonce, hv, fun _ => rfl⟩
  made hnone := .inl hnone
  balance _ := rfl
  total _ := rfl
  idle _ _ := rfl

/-- An account is written with another balance or nonce, as the request has it. -/
theorem Ledger.SetUp.setAccount {a : Address} (nonce : U256) {balance n : U256}
    (hbalance : request.has_sender = true → balance = (w.accountOrNew a nonce).balance)
    (hn : request.has_nonce = false → n = (w.accountOrNew a nonce).nonce)
    (hrequest : request.has_sender = true → request.has_nonce = true) :
    SetUp request a w
      (w.setAccount a { w.accountOrNew a nonce with balance := balance, nonce := n }) where
  others b hb := setAccount_of_ne hb _ w
  stored := rfl
  found v hv := by
    rw [setAccount_same]
    rw [accountOrNew, hv, Option.getD_some] at hn ⊢
    exact ⟨balance, n, rfl, hn⟩
  made hnone := by
    rw [setAccount_same, accountOrNew, hnone, Option.getD_none]
    exact .inr ⟨balance, n, rfl⟩
  balance hs := by
    apply BitVec.eq_of_toNat_eq
    rw [balanceOf, setAccount_same, Option.map_some, Option.getD_some, hbalance hs]
    exact w.balance_accountOrNew a nonce
  total _ := rfl
  idle hs hn := by
    rw [hrequest hs] at hn
    cases hn

namespace TXExecutor

theorem onState_add_total_issued {v : U256} (hrep : Rep db saved t.state w)
    (hrun : (onState (State.add_total_issued v)).run t = .ok (.ok (), t')) :
    ∃ total, Rep db saved t'.state { w with total_issued_tokens := total } := by
  obtain ⟨s', hadd, rfl⟩ := run_zoom_eq_ok.mp hrun
  refine add_total_issued_spec (x := ⟨w, saved⟩) (v := v) hrep ?_
  unfold final
  rw [hadd]
  rfl

theorem set_up_sender_spec (hrep : Rep db saved t.state w)
    (hrun : (set_up_sender g random_hex tx request).run t = .ok (.ok tx', t')) :
    tx'.sender = virtualSender random_hex tx request ∧ ∃ w', Rep db saved t'.state w' ∧
      Ledger.SetUp request tx'.sender w w' := by
  unfold set_up_sender at hrun
  unfold virtualSender
  rcases hs : request.has_sender with _ | _
  · simp only [hs, Bool.not_false, if_true] at hrun
    obtain ⟨mode, t₁, hadd, hrest⟩ := run_bind_eq_ok.mp hrun
    obtain ⟨_, t₂, htotal, hpure⟩ := run_bind_eq_ok.mp hrest
    cases hpure
    obtain ⟨w₁, hrep₁, hset⟩ : ∃ w₁, Rep db saved t₁.state w₁ ∧
        Ledger.SetUp request random_hex w w₁ := by
      refine wp_of_run (wp_onState (E := fun _ => True) (Q := fun _ t₁ => ∃ w₁,
        Rep db saved t₁.state w₁ ∧
        Ledger.SetUp request random_hex w w₁) (add_balance_refines _ _ _ _) hrep
        (wp_post (Ledger.add_balance_received _ _ _ _ w) ?_)) hadd
      rintro _ w₁ ⟨mode', rfl, ⟨-, rfl⟩ | ⟨-, rfl⟩⟩ s₁ hrep₁
      · exact ⟨_, hrep₁, .refl _ _ _⟩
      · exact ⟨_, hrep₁, .setAccount _ (by simp [hs]) (fun _ => rfl) (by simp [hs])⟩
    obtain ⟨total, hrep₂⟩ := onState_add_total_issued hrep₁ htotal
    refine ⟨rfl, _, hrep₂, hset.others, hset.stored, hset.found, hset.made, ?_, ?_, ?_⟩
    · simp [hs]
    · simp [hs]
    · simp [hs]
  · simp only [hs, Bool.not_true] at hrun
    cases hrun
    exact ⟨rfl, w, hrep, .refl _ _ w⟩

theorem set_up_nonce_spec (hrep : Rep db saved t.state w)
    (hrun : (set_up_nonce tx request).run t = .ok (.ok tx', t')) :
    tx'.sender = tx.sender ∧ ∃ w', Rep db saved t'.state w' ∧
      Ledger.SetUp request tx.sender w w' := by
  unfold set_up_nonce at hrun
  rcases hn : request.has_nonce with _ | _
  · simp only [hn] at hrun
    obtain ⟨nonce, t₁, hread, hpure⟩ := run_bind_eq_ok.mp hrun
    cases hpure
    refine ⟨rfl, w, ?_, .refl _ _ w⟩
    exact wp_of_run (wp_onState (E := fun _ => True) (Q := fun _ t₁ =>
      Rep db saved t₁.state w) (nonce_refines _) hrep
      (wp_gets.mpr fun s₁ hrep₁ => hrep₁)) hread
  · simp only [hn, if_true] at hrun
    obtain ⟨_, t₁, hset, hpure⟩ := run_bind_eq_ok.mp hrun
    cases hpure
    refine ⟨rfl, ?_⟩
    refine wp_of_run (wp_onState (E := fun _ => True) (Q := fun _ t₁ => ∃ w₁,
      Rep db saved t₁.state w₁ ∧
      Ledger.SetUp request tx.sender w w₁) (set_nonce_refines _ _) hrep
      (wp_bind.mpr (wp_gets.mpr (wp_update.mpr fun s₁ hrep₁ => ⟨_, hrep₁, ?_⟩)))) hset
    exact .setAccount tx.nonce (fun _ => rfl) (by simp [hn]) fun _ => hn

theorem set_up_spec {balance : U256} (hrep : Rep db saved t.state w)
    (hrun : (set_up g random_hex tx request).run t = .ok (.ok (tx', balance), t')) :
    tx'.sender = virtualSender random_hex tx request ∧ ∃ w', Rep db saved t'.state w' ∧
      Ledger.SetUp request tx'.sender w w' := by
  obtain ⟨tx₁, t₁, hsender, hrest⟩ := run_bind_eq_ok.mp hrun
  obtain ⟨tx₂, t₂, hnonce, hrest⟩ := run_bind_eq_ok.mp hrest
  obtain ⟨_, t₃, hread, hpure⟩ := run_bind_eq_ok.mp hrest
  cases hpure
  obtain ⟨hs₁, w₁, hrep₁, hset₁⟩ := set_up_sender_spec hrep hsender
  obtain ⟨hs₂, w₂, hrep₂, hset₂⟩ := set_up_nonce_spec hrep₁ hnonce
  refine ⟨hs₂.trans hs₁, w₂, ?_, ?_⟩
  · exact wp_of_run (wp_onState (E := fun _ => True) (Q := fun _ t₁ =>
      Rep db saved t₁.state w₂) (balance_refines _) hrep₂
      (wp_gets.mpr fun s₁ hrep₁ => hrep₁)) hread
  · rw [hs₂]
    exact hset₁.trans hset₂

variable [HashOrder] {fuel : ℕ}

/-- What a transaction that cannot be paid reports has no estimate. -/
theorem estimate_of_not_enough_cash {required got : U512} {cost : U256} {executed : Executed}
    {options : TransactOptions} (hrep : Rep db saved t.state w)
    (hrun : (transact g tx fuel options).run t =
      .ok (.ok (some (.ExecutionErrorBumpNonce (.NotEnoughCash required got cost) executed)), t')) :
    executed.estimated_gas_limit = none := by
  rcases transact_inv hrep hrun with ⟨w', -, hchecked, -⟩ |
    ⟨frame, substate, observer, base, w₁, t₁, s, r, -, hchecked, hrep₁, hexec⟩
  · cases hchecked with
    | not_enough_cash => rfl
  · obtain ⟨w₂, hrep₂, -⟩ := hexec.rep hrep₁
    obtain ⟨refunded, settled, w₃, w', -, -, hconcluded⟩ := hexec.settled hrep₂
    generalize (s.process_return r).result = result at hconcluded
    cases hconcluded

/-- The first pass leaves its checkpoint open. -/
theorem first_pass_spec {outcome : ExecutionOutcome} (hrep : Rep db saved t.state w)
    (hrun : (first_pass g tx fuel request).run t = .ok (.ok (some outcome), t')) :
    (∃ w', Rep db (w :: saved) t'.state w') ∧ ∀ required got cost executed,
      outcome = .ExecutionErrorBumpNonce (.NotEnoughCash required got cost) executed →
        executed.estimated_gas_limit = none := by
  obtain ⟨_, t₁, hopen, htransact⟩ := run_bind_eq_ok.mp hrun
  obtain ⟨s₁, hcheckpoint, hrep₁⟩ := checkpoint_spec (x := ⟨w, saved⟩) hrep
  obtain ⟨s₁', hopen', rfl⟩ := run_zoom_eq_ok.mp hopen
  obtain rfl : s₁ = s₁' := congrArg Prod.snd (Except.ok.inj (hcheckpoint.symm.trans hopen'))
  refine ⟨transact_rep (by exact hrep₁) htransact, ?_⟩
  rintro _ _ _ _ rfl
  exact estimate_of_not_enough_cash (by exact hrep₁) htransact

/-- Reverting the checkpoint of the first pass gives back the ledger it was opened on. -/
theorem revert_first_pass (hrep : Rep db (w :: saved) t.state w')
    (hrun : (onState State.revert_to_checkpoint).run t = .ok (.ok (), t')) :
    Rep db saved t'.state w := by
  obtain ⟨s₁, hrevert, hrep₁⟩ := revert_to_checkpoint_spec (x := ⟨w', w :: saved⟩) hrep
  obtain ⟨s₁', hrevert', rfl⟩ := run_zoom_eq_ok.mp hrun
  obtain rfl : s₁ = s₁' := congrArg Prod.snd (Except.ok.inj (hrevert.symm.trans hrevert'))
  exact hrep₁

section
omit [Keccak] [HashOrder]

theorem revise_keeps {executed : Executed} :
    wp (revise tx request executed) (fun _ => True) (fun _ t' => t' = t) t := by
  refine wp_ite (fun _ => ?_) fun _ => rfl
  exact wp_bind.mpr (wp_expect (fun _ => trivial) fun _ _ => rfl)

theorem gas_fee_keeps {executed : Executed} :
    wp (gas_fee tx request executed) (fun _ => True)
      (fun r t' => t' = t ∧ ∃ fee, r = .ok fee) t := by
  refine wp_ite (fun _ => ?_) fun _ => ⟨rfl, _, rfl⟩
  exact wp_bind.mpr (wp_expect (fun _ => trivial) fun _ _ => ⟨rfl, _, rfl⟩)

theorem recheck_keeps {balance : U256} {executed : Executed} :
    wp (recheck tx request balance executed) (fun _ => True) (fun _ t' => t' = t) t := by
  refine wp_ite (fun _ => wp_bind.mpr (wp_post gas_fee_keeps ?_)) fun _ => ?_
  · rintro _ t₁ ⟨rfl, fee, rfl⟩
    refine wp_ite (fun _ => rfl) fun _ => wp_bind.mpr ?_
    exact wp_assert (fun _ => trivial) fun _ => rfl
  · exact wp_bind.mpr (wp_assert (fun _ => trivial) fun _ => rfl)

end

/-- A virtual execution whose first pass is finished reverts it, so that only what was set up
    stays. -/
theorem transact_virtual_inv {outcome : ExecutionOutcome} (houtcome : outcome.OfFinishedPass)
    (hrep : Rep db saved t.state w)
    (hrun : (transact_virtual g random_hex tx fuel request).run t = .ok (.ok (some outcome), t')) :
    ∃ w', Rep db saved t'.state w' ∧
      Ledger.SetUp request (virtualSender random_hex tx request) w w' := by
  obtain ⟨⟨tx', balance⟩, t₁, hset, hrest⟩ := run_bind_eq_ok.mp hrun
  obtain ⟨hsender, w₁, hrep₁, hsetUp⟩ := set_up_spec hrep hset
  rw [hsender] at hsetUp
  obtain ⟨result, t₂, hfirst, hrest⟩ := run_bind_eq_ok.mp hrest
  rcases result with _ | first
  · cases hrest
  obtain ⟨⟨w₂, hrep₂⟩, hcash⟩ := first_pass_spec hrep₁ hfirst
  cases first with
  | Finished executed =>
    obtain ⟨_, t₃, hrevert, hrest⟩ := run_bind_eq_ok.mp hrest
    have hrep₃ := revert_first_pass hrep₂ hrevert
    obtain ⟨executed', t₄, hrevise, hrest⟩ := run_bind_eq_ok.mp hrest
    obtain ⟨o, t₅, hrecheck, hpure⟩ := run_bind_eq_ok.mp hrest
    obtain rfl := wp_of_run revise_keeps hrevise
    obtain rfl := wp_of_run recheck_keeps hrecheck
    cases hpure
    exact ⟨w₁, hrep₃, hsetUp⟩
  | NotExecutedDrop error =>
    cases hrest
    exact houtcome.elim
  | NotExecutedToReconsiderPacking error =>
    cases hrest
    exact houtcome.elim
  | ExecutionErrorBumpNonce error executed =>
    cases hrest
    cases error with
    | VmError error => exact houtcome.elim
    | NotEnoughCash required got cost =>
      -- The early return of the first pass: it reports no estimate.
      have hsome : executed.estimated_gas_limit.isSome = true := houtcome
      rw [hcash _ _ _ _ rfl] at hsome
      cases hsome

end TXExecutor

/-- As many checkpoints are open as ledgers are saved. -/
theorem Rep.checkpoints_length {s : State} (h : Rep db saved s w) :
    s.checkpoints.length = saved.length ∧ s.world_statistics_checkpoints.length = saved.length := by
  obtain ⟨owner, h⟩ := h
  have hunwind : ∀ cs cur, (unwind s.db cur cs).length = cs.length := by
    intro cs
    induction cs with
    | nil => exact fun _ => rfl
    | cons c cs ih =>
      intro cur
      rw [unwind, List.length_cons, List.length_cons, ih]
  have htotals := h.ok.totals
  have hsaved := congrArg List.length h.saved_eq
  rw [State.savedLedgers, List.length_zipWith, hunwind] at hsaved
  omega

/-- What is set up for the sender is all that is found changed. -/
theorem Ledger.SetUp.leftAsFound {a : Address} {s s' : State} (h : Ledger.SetUp request a w w')
    (hrep : Rep db [] s w) (hrep' : Rep db [] s' w') : LeftAsFound request a s s' where
  checkpoints := List.length_eq_zero_iff.mp hrep'.checkpoints_length.1
  statistics := List.length_eq_zero_iff.mp hrep'.checkpoints_length.2
  others b hb := sameReadsAt_of_rep hrep hrep' (h.others b hb)
  code := by
    rw [(code_refines a _ _).value_eq hrep, (code_refines a _ _).value_eq hrep']
    rcases hv : w.accounts a with _ | v
    · rcases h.made hv with hv' | ⟨balance, nonce, hv'⟩
      · simp only [Ledger.code, Ledger.account_with_code, Ledger.account, Prog.value, Prog.run_bind,
          Prog.run_gets, hv, hv']
        rfl
      · simp only [Ledger.code, Ledger.account_with_code, Ledger.account, Prog.value, Prog.run_bind,
          Prog.run_gets, hv, hv']
        simp [AccountView.basic, Except.map]
    · obtain ⟨balance, nonce, hv', -⟩ := h.found v hv
      have hcontent := sameContent_of_rep hrep hrep'
        (f := fun v => { v with balance := balance, nonce := nonce })
        (by rw [hv, hv', Option.map_some]) fun _ => ⟨rfl, rfl, rfl⟩
      rw [← (code_refines a _ _).value_eq hrep, ← (code_refines a _ _).value_eq hrep']
      exact hcontent.code
  balance hs := by
    rw [(balance_refines a _ _).value_eq hrep, (balance_refines a _ _).value_eq hrep']
    show Except.ok (Except.ok (w.balanceOf a)) = Except.ok (Except.ok (w'.balanceOf a))
    rw [h.balance hs]
  total hs := by
    rw [State.issued_eq hrep, State.issued_eq hrep']
    exact h.total hs
  found hex := by
    rw [(exists_refines a _ _).value_eq hrep] at hex
    obtain ⟨v, hv⟩ : ∃ v, w.accounts a = some v :=
      Option.isSome_iff_exists.mp (Except.ok.inj (Except.ok.inj hex))
    obtain ⟨balance, nonce, hv', hnonce⟩ := h.found v hv
    refine ⟨sameContent_of_rep hrep hrep'
      (f := fun v => { v with balance := balance, nonce := nonce })
      (by rw [hv, hv', Option.map_some]) fun _ => ⟨rfl, rfl, rfl⟩, fun hn => ?_⟩
    rw [(nonce_refines a _ _).value_eq hrep, (nonce_refines a _ _).value_eq hrep']
    show Except.ok (Except.ok (w.nonceOf a)) = Except.ok (Except.ok (w'.nonceOf a))
    rw [Ledger.nonceOf, Ledger.nonceOf, hv, hv', hnonce hn]
    rfl
  made hex := by
    rw [(exists_refines a _ _).value_eq hrep] at hex
    have hsome : (w.accounts a).isSome = false := Except.ok.inj (Except.ok.inj hex)
    have hv : w.accounts a = none := Option.isNone_iff_eq_none.mp (by simpa using hsome)
    rcases h.made hv with hv' | ⟨balance, nonce, hv'⟩
    · exact .inl (sameReadsAt_of_rep hrep hrep' (hv'.trans hv.symm))
    · refine .inr ⟨?_, ?_, fun k => ?_⟩
      · rw [(exists_refines a _ _).value_eq hrep']
        show Except.ok (Except.ok (w'.accounts a).isSome) = _
        rw [hv']
        rfl
      · rw [(code_hash_refines a _ _).value_eq hrep']
        show Except.ok (Except.ok ((w'.accounts a).map AccountView.code_hash)) = _
        rw [hv']
        rfl
      · rw [(storage_at_refines a k _ _).value_eq hrep']
        show Except.ok (Except.ok (w'.storageOf a k)) = _
        rw [Ledger.storageOf, hv']
        rw [← hrep.ledger_eq]
        rfl
  idle hs hn := sameReads_of_rep hrep (h.idle hs hn ▸ hrep')

namespace TXExecutor

/-- A virtual execution of a transaction on a state without open checkpoints leaves the state as it
    was found, whenever its first pass is finished: also if the balance is then found not to cover
    what it needs. -/
theorem virtual_execution_restores [HashOrder] {fuel : ℕ} {outcome : ExecutionOutcome}
    (hstate : t.state.Reachable) (hopen : t.state.checkpoints = [])
    (hrun : (transact_virtual g random_hex tx fuel request).run t = .ok (.ok (some outcome), t'))
    (houtcome : outcome.OfFinishedPass) :
    LeftAsFound request (virtualSender random_hex tx request) t.state t'.state := by
  obtain ⟨db, saved, w, hrep⟩ := hstate.rep
  obtain rfl : saved = [] := by
    have hlen := hrep.checkpoints_length.1
    rw [hopen] at hlen
    exact List.length_eq_zero_iff.mp hlen.symm
  obtain ⟨w', hrep', hset⟩ := transact_virtual_inv houtcome hrep hrun
  exact hset.leftAsFound hrep hrep'

end TXExecutor

end

section
attribute [local instance] keccakOfEmpty HashOrder.asListed

/-- A request in which everything but the storage limit is given. -/
def fullRequest : EstimateRequest := ⟨true, true, true, true, false⟩

/-- A call that is finished leaves the state as it was found. -/
theorem finished_call_restores :
    ∃ executed t',
      (TXExecutor.transact_virtual bareMachine 1 (unpricedCall 30000) 3 fullRequest).run
        fromEmpty = .ok (.ok (some (.Finished executed)), t') ∧
      LeftAsFound fullRequest 7 fromEmpty.state t'.state := by
  have hruns : (TXExecutor.transact_virtual bareMachine 1 (unpricedCall 30000) 3
      fullRequest).returns fromEmpty (fun outcome _ => ExecutionOutcome.finished (fun _ => true)
        outcome) = true := by decide +kernel
  obtain ⟨outcome, t', hrun, hfinished⟩ := exists_of_returns hruns
  obtain ⟨executed, rfl, -⟩ := ExecutionOutcome.exists_of_finished hfinished
  exact ⟨executed, t', hrun, TXExecutor.virtual_execution_restores ⟨.empty, [], _, rfl⟩ rfl hrun
    trivial⟩

/-- The nonce that is set up brings the sender into being, which stays after a call that is
    finished; and a call with too little gas, which is dropped, leaves a checkpoint open. -/
theorem virtual_calls_leave_traces :
    (∃ executed t', (TXExecutor.transact_virtual bareMachine 1 (unpricedCall 30000) 3
        fullRequest).run fromEmpty = .ok (.ok (some (.Finished executed)), t') ∧
      (State.exists 7).value fromEmpty.state ≠ (State.exists 7).value t'.state ∧
      (State.code_hash 7).value fromEmpty.state ≠ (State.code_hash 7).value t'.state) ∧
    ∃ error t', (TXExecutor.transact_virtual bareMachine 1 (unpricedCall 20000) 3 fullRequest).run
        fromEmpty = .ok (.ok (some (.NotExecutedDrop error)), t') ∧ t'.state.checkpoints ≠ [] := by
  have hfound : (State.exists 7).value fromEmpty.state = .ok (.ok false) ∧
      (State.code_hash 7).value fromEmpty.state = .ok (.ok none) := by decide +kernel
  constructor
  · have hruns : (TXExecutor.transact_virtual bareMachine 1 (unpricedCall 30000) 3
        fullRequest).returns fromEmpty (fun outcome t' => ExecutionOutcome.finished (fun _ =>
          (State.exists 7).value t'.state = .ok (.ok true) ∧
            (State.code_hash 7).value t'.state = .ok (.ok (some KECCAK_EMPTY))) outcome) =
                true := by
      decide +kernel
    obtain ⟨outcome, t', hrun, hfinished⟩ := exists_of_returns hruns
    obtain ⟨executed, rfl, hleft⟩ := ExecutionOutcome.exists_of_finished hfinished
    obtain ⟨hexists, hhash⟩ := of_decide_eq_true hleft
    rw [hfound.1, hfound.2]
    refine ⟨executed, t', hrun, ?_, ?_⟩
    · rw [hexists]
      decide
    · rw [hhash]
      decide
  · have hruns : (TXExecutor.transact_virtual bareMachine 1 (unpricedCall 20000) 3
        fullRequest).returns fromEmpty (fun outcome t' => ExecutionOutcome.dropped outcome &&
          !t'.state.checkpoints.isEmpty) = true := by decide +kernel
    obtain ⟨outcome, t', hrun, htest⟩ := exists_of_returns hruns
    obtain ⟨hdropped, hopen⟩ := (Bool.and_eq_true _ _).mp htest
    obtain ⟨error, rfl⟩ := ExecutionOutcome.exists_of_dropped hdropped
    exact ⟨error, t', hrun, by simpa using hopen⟩

end

end CfxEvm
