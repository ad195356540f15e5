import CfxEvm.Execution.Proofs.OwnJumpProofs
import CfxEvm.Execution.Proofs.ReplayProofs
import CfxEvm.Execution.Proofs.RunProofs
import CfxEvm.Frame.Proofs.CodeHashProofs
import CfxEvm.Frame.Proofs.GuardedRoundProofs
import CfxEvm.State.Proofs.CommitProofs

/-!
# Proofs: no errors of the database

Over a database that stores the codes of its accounts, every account that is written to exists, and
every code that is looked for is there: no transaction in any run ends with an error of the
database.
-/

open Lib Lib.Prog

namespace CfxEvm

section
variable [Keccak] [HashOrder] {g : Globals} {tx : Transaction} {options : TransactOptions}
  {db : StateDb} {saved : List Ledger} {w w' : Ledger} {t t' : TxState}

/-! ## The frames of a transaction -/

namespace TXExecutor

section
variable {S : Sites} {I : FrameStack → Prop} {E : Panic → Prop} {F : DbError → Prop}
  {t₁ : TxState} {w₁ : Ledger} {substate : Substate} {observer : MultiObservers} {base : ℕ}
  {frame : CallCreateFrame} {s : FrameStack}

/-- What is known of every stack that is reached from the top frame. -/
theorem Prechecked.follows (hS : S.Lawful g I)
    (hpre : Prechecked g tx options w (.Pass frame substate observer base) w₁)
    (hrep : Rep db saved t₁.state w₁) (hw : S.holds w₁)
    (hI : ∀ s₁, Rounds (FrameStack.step g)
      (.new t₁.state t₁.shared_cache substate observer base frame) s₁ → I s₁)
    (hrounds : Rounds (FrameStack.step g)
      (.new t₁.state t₁.shared_cache substate observer base frame) s) :
    (S.course g db).Follows saved w₁ [] substate s := by
  have hnew : S.effect.substate frame.substate := hpre.frame_substate ▸ S.effect.new
  have hstart : (S.course g db).Follows saved w₁ [] substate
      (.new t₁.state t₁.shared_cache substate observer base frame) :=
    Course.follows_enter (s := .new t₁.state t₁.shared_cache substate observer base frame) rfl hrep
      ⟨hw, hnew, hpre.entersAs hS hw⟩
  refine hstart.inside (hS.kept db) (fun s₁ hs₁ => hI s₁ ?_) (inside_of_rounds hrounds)
  exact Relation.ReflTransGen.mono (fun _ _ hnext => hnext.2) _ _ hs₁

/-- No result that is handed over is an error of the database. -/
theorem clean_of_rounds
    (hrounds : Rounds (FrameStack.step g)
      (.new t₁.state t₁.shared_cache substate observer base frame) s) : s.Clean := by
  refine hrounds.invariant (fun _ _ hclean hnext => hclean.round (round_of_next hnext)) ?_
  show True
  trivial

/-- The frames of a transaction panic and fail as the guards of the sites allow. -/
theorem run_frames_tame (hG : S.Guards E F) (hS : S.Lawful g I)
    (hpre : Prechecked g tx options w (.Pass frame substate observer base) w₁)
    (hrep : Rep db saved t₁.state w₁) (hw : S.holds w₁)
    (hI : ∀ s₁, Rounds (FrameStack.step g)
      (.new t₁.state t₁.shared_cache substate observer base frame) s₁ → I s₁) (fuel : ℕ) :
    Tame E F (run_frames g fuel substate observer base frame) t₁ := by
  refine wp_zoom.mpr (tame_loop (fun s hrounds => ?_) fuel)
  exact hG.step hS (hpre.follows hS hrep hw hI hrounds) (clean_of_rounds hrounds) (hI s hrounds)

end

end TXExecutor

/-! ## Codes and accounts that are there -/

/-- Code runs at addresses with an account, among accounts with the codes of their hashes. -/
def securedSites (stored : Address → Bytes → U256) : Sites :=
  { lastingSites stored AccountView.Coded with runsAt := fun a w => (w.accounts a).isSome = true }

variable {stored : Address → Bytes → U256}

section
omit [HashOrder]

theorem securedSites_lawful {I : FrameStack → Prop} : (securedSites stored).Lawful g I :=
  have hlawful : (lastingSites stored AccountView.Coded).Lawful g I := coded_lawful
  { lasts := hlawful.lasts
    stays := by
      intro w w' a hlasts ha
      show (w'.accounts a).isSome = true
      rcases hacc : w'.accounts a with _ | v
      · have ha : (w.accounts a).isSome = true := ha
        rw [hlasts.grows a hacc] at ha
        cases ha
      · rfl
    found := by
      intro w a c _ hc
      refine .inl ?_
      show (w.accounts a).isSome = true
      rcases hacc : w.accounts a with _ | v
      · rw [Ledger.codeOf, hacc] at hc
        cases hc
      · rfl
    created := fun _ _ _ h => h
    pre_exec_call := hlawful.pre_exec_call
    pre_exec_create := hlawful.pre_exec_create
    writes := fun _ => hlawful.writes (w := ⟨fun _ => none, 0, stored⟩) trivial
    init_code := fun _ => hlawful.init_code (w := ⟨fun _ => none, 0, stored⟩) trivial
    functions := hlawful.functions
    deploy := hlawful.deploy
    note_created := hlawful.note_created }

omit [Keccak] in
/-- A balance that is not zero is the one of an account. -/
theorem Ledger.exists_of_balance {a : Address} {v : U256} (h : v.toNat ≤ w.balances a)
    (hv : v ≠ 0) :
    w.accounts a ≠ none := by
  intro hnone
  have hzero : w.balances a = 0 := by
    unfold Ledger.balances Ledger.balanceOf
    rw [hnone]
    rfl
  exact hv (BitVec.eq_of_toNat_eq (by rw [BitVec.ofNat_eq_ofNat, BitVec.toNat_zero]; omega))

omit [Keccak] in
/-- An existing account is changed without an error. -/
theorem Ledger.modify_existing_tame {a : Address} (ha : (w.accounts a).isSome = true)
    (f : AccountView → Except Panic AccountView) :
    Tame (fun _ => True) (fun _ => False) (Ledger.modify_existing a f) w := by
  obtain ⟨v, hv⟩ := Option.isSome_iff_exists.mp ha
  refine wp_bind.mpr (wp_gets.mpr ?_)
  simp only [hv]
  show Tame _ _ (Ledger.write_account a (f v)) w
  unfold Ledger.write_account
  cases f v with
  | error p => trivial
  | ok u => exact fun _ h => nomatch h

/-- There no operation fails. -/
theorem securedSites_guards :
    (securedSites stored).Guards (fun _ => True) fun _ => False where
  panic _ := trivial
  sub_balance _ hle mode := by
    refine Tame.of_wp (Ledger.sub_balance_debits _ _ mode _) fun e s' h => ?_
    obtain ⟨-, hv, hnone⟩ := h.2 e rfl
    exact Ledger.exists_of_balance hle hv hnone
  transfer_balance _ hle b mode nonce := by
    refine Tame.of_wp (Ledger.transfer_balance_sent _ b _ nonce mode _) fun e s' h => ?_
    obtain ⟨-, hv, hnone⟩ := h.2 e rfl
    exact Ledger.exists_of_balance hle hv hnone
  code hw a := by
    have hrun := run_account_with_code (a := a) fun v hv => (hw.holds a v hv).code
    refine wp_intro (fun p hp => trivial) fun r s' hr e he => ?_
    rw [hrun] at hr
    subst he
    cases hr
  set_storage ha key value := by
    refine wp_bind.mpr (wp_gets.mpr (Tame.when fun _ => ?_))
    exact Ledger.modify_existing_tame ha _
  init_code ha code := Ledger.modify_existing_tame (ha.elim id id) _

end

/-! ## What a transaction leaves -/

section
variable {P : Address → AccountView → Prop}

section
omit [HashOrder]

theorem Ledger.Received.lasts (hP : Lasting stored P) {a : Address} {v nonce : U256}
    (h : Ledger.Received a v nonce w w') : Ledger.Lasts stored P w w' := by
  rcases h with ⟨-, rfl⟩ | ⟨-, rfl⟩
  · exact refl_of (Ledger.Lasts stored P) _
  · refine Ledger.Lasts.setAccount fun hw => hP.balance _ ?_
    unfold Ledger.accountOrNew
    rcases hacc : w.accounts a with _ | u
    · rw [Option.getD_none, hw.stored_eq]
      exact hP.basic a nonce
    · exact hw.holds a u hacc

theorem Ledger.lasts_charged (hP : Lasting stored P) (w : Ledger) (a : Address)
    (nonce cost : U256) :
    Ledger.Lasts stored P w (w.charged a nonce cost) := by
  refine Ledger.Lasts.setAccount fun hw => hP.balance _ (hP.nonce _ ?_)
  unfold Ledger.accountOrNew
  rcases hacc : w.accounts a with _ | u
  · rw [Option.getD_none, hw.stored_eq]
    exact hP.basic a nonce
  · exact hw.holds a u hacc

theorem Ledger.lasts_kills (hremoved : ∀ a, P a .removed) (l : List Address) (w : Ledger) :
    Ledger.Lasts stored P w (l.foldl Ledger.killed w) := by
  induction l generalizing w with
  | nil => exact refl_of (Ledger.Lasts stored P) _
  | cons a l ih =>
    have hset : Ledger.Lasts stored P w (w.setAccount a .removed) := .setAccount fun _ => hremoved a
    have hkilled : Ledger.Lasts stored P w (w.killed a) :=
      ⟨hset.grows, fun hw => ⟨(hset.all hw).stored_eq, (hset.all hw).holds⟩⟩
    exact trans_of (Ledger.Lasts stored P) hkilled (ih (w.killed a))

end

namespace TXExecutor

variable {fuel : ℕ} {outcome : ExecutionOutcome}

omit [HashOrder] in
theorem Prechecked.lasts (hP : Lasting stored P) {pre : PreCheckResult}
    (h : Prechecked g tx options w pre w') : Ledger.Lasts stored P w w' := by
  cases h with
  | not_enough_cash => exact w.lasts_charged hP _ _ _
  | pass => exact w.lasts_charged hP _ _ _
  | _ => exact refl_of (Ledger.Lasts stored P) w

/-- What lasts, and new and removed contracts have, every account has after a transaction as
    before. -/
theorem transact_lasts (hP : Lasting stored P) (hnew : ∀ a balance nonce invalidated,
      P a (.contract a balance nonce invalidated (stored a))) (hremoved : ∀ a, P a .removed)
    (hrep : Rep db saved t.state w) (hw : w.All stored P)
    (hrun : (transact g tx fuel options).run t = .ok (.ok (some outcome), t')) :
    ∃ w', Rep db saved t'.state w' ∧ Ledger.Lasts stored P w w' := by
  rcases transact_inv hrep hrun with ⟨w', -, hchecked, hrep'⟩ |
    ⟨frame, substate, observer, base, w₁, t₁, s, r, -, hchecked, hrep₁, hexec⟩
  · exact ⟨w', hrep', hchecked.lasts hP⟩
  · have hlasts₁ := hchecked.lasts hP
    obtain ⟨w₂, hrep₂, hlasts₂, -⟩ :=
      hexec.effect (I := fun _ => True) (hP.sites_lawful hnew) hchecked
      hrep₁ (hlasts₁.all hw) fun _ _ => trivial
    obtain ⟨refunded, executed, w₃, w', hrep', hsettled, -⟩ := hexec.settled hrep₂
    have hlasts₃ : Ledger.Lasts stored P w₂ w₃ := hsettled.refund.lasts hP
    refine ⟨w', hrep', ?_⟩
    rw [hsettled.kills]
    exact trans_of _ (trans_of _ hlasts₁ hlasts₂) (trans_of _ hlasts₃ (w₃.lasts_kills hremoved _))

end TXExecutor

end

/-! ## Runs -/

/-- The codes that the accounts of the database have are stored, and the state shows them. -/
def TxState.Secured (t : TxState) : Prop :=
  t.state.db.CodesStored ∧
    ∃ w, Rep t.state.db [] t.state w ∧ w.All t.state.db.slots AccountView.Coded

omit [HashOrder] in
theorem TxState.secured_new {cache : SharedCache} (hdb : db.CodesStored) :
    TxState.Secured ⟨State.new db, cache⟩ :=
  ⟨hdb, _, rep_new db, coded_of_stored hdb _⟩

/-- A transaction or a commit keeps that. -/
theorem TxState.Secured.step {I : Globals → FrameStack → Prop} (h : t.Secured)
    (hstep : TxStep I t t') :
    t'.Secured := by
  obtain ⟨hdb, w, hrep, hw⟩ := h
  cases hstep with
  | transact hrun hstacks =>
    obtain ⟨w', hrep', hlasts⟩ := TXExecutor.transact_lasts (coded_lasting _)
      (fun a balance nonce invalidated => coded_contract a balance nonce invalidated _)
        coded_removed
      hrep hw hrun
    have hsame : t'.state.db = t.state.db := by
      obtain ⟨owner, hrep'⟩ := hrep'
      exact hrep'.db_eq
    unfold TxState.Secured
    rw [hsame]
    exact ⟨hdb, w', hrep', hlasts.all hw⟩
  | @commit s hrun ht =>
    subst ht
    obtain ⟨owner, hrep⟩ := hrep
    have hcode : w.All t.state.db.slots AccountView.CodeOk :=
      ⟨hw.stored_eq, fun a v hv => (hw.holds a v hv).code⟩
    have hstored := codesStored_commit hrep hdb hcode hrun
    obtain ⟨-, -, hcache, hreads, hcs, hts, -⟩ := commit_inv hrun
    exact ⟨hstored, _, rep_of_empty hcache hcs hts hreads, coded_of_stored hstored _⟩

theorem TxState.Secured.steps {I : Globals → FrameStack → Prop} (h : t.Secured)
    (hsteps : TxSteps I t t') : t'.Secured := by
  induction hsteps with
  | refl => exact h
  | tail _ hstep ih => exact ih.step hstep

namespace TXExecutor

/-- A transaction does not end with an error of the database. -/
theorem transact_secured (h : t.Secured) (fuel : ℕ) :
    Tame (fun _ => True) (fun _ => False) (transact g tx fuel options) t := by
  obtain ⟨-, w, hrep, hw⟩ := h
  refine Tame.bind ?_ fun pre t₁ hpre => ?_
  · refine Tame.of_wp (transact_preprocessing_spec hrep) fun e t₁ hspec => ?_
    obtain ⟨w₁, -, -, herror⟩ := hspec
    exact herror e rfl fun a v hv => (hw.holds a v hv).code
  obtain ⟨w₁, hrep₁, hchecked, -⟩ := wp_of_run (transact_preprocessing_spec hrep) hpre
  have hchecked := hchecked _ rfl
  cases pre with
  | Fail outcome => exact .pure _
  | Pass frame substate observer base =>
    have hw₁ := (hchecked.lasts (coded_lasting _)).all hw
    refine Tame.bind (run_frames_tame (I := fun _ => True) securedSites_guards securedSites_lawful
      hchecked hrep₁ hw₁ (fun _ _ => trivial) fuel) fun output t₂ hframes => ?_
    cases output with
    | none => exact .pure _
    | some output =>
      obtain ⟨s, r, hran, rfl, rfl⟩ := framesRun_of_run hframes
      obtain ⟨w₂, hrep₂, -⟩ := hran.rep hrep₁
      refine Tame.bind ?_ fun _ _ _ => .pure _
      refine Tame.of_wp (transact_postprocessing_spec (s.process_return r) (by exact hrep₂))
        fun e t₃ hspec => ?_
      obtain ⟨-, -, -, -, -, -, -, herror⟩ := hspec
      -- The result of the top frame is no error of the database.
      have hclean := clean_of_rounds hran.rounds
      simp only [FrameStack.Clean, hran.phase] at hclean
      have hresult := herror e rfl
      rcases r with err | ret
      · obtain rfl : err = .StateDbError e := Except.error.inj hresult
        exact hclean _ rfl trivial
      · cases hresult

/-- Stored codes suffice. After any transactions and commits over a database that stores the codes
    of its accounts, the database does so again, and whatever transaction comes next, no round of
    its frames and no part of it ends with an error of the database, and its outcome does not name
    one. -/
theorem stored_codes_suffice (hdb : db.CodesStored) {cache : SharedCache}
    (hsteps : TxSteps (fun _ _ => True) ⟨State.new db, cache⟩ t) (g : Globals) (tx : Transaction)
    (options : TransactOptions) :
    t.state.db.CodesStored ∧
      (∀ s, Executing g tx options t s → ∀ e s', (FrameStack.step g).run s ≠ .ok (.error e, s')) ∧
      ∀ fuel r t', (transact g tx fuel options).run t = .ok (r, t') → ∃ outcome, r = .ok outcome ∧
        ∀ e executed, outcome ≠
          some (.ExecutionErrorBumpNonce (.VmError (.StateDbError e)) executed) := by
  have hsecured : t.Secured := (TxState.secured_new hdb).steps hsteps
  refine ⟨hsecured.1, ?_, ?_⟩
  · rintro s ⟨frame, substate, observer, base, t₁, hpre, hrounds⟩ e s' hrun
    obtain ⟨-, w, hrep, hw⟩ := hsecured
    obtain ⟨w₁, hrep₁, hchecked, -⟩ := wp_of_run (transact_preprocessing_spec hrep) hpre
    have hchecked := hchecked _ rfl
    have hfollows := hchecked.follows (I := fun _ => True) securedSites_lawful hrep₁
      ((hchecked.lasts (coded_lasting _)).all hw) (fun _ _ => trivial) hrounds
    have htame := securedSites_guards.step (I := fun _ => True) securedSites_lawful hfollows
      (clean_of_rounds hrounds) trivial
    exact wp_of_run htame hrun e rfl
  · intro fuel r t' hrun
    rcases r with e | outcome
    · exact absurd (wp_of_run (transact_secured hsecured fuel) hrun e rfl) id
    refine ⟨outcome, rfl, ?_⟩
    rintro e executed rfl
    obtain ⟨-, w, hrep, hw⟩ := hsecured
    rcases transact_inv hrep hrun with ⟨w', -, hchecked, -⟩ |
      ⟨frame, substate, observer, base, w₁, t₁, s, r, -, hchecked, hrep₁, hexec⟩
    · cases hchecked
    · obtain ⟨w₂, hrep₂, -⟩ := hexec.rep hrep₁
      obtain ⟨refunded, executed', w₃, w', -, -, hconcluded⟩ := hexec.settled hrep₂
      have hclean := clean_of_rounds hexec.rounds
      simp only [FrameStack.Clean, hexec.phase] at hclean
      have hresult : (s.process_return r).result = .error (.StateDbError e) := by
        generalize (s.process_return r).result = result at hconcluded
        cases hconcluded
        rfl
      rcases r with err | ret
      · obtain rfl : err = .StateDbError e := Except.error.inj hresult
        exact hclean _ rfl trivial
      · cases hresult

end TXExecutor

end

section
attribute [local instance] keccakOfStop HashOrder.asListed

/-- A contract is called, the state is committed, and it is called again. -/
theorem stored_stop_is_called_again :
    ∃ t, TxSteps (fun _ _ => True) ⟨.new stopContract, .new 100⟩ t ∧ t.state.db.CodesStored ∧
      ∀ fuel r t',
        (TXExecutor.transact bareMachine { stopCall with nonce := 1 } fuel untraced).run t =
        .ok (r, t') → ∃ outcome, r = .ok outcome := by
  have hruns : (TXExecutor.transact bareMachine stopCall 5 untraced).returns
      ⟨.new stopContract, .new 100⟩ (fun outcome t' => ExecutionOutcome.finished (fun _ =>
        (State.commit.final t'.state).isOk) outcome) = true := by
    decide +kernel
  obtain ⟨outcome, t₁, hrun, hfinished⟩ := exists_of_returns hruns
  obtain ⟨executed, rfl, hcommit⟩ := ExecutionOutcome.exists_of_finished hfinished
  rcases hs : State.commit.final t₁.state with p | s
  · rw [hs] at hcommit
    cases hcommit
  have hsteps : TxSteps (fun _ _ => True) ⟨.new stopContract, .new 100⟩ { t₁ with state := s } :=
    .tail (.single (.transact hrun fun _ _ => trivial)) (.commit hs rfl)
  obtain ⟨hstored, -, hnext⟩ :=
    TXExecutor.stored_codes_suffice stopContract_codes hsteps bareMachine
    { stopCall with nonce := 1 } untraced
  refine ⟨_, hsteps, hstored, fun fuel r t' hrun => ?_⟩
  obtain ⟨outcome, houtcome, -⟩ := hnext fuel r t' hrun
  exact ⟨outcome, houtcome⟩

end

end CfxEvm
