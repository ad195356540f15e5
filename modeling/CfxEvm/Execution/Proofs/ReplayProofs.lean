import CfxEvm.Execution.Proofs.RunProofs

/-!
# Proofs: no transaction is executed twice

A transaction that was executed has counted up the nonce of its sender. As long as no code runs at
the address of the sender and no contract is made there, the nonce never goes back, whatever other
transactions do and whenever the state is committed; so the transaction is dropped from then on.
-/

open Lib Lib.Prog

namespace CfxEvm

/-! ## Nonces that never go back -/

/-- No code is read at the address, or an empty one. -/
def Ledger.NoCode (w : Ledger) (a : Address) : Prop := ∀ c, w.codeOf a = some c → c = []

/-- No code comes to the address, and its nonce does not go back. -/
structure Ledger.Guards (a : Address) (w w' : Ledger) : Prop where
  code : w.NoCode a → w'.NoCode a
  nonce : (w.nonceOf a).toNat ≤ (w'.nonceOf a).toNat

section
variable [Keccak] {g : Globals} {a : Address} {w w' : Ledger}

instance (a : Address) : IsPreorder Ledger (Ledger.Guards a) where
  refl _ := ⟨id, le_rfl⟩
  trans _ _ _ h h' := ⟨h'.code ∘ h.code, h.nonce.trans h'.nonce⟩

namespace Ledger

omit [Keccak] in
/-- A ledger with the same accounts. -/
theorem Guards.of_accounts (h : w'.accounts a = w.accounts a) : Guards a w w' := by
  have hcode : w'.codeOf a = w.codeOf a := by
    unfold codeOf
    rw [h]
  have hnonce : w'.nonceOf a = w.nonceOf a := by
    unfold nonceOf
    rw [h]
  refine ⟨fun hno c hc => hno c (hcode ▸ hc), ?_⟩
  rw [hnonce]

omit [Keccak] in
theorem Guards.setAccount_ne {b : Address} (h : b ≠ a) (u : AccountView) :
    Guards a w (w.setAccount b u) :=
  .of_accounts (setAccount_of_ne h.symm u w)

/-- An account is written with the code it had or none, and with no lower nonce. -/
theorem Guards.setAccount {b : Address} (nonce : U256) {u : AccountView}
    (hcode : u.code = (w.accountOrNew b nonce).code)
    (hnonce : (w.accountOrNew b nonce).nonce.toNat ≤ u.nonce.toNat) :
    Guards a w (w.setAccount b u) := by
  by_cases hb : b = a
  · subst hb
    unfold accountOrNew at hcode hnonce
    constructor
    · intro hno c hc
      unfold codeOf at hc
      rw [setAccount_same, Option.bind_some, hcode] at hc
      rcases hacc : w.accounts b with _ | v
      · rw [hacc] at hc
        cases hc
      · rw [hacc] at hc
        refine hno c ?_
        unfold codeOf
        rw [hacc]
        exact hc
    · unfold nonceOf
      rw [setAccount_same, Option.map_some, Option.getD_some]
      rcases hacc : w.accounts b with _ | v
      · exact Nat.zero_le _
      · rw [hacc] at hnonce
        exact hnonce
  · exact .setAccount_ne hb u

theorem guards_modify_existing {b : Address} {f : AccountView → Except Panic AccountView}
    (hf : ∀ v v', f v = .ok v' → v'.code = v.code ∧ v.nonce.toNat ≤ v'.nonce.toNat) :
    Keeps (Guards a) (modify_existing b f) := by
  intro w
  refine wp_bind.mpr (wp_gets.mpr ?_)
  rcases hacc : w.accounts b with _ | v
  · exact refl_of (Guards a) w
  show wp (write_account b (f v)) _ _ w
  unfold write_account
  rcases hfv : f v with p | v'
  · trivial
  · have hold : w.accountOrNew b 0 = v := by
      unfold accountOrNew
      rw [hacc, Option.getD_some]
    obtain ⟨hcode, hnonce⟩ := hf v v' hfv
    exact .setAccount _ (hcode.trans (congrArg AccountView.code hold).symm) (hold ▸ hnonce)

theorem guards_modify_or_new {b : Address} {nonce : U256}
    {f : AccountView → Except Panic AccountView}
    (hf : ∀ v v', f v = .ok v' → v'.code = v.code ∧ v.nonce.toNat ≤ v'.nonce.toNat) :
    Keeps (Guards a) (modify_or_new b nonce f) := by
  intro w
  refine wp_bind.mpr (wp_gets.mpr ?_)
  show wp (write_account b (f (w.accountOrNew b nonce))) _ _ w
  unfold write_account
  rcases hfv : f (w.accountOrNew b nonce) with p | v'
  · trivial
  · obtain ⟨hcode, hnonce⟩ := hf _ v' hfv
    exact .setAccount _ hcode hnonce

theorem guards_inc_nonce (b : Address) (nonce : U256) : Keeps (Guards a) (inc_nonce b nonce) := by
  refine guards_modify_or_new fun v v' h => ?_
  unfold AccountView.inc_nonce at h
  split at h
  · rename_i n hn
    obtain rfl := Except.ok.inj h
    refine ⟨rfl, ?_⟩
    have hadd := U256.checked_add_eq_some.mp hn
    show v.nonce.toNat ≤ n.toNat
    omega
  · cases h

theorem guards_sub_balance (b : Address) (x : U256) (mode : CleanupMode) :
    Keeps (Guards a) (sub_balance b x mode) := by
  refine .bind (.when fun _ => guards_modify_existing fun v v' h => ?_) fun _ => ?_
  · unfold AccountView.sub_balance at h
    split at h
    · exact Except.ok.inj h ▸ ⟨rfl, le_rfl⟩
    · cases h
  · cases mode with
    | TrackTouched set => exact .bind (.gets _) fun _ => .pure _
    | ForceCreate => exact .pure _
    | NoEmpty => exact .pure _

theorem guards_add_balance (b : Address) (x : U256) (mode : CleanupMode) (nonce : U256) :
    Keeps (Guards a) (add_balance b x mode nonce) := by
  refine .bind (.gets _) fun _ =>
    .bind (.when fun _ => guards_modify_or_new fun v v' h => ?_) fun _ => .pure _
  unfold AccountView.add_balance at h
  split at h
  · exact Except.ok.inj h ▸ ⟨rfl, le_rfl⟩
  · cases h

theorem guards_transfer_balance (b c : Address) (x : U256) (mode : CleanupMode) (nonce : U256) :
    Keeps (Guards a) (transfer_balance b c x mode nonce) :=
  .bind (guards_sub_balance b x mode) fun mode => guards_add_balance c x mode nonce

theorem guards_set_storage (b : Address) (key : Bytes) (value : U256) :
    Keeps (Guards a) (set_storage b key value) :=
  .bind (.gets _) fun _ => .when fun _ =>
    guards_modify_existing fun _ _ h => Except.ok.inj h ▸ ⟨rfl, le_rfl⟩

omit [Keccak] in
theorem guards_subtract_total_issued (v : U256) : Keeps (Guards a) (subtract_total_issued v) :=
  .update fun _ => .of_accounts rfl

theorem guards_new_contract {b : Address} (h : b ≠ a) (balance nonce : U256) :
    Keeps (Guards a) (new_contract b balance nonce) :=
  .update fun _ => .setAccount_ne h _

theorem guards_init_code {b : Address} (h : b ≠ a) (code : Bytes) :
    Keeps (Guards a) (init_code b code) := by
  intro w
  refine wp_bind.mpr (wp_gets.mpr ?_)
  rcases w.accounts b with _ | v
  · exact refl_of (Guards a) w
  · exact .setAccount_ne h _

theorem guards_killed {b : Address} (h : b ≠ a) (w : Ledger) : Guards a w (w.killed b) :=
  .of_accounts (setAccount_of_ne h.symm .removed w)

theorem guards_kills {l : List Address} (h : a ∉ l) (w : Ledger) :
    Guards a w (l.foldl killed w) := by
  induction l generalizing w with
  | nil => exact refl_of (Guards a) w
  | cons b l ih =>
    rw [List.mem_cons, not_or] at h
    exact trans_of (Guards a) (guards_killed (Ne.symm h.1) w) (ih h.2 _)

end Ledger

/-! ## Frames -/

/-- Code runs at other addresses than `a` only. -/
def elsewhere (a : Address) : Sites where
  effect :=
    { ledger := Ledger.Guards a
      substate := fun t => a ∉ t.suicides
      refl := refl_of (Ledger.Guards a)
      trans := trans_of (Ledger.Guards a)
      new := List.not_mem_nil
      accrue := fun hs ht h => (Substate.mem_extendSet.mp h).elim hs ht
      touched := fun mode h => by rwa [TXExecutor.suicides_set_touched] }
  holds w := w.NoCode a
  runsAt b _ := b ≠ a

/-- So it is as long as no contract is made there. -/
theorem elsewhere_lawful : (elsewhere a).Lawful g fun s => ¬s.MakesContractAt g a where
  lasts h := h.code
  stays _ h := h
  found := by
    intro w b c hno hc
    by_cases hb : b = a
    · subst hb
      exact .inr (hno c hc)
    · exact .inl hb
  created := by
    rintro s frame b w hI hphase haddress - rfl
    exact hI (.inl ⟨frame, hphase, haddress⟩)
  pre_exec_call _ := pre_exec_call_keeps fun _ _ => Ledger.guards_transfer_balance _ _ _ _ _
  pre_exec_create := by
    intro s frame params w hI hphase _ haddress _
    refine pre_exec_create_keeps (fun _ _ => Ledger.guards_sub_balance _ _ _)
      fun _ => Ledger.guards_new_contract ?_ _ _
    rintro rfl
    exact hI (.inl ⟨frame, hphase, haddress⟩)
  writes := by
    intro ctx w hne
    exact
      { set_storage := fun _ _ => Ledger.guards_set_storage _ _ _
        inc_nonce := fun _ => Ledger.guards_inc_nonce _ _
        log := fun _ h => h
        suicide := fun _ _ => suicide_keeps
          (fun h hmem => (List.mem_insert_iff.mp hmem).elim (fun heq => hne heq.symm) h)
          (fun _ _ => Ledger.guards_sub_balance _ _ _)
          (fun _ => Ledger.guards_subtract_total_issued _)
          fun _ _ => Ledger.guards_transfer_balance _ _ _ _ _ }
  init_code h code := Ledger.guards_init_code h code
  functions :=
    { transfer := fun _ _ _ _ => Ledger.guards_transfer_balance _ _ _ _ _
      inc_nonce := fun _ => Ledger.guards_inc_nonce _ _
      log := fun _ h => h }
  deploy := by
    intro s frame internal params hI hphase hdeploys
    have hne : eip_1820.ADDRESS ≠ a := fun h =>
      hI (.inr ⟨frame, internal, params, hphase, hdeploys, h.symm⟩)
    exact deploy_eip1820_keeps (Ledger.guards_new_contract hne _ _)
      (fun _ => Ledger.guards_init_code hne _) id
  note_created o h := by cases o <;> exact h

/-! ## Transactions -/

/-- The outcome of a transaction that was executed. -/
def ExecutionOutcome.BumpsNonce (outcome : ExecutionOutcome) : Prop :=
  (∃ executed, outcome = .Finished executed) ∨
    ∃ error executed, outcome = .ExecutionErrorBumpNonce error executed

theorem Ledger.Received.guards {b : Address} {v nonce : U256} (h : Received b v nonce w w') :
    Guards a w w' := by
  rcases h with ⟨-, rfl⟩ | ⟨-, rfl⟩
  · exact refl_of (Guards a) w'
  · exact .setAccount _ rfl le_rfl

variable [HashOrder]

section
variable {tx : Transaction} {options : TransactOptions} {db : StateDb} {saved : List Ledger}
  {t t' : TxState} {nonce cost : U256}

omit [HashOrder] in
/-- The charge counts the nonce of the sender up. -/
theorem Ledger.guards_charged
    (hbump : (w.accountOrNew tx.sender nonce).nonce.toNat + 1 < 2 ^ 256) :
    Guards a w (w.charged tx.sender nonce cost) := by
  refine .setAccount nonce rfl ?_
  show _ ≤ ((w.accountOrNew tx.sender nonce).nonce + 1).toNat
  rw [BitVec.toNat_add_of_lt hbump]
  exact Nat.le_succ _

omit [HashOrder] in
theorem Ledger.nonceOf_charged (hnonce : w.nonceOf tx.sender = tx.nonce)
    (hbump : (w.accountOrNew tx.sender nonce).nonce.toNat + 1 < 2 ^ 256) :
    tx.nonce.toNat < ((w.charged tx.sender nonce cost).nonceOf tx.sender).toNat := by
  have hle : tx.nonce.toNat ≤ (w.accountOrNew tx.sender nonce).nonce.toNat := by
    rw [← hnonce]
    unfold nonceOf accountOrNew
    rcases w.accounts tx.sender with _ | v
    · exact Nat.zero_le _
    · exact le_rfl
  have hcharged : (w.charged tx.sender nonce cost).nonceOf tx.sender =
      (w.accountOrNew tx.sender nonce).nonce + 1 := by
    unfold nonceOf charged
    rw [setAccount_same]
    rfl
  rw [hcharged, BitVec.toNat_add_of_lt hbump]
  exact Nat.lt_succ_of_le hle

/-- A transaction keeps the guard on an address at which it makes no contract; if it is executed,
    the nonce of its sender is beyond its own. -/
theorem TXExecutor.transact_guards {fuel : ℕ} {outcome : ExecutionOutcome}
    (hrep : Rep db saved t.state w) (hno : w.NoCode a)
    (hrun : (transact g tx fuel options).run t = .ok (.ok (some outcome), t'))
    (hstacks : ∀ s, Executing g tx options t s → ¬s.MakesContractAt g a) :
    ∃ w', Rep db saved t'.state w' ∧ Ledger.Guards a w w' ∧
      (outcome.BumpsNonce → tx.sender = a → tx.nonce.toNat < (w'.nonceOf a).toNat) := by
  rcases transact_inv hrep hrun with ⟨w', -, hpre, hrep'⟩ |
    ⟨frame, substate, observer, base, w₁, t₁, s, r, hrun₁, hpre, hrep₁, hexec⟩
  · refine ⟨w', hrep', ?_⟩
    cases hpre with
    | old_nonce hnonce =>
      exact ⟨refl_of (Ledger.Guards a) w, by rintro (⟨_, ⟨⟩⟩ | ⟨_, _, ⟨⟩⟩)⟩
    | base_gas hgas => exact ⟨refl_of (Ledger.Guards a) w, by rintro (⟨_, ⟨⟩⟩ | ⟨_, _, ⟨⟩⟩)⟩
    | reconsider error => exact ⟨refl_of (Ledger.Guards a) w, by rintro (⟨_, ⟨⟩⟩ | ⟨_, _, ⟨⟩⟩)⟩
    | not_enough_cash hnonce hcash hcost hbump =>
      refine ⟨Ledger.guards_charged hbump, ?_⟩
      rintro - rfl
      exact Ledger.nonceOf_charged hnonce hbump
  · have hcharged : Ledger.Guards a w w₁ ∧
        (tx.sender = a → tx.nonce.toNat < (w₁.nonceOf a).toNat) := by
      cases hpre with
      | pass hnonce hcash hcost hbase hbump =>
        refine ⟨Ledger.guards_charged hbump, ?_⟩
        rintro rfl
        exact Ledger.nonceOf_charged hnonce hbump
    obtain ⟨hcharged, hnonce⟩ := hcharged
    obtain ⟨w₂, hrep₂, hguards, -, hsuicides⟩ := hexec.effect elsewhere_lawful hpre hrep₁
      (hcharged.code hno) fun s₁ hs₁ => hstacks s₁ ⟨_, _, _, _, _, hrun₁, hs₁⟩
    obtain ⟨refunded, executed, w₃, w', hrep', hsettled, -⟩ := hexec.settled hrep₂
    have hend : Ledger.Guards a w₁ w' := by
      refine trans_of (Ledger.Guards a) hguards
        (trans_of (Ledger.Guards a) hsettled.refund.guards ?_)
      rw [hsettled.kills]
      refine Ledger.guards_kills (fun hmem => hsuicides ?_) w₃
      exact (HashOrder.iter_perm _).mem_iff.mp hmem
    exact ⟨w', hrep', trans_of (Ledger.Guards a) hcharged hend,
      fun _ hsender => (hnonce hsender).trans_le hend.nonce⟩

/-! ## Commits -/

omit [HashOrder] in
theorem StateDb.view_code (d : StateDb) (a : Address) : (d.view a).bind AccountView.code =
    (d.accounts a).bind fun acc => if acc.code_hash = KECCAK_EMPTY then none else d.codes a := by
  unfold StateDb.view
  cases d.accounts a <;> rfl

omit [HashOrder] in
theorem StateDb.view_nonce (d : StateDb) (a : Address) :
    (d.view a).map AccountView.nonce = (d.accounts a).map Account.nonce := by
  unfold StateDb.view
  cases d.accounts a <;> rfl

/-- A commit keeps an account whose nonce is not zero. -/
theorem commit_guards {s s' : State} (hrep : Rep db saved s w) (hpos : 0 < (w.nonceOf a).toNat)
    (hno : w.NoCode a) (hrun : State.commit.final s = .ok s') :
    ∃ w', Rep s'.db [] s' w' ∧ w'.NoCode a ∧ w'.nonceOf a = w.nonceOf a := by
  obtain ⟨owner, hrep⟩ := hrep
  obtain ⟨-, -, hcache, hreads, hcs, hts, -⟩ := commit_inv hrun
  refine ⟨_, rep_of_empty hcache hcs hts hreads, ?_⟩
  obtain ⟨haccount, hcodes, -⟩ := records_commit hrep hrun a
  have hview := hrep.accounts_eq a
  rw [hrep.db_eq] at hview
  unfold Ledger.NoCode Ledger.codeOf Ledger.nonceOf at *
  simp only [StateDb.view_code, StateDb.view_nonce]
  rcases hlookup : s.cache.lookup a with _ | e
  · -- What is not cached is not written.
    rw [hlookup] at haccount hcodes hview
    rw [show w.accounts a = db.view a from hview] at hno ⊢
    rw [StateDb.view_code] at hno
    rw [StateDb.view_nonce, haccount, hcodes]
    exact ⟨hno, rfl⟩
  · rw [hlookup] at haccount hcodes hview
    rcases hacc : e.account with _ | acc
    · have hnone : w.accounts a = none := by
        rw [hview, entryView, hacc]
        rfl
      rw [hnone] at hpos
      exact absurd hpos (by simp)
    · have hsome : w.accounts a = some (acc.view db) := by
        rw [hview, entryView, hacc]
        rfl
      rw [hsome] at hpos hno ⊢
      have hdefault : acc.as_account.is_default = false := by
        have hne : acc.nonce ≠ 0 := by
          rintro hzero
          have hpos : 0 < acc.nonce.toNat := hpos
          rw [hzero] at hpos
          exact absurd hpos (by simp)
        have hnonce : (acc.nonce == 0) = false := by simpa using hne
        show (acc.balance == 0 && acc.nonce == 0 && acc.code_hash == KECCAK_EMPTY) = false
        rw [hnonce, Bool.and_false, Bool.false_and]
      have hremoved : acc.removed_without_update = false := by
        rw [OverlayAccount.removed_without_update, hdefault, Bool.and_false]
      have hrecords : entryRecords (some e) (db.records a) = acc.commitRecords (db.records a) := by
        simp only [entryRecords, Option.bind_some, hacc, hremoved, Bool.false_eq_true, if_false]
      rw [hrecords] at haccount hcodes
      have haddress := (hrep.ok_of_cached ⟨e, hlookup, hacc⟩).address
      rw [haccount, hcodes]
      simp only [OverlayAccount.commitRecords, Account.stored, hdefault,
        Bool.false_eq_true, if_false,
        Option.bind_some, Option.map_some]
      refine ⟨fun c hc => ?_, rfl⟩
      -- The code that is stored is the one that was shown, unless that is empty.
      by_cases hempty : acc.code_hash = KECCAK_EMPTY
      · simp [OverlayAccount.as_account, hempty] at hc
      · rw [if_neg (by exact hempty)] at hc
        rcases hcode : acc.code with _ | c₀
        · rw [hcode] at hc
          refine hno c ?_
          simp only [OverlayAccount.view, hcode, if_neg hempty, haddress]
          exact hc
        · have hnil : c₀.code = [] := hno c₀.code (by simp [OverlayAccount.view, hcode])
          rw [hcode] at hc
          simp [CodeInfo.stored, hnil] at hc

end

omit [HashOrder] in
/-- Code that is there is read. -/
theorem value_code_of_codeOf {c : Bytes} (h : w.codeOf a = some c) :
    (Ledger.code a).value w = .ok (.ok (some c)) := by
  unfold Ledger.codeOf at h
  rcases hacc : w.accounts a with _ | v
  · rw [hacc] at h
    cases h
  · rw [hacc, Option.bind_some] at h
    rcases hcode : v.code with _ | code
    · rw [hcode] at h
      cases h
    · rw [hcode, Option.map_some] at h
      simp [Ledger.code, Ledger.account_with_code, Ledger.account, Prog.value, run_bind,
        hacc, hcode,
        Except.map, Option.some_inj.mp h]

/-! ## Sequences of transactions -/

/-- The nonce of the sender is beyond the one of the transaction. -/
def Spent (tx : Transaction) (t : TxState) : Prop :=
  ∃ db saved w, Rep db saved t.state w ∧ w.NoCode tx.sender ∧
    tx.nonce.toNat < (w.nonceOf tx.sender).toNat

section
variable {tx : Transaction} {t t' : TxState}

theorem Spent.step (h : Spent tx t)
    (hstep : TxStep (fun g s => ¬s.MakesContractAt g tx.sender) t t') : Spent tx t' := by
  obtain ⟨db, saved, w, hrep, hno, hlt⟩ := h
  cases hstep with
  | transact hrun hstacks =>
    obtain ⟨w', hrep', hguards, -⟩ := TXExecutor.transact_guards hrep hno hrun hstacks
    exact ⟨db, saved, w', hrep', hguards.code hno, hlt.trans_le hguards.nonce⟩
  | commit hrun ht =>
    subst ht
    obtain ⟨w', hrep', hno', hnonce⟩ := commit_guards hrep (Nat.zero_lt_of_lt hlt) hno hrun
    exact ⟨_, [], w', hrep', hno', hnonce ▸ hlt⟩

theorem Spent.steps (h : Spent tx t)
    (hsteps : TxSteps (fun g s => ¬s.MakesContractAt g tx.sender) t t') : Spent tx t' := by
  induction hsteps with
  | refl => exact h
  | tail _ hstep ih => exact ih.step hstep

/-- A transaction whose nonce is spent is dropped, and leaves the state as it is. -/
theorem Spent.dropped (h : Spent tx t) (g : Globals) (fuel : ℕ) (options : TransactOptions) :
    ∃ nonce t', (TXExecutor.transact g tx fuel options).run t =
        .ok (.ok (some (.NotExecutedDrop (.OldNonce nonce tx.nonce))), t') ∧
      SameReads t.state t'.state := by
  obtain ⟨db, saved, w, hrep, -, hlt⟩ := h
  have hwp : wp (TXExecutor.transact g tx fuel options) (fun _ => False) (fun r t' =>
      r = .ok (some (.NotExecutedDrop (.OldNonce (w.nonceOf tx.sender) tx.nonce))) ∧
        Rep db saved t'.state w) t := by
    refine wp_bind.mpr (wp_bind.mpr (TXExecutor.wp_onState (nonce_refines _) hrep (wp_gets.mpr ?_)))
    intro s₁ hrep₁
    refine wp_ite (fun _ => ⟨rfl, hrep₁⟩) fun hnot => absurd hlt hnot
  obtain ⟨r, t', hrun, rfl, hrep'⟩ := exists_run_of_wp hwp
  exact ⟨_, t', hrun, sameReads_of_rep hrep hrep'⟩

/-- No transaction is executed twice. If a transaction whose sender has no code is executed, then
    after any further transactions and commits, in which no contract is made at the sender, it is
    dropped for its old nonce, and nothing that is read of the state changes. -/
theorem executed_transaction_is_dropped {fuel : ℕ} {options : TransactOptions}
    {outcome : ExecutionOutcome} {t₁ t₂ : TxState} (hstate : t.state.Reachable)
    (hcode : ∀ code, (State.code tx.sender).value t.state = .ok (.ok (some code)) → code = [])
    (hrun : (TXExecutor.transact g tx fuel options).run t = .ok (.ok (some outcome), t₁))
    (houtcome : outcome.BumpsNonce)
    (hstacks : ∀ s, TXExecutor.Executing g tx options t s → ¬s.MakesContractAt g tx.sender)
    (hsteps : TxSteps (fun g s => ¬s.MakesContractAt g tx.sender) t₁ t₂)
    (g' : Globals) (fuel' : ℕ) (options' : TransactOptions) :
    ∃ nonce t₃, (TXExecutor.transact g' tx fuel' options').run t₂ =
        .ok (.ok (some (.NotExecutedDrop (.OldNonce nonce tx.nonce))), t₃) ∧
      SameReads t₂.state t₃.state := by
  obtain ⟨db, saved, w, hrep⟩ := hstate.rep
  have hno : w.NoCode tx.sender := by
    intro c hc
    refine hcode c ?_
    rw [(code_refines _ db saved).value_eq hrep]
    exact value_code_of_codeOf hc
  obtain ⟨w₁, hrep₁, hguards, hbumped⟩ := TXExecutor.transact_guards hrep hno hrun hstacks
  have hspent : Spent tx t₁ := ⟨db, saved, w₁, hrep₁, hguards.code hno, hbumped houtcome rfl⟩
  exact (hspent.steps hsteps).dropped g' fuel' options'

end

/-- A frame that only transfers. -/
def Transferring (s : FrameStack) : Prop :=
  s.frame_stack = [] ∧
    ((∃ frame, s.phase = .Enter frame ∧ frame.kind = .Transfer ∧ frame.create_address = none) ∨
      (∃ frame gas, s.phase = .Execute frame (.NoopExec gas)) ∨ ∃ r, s.phase = .LastRes (.Return r))

theorem Transferring.round {s s' : FrameStack} (h : Transferring s) (hround : Round g s s') :
    Transferring s' := by
  obtain ⟨hstack, hphases⟩ := h
  cases hround with
  | @enter frame frame' exec h' hphase hrun =>
    rw [hphase] at hphases
    rcases hphases with ⟨_, ⟨⟩, hkind, -⟩ | ⟨_, _, ⟨⟩⟩ | ⟨_, ⟨⟩⟩
    obtain ⟨params, h₁, hbegins⟩ := frame_exec_inv hrun
    have hobject := hbegins.object
    rw [hkind] at hobject
    cases hobject
    exact ⟨hstack, .inr (.inl ⟨_, _, rfl⟩)⟩
  | @go_on frame exec exec' h' hphase hrun =>
    rw [hphase] at hphases
    rcases hphases with ⟨_, ⟨⟩, _⟩ | ⟨_, _, ⟨⟩⟩ | ⟨_, ⟨⟩⟩
    cases hrun
  | returns => exact ⟨hstack, .inr (.inr ⟨_, rfl⟩)⟩
  | @traps frame exec kind resume h' hphase hrun =>
    rw [hphase] at hphases
    rcases hphases with ⟨_, ⟨⟩, _⟩ | ⟨_, _, ⟨⟩⟩ | ⟨_, ⟨⟩⟩
    cases hrun
  | @calls kind caller hphase =>
    rw [hphase] at hphases
    simp at hphases
  | @resumes r parent parent' rest exec hphase hstack' hresume =>
    rw [hstack] at hstack'
    cases hstack'

/-- A transaction that calls an address without code only transfers. -/
theorem TXExecutor.Executing.transferring {tx : Transaction} {options : TransactOptions}
    {db : StateDb} {saved : List Ledger} {t : TxState} {address : Address} {s : FrameStack}
    (hrep : Rep db saved t.state w) (haction : tx.action = .Call address)
    (hbuiltin : g.machine.builtin address g.env.number.toNat = none)
    (hcontract : g.machine.contract address g.spec = none)
    (hcode : ∀ nonce cost, (w.charged tx.sender nonce cost).codeOf address = none)
    (h : Executing g tx options t s) : Transferring s := by
  obtain ⟨frame, substate, observer, base, t₁, hpre, hrounds⟩ := h
  refine Rounds.invariant (fun _ _ h hnext => h.round (round_of_next hnext)) ?_ hrounds
  obtain ⟨w₁, -, hok, -⟩ := wp_of_run (transact_preprocessing_spec hrep) hpre
  cases hok _ rfl with
  | pass hnonce hcash hcost hbase hbump hframe =>
    cases hframe with
    | create hcreate =>
      rw [haction] at hcreate
      cases hcreate
    | call hcall code_hash =>
      rw [haction] at hcall
      cases hcall
      refine ⟨rfl, .inl ⟨_, rfl, ?_, rfl⟩⟩
      simp [CallCreateFrame.new_call_raw, call_params, hbuiltin, hcontract, hcode]

end

section
attribute [local instance] keccakOfEmpty HashOrder.asListed

/-- A transaction that transfers nothing, at no price. -/
def idleTransaction : Transaction where
  sender := 7
  nonce := 0
  gas := 21000
  gas_price := 0
  data := []
  action := .Call 9
  value := 0

def emptyState : TxState := ⟨.new .empty, .new 0⟩

theorem idle_transaction_transfers (s : FrameStack)
    (h : TXExecutor.Executing bareMachine idleTransaction untraced emptyState s) :
    Transferring s := by
  have hrep : Rep .empty [] emptyState.state (State.new .empty).ledger := rep_new .empty
  exact h.transferring hrep rfl rfl rfl fun _ _ => rfl

/-- A transaction is executed, the state is committed, and the transaction is dropped then. -/
theorem idle_transaction_is_dropped :
    ∃ executed t₁ s₁ t₂ nonce, (TXExecutor.transact bareMachine idleTransaction 3 untraced).run
        emptyState = .ok (.ok (some (.Finished executed)), t₁) ∧
      State.commit.final t₁.state = .ok s₁ ∧
      (TXExecutor.transact bareMachine idleTransaction 3 untraced).run ⟨s₁, t₁.shared_cache⟩ =
        .ok (.ok (some (.NotExecutedDrop (.OldNonce nonce 0))), t₂) ∧
      SameReads s₁ t₂.state := by
  have hruns : (TXExecutor.transact bareMachine idleTransaction 3 untraced).returns emptyState
      (fun outcome t₁ => ExecutionOutcome.finished (fun _ =>
        (State.commit.final t₁.state).toOption.isSome) outcome) = true := by decide +kernel
  obtain ⟨outcome, t₁, hrun, hfinished⟩ := exists_of_returns hruns
  obtain ⟨executed, rfl, hcommits⟩ := ExecutionOutcome.exists_of_finished hfinished
  rcases hcommit : State.commit.final t₁.state with p | s₁
  · rw [hcommit] at hcommits
    cases hcommits
  have hstacks : ∀ s, TXExecutor.Executing bareMachine idleTransaction untraced emptyState s →
      ¬s.MakesContractAt bareMachine 7 := by
    rintro s hs (⟨frame, hphase, hcreate⟩ | ⟨frame, internal, params, hphase, -, -⟩)
    · obtain ⟨-, hphases⟩ := idle_transaction_transfers s hs
      simp [hphase, hcreate] at hphases
    · obtain ⟨-, hphases⟩ := idle_transaction_transfers s hs
      simp [hphase] at hphases
  have hstep : TxSteps (fun g s => ¬s.MakesContractAt g idleTransaction.sender) t₁
      ⟨s₁, t₁.shared_cache⟩ := .single (.commit hcommit rfl)
  obtain ⟨nonce, t₂, hdropped, hreads⟩ := executed_transaction_is_dropped
    ⟨.empty, [], _, rfl⟩ (by intro code h; cases h) hrun
    (.inl ⟨executed, rfl⟩) hstacks hstep bareMachine 3 untraced
  exact ⟨executed, t₁, s₁, t₂, nonce, hrun, hcommit, hdropped, hreads⟩

end

end CfxEvm
