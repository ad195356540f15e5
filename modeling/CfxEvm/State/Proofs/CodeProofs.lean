import CfxEvm.State.Proofs.RecordProofs

/-!
# Proofs: code and its hash

The hash of a code is in the record of the account, the code itself under a key of its own that is
written when the account is committed and never deleted with it. Whatever is created, removed,
reverted and committed, an account that shows the hash of a code shows that code.
-/

open Lib Lib.Prog

namespace CfxEvm

section
variable [Keccak]

/-- Every stored account with the hash of a code has that code stored under its address. -/
def StateDb.CodesStored (db : StateDb) : Prop :=
  ∀ a acc, db.accounts a = some acc → acc.code_hash ≠ KECCAK_EMPTY →
    ∃ c, db.codes a = some c ∧ keccak c.code = acc.code_hash

/-- The account shows the code that its hash stands for. -/
def AccountView.CodeOk (_ : Address) (v : AccountView) : Prop :=
  v.code_hash ≠ KECCAK_EMPTY → ∃ c, v.code = some c ∧ keccak c.code = v.code_hash

theorem codeOk_lasting (stored : Address → Bytes → U256) : Lasting stored AccountView.CodeOk where
  basic _ _ hne := absurd rfl hne
  balance _ h := h
  nonce _ h := h
  storage _ h := h
  init_code code _ _ := ⟨⟨code⟩, rfl, rfl⟩

/-- No operation that creates or removes a contract is in the way. -/
theorem codeOk_allowed (stored : Address → Bytes → U256) (o : StateOp) :
    o.Allowed stored AccountView.CodeOk := by
  cases o with
  | new_contract a b n => exact fun _ _ _ hne => absurd rfl hne
  | remove_contract a => exact fun hne => absurd rfl hne
  | _ => trivial

/-- Accounts that are shown as stored show their codes. -/
theorem codeOk_of_stored {db : StateDb} (h : db.CodesStored) (total : U256) :
    (Ledger.mk db.view total db.slots).All db.slots AccountView.CodeOk where
  stored_eq := rfl
  holds a v hv hne := by
    obtain ⟨acc, hacc, rfl⟩ := Option.map_eq_some_iff.mp hv
    obtain ⟨c, hc, hkeccak⟩ := h a acc hacc hne
    refine ⟨c, ?_, hkeccak⟩
    have hhash : acc.code_hash ≠ KECCAK_EMPTY := hne
    show (if acc.code_hash = KECCAK_EMPTY then none else db.codes a) = some c
    rw [if_neg hhash]
    exact hc

/-- What the account shows as its code is the code that its hash stands for. -/
structure AccountView.Coded (a : Address) (v : AccountView) : Prop where
  code : v.CodeOk a
  hash : ∀ c, v.code = some c → keccak c.code = v.code_hash

theorem coded_lasting (stored : Address → Bytes → U256) : Lasting stored AccountView.Coded where
  basic a nonce := ⟨(codeOk_lasting stored).basic a nonce, fun _ h => (nomatch h)⟩
  balance _ h := ⟨h.code, h.hash⟩
  nonce _ h := ⟨h.code, h.hash⟩
  storage _ h := ⟨h.code, h.hash⟩
  init_code code h := by
    refine ⟨(codeOk_lasting stored).init_code code h.code, fun c hc => ?_⟩
    obtain rfl := Option.some_inj.mp hc
    rfl

theorem coded_contract (a : Address) (balance nonce : U256) (invalidated : Bool)
    (stored : Bytes → U256) : (AccountView.contract a balance nonce invalidated stored).Coded a :=
  ⟨fun hne => absurd rfl hne, fun _ h => nomatch h⟩

theorem coded_removed (a : Address) : AccountView.removed.Coded a :=
  ⟨fun hne => absurd rfl hne, fun _ h => nomatch h⟩

/-- So is what stored accounts are shown with. -/
theorem coded_of_stored {db : StateDb} (h : db.CodesStored) (total : U256) :
    (Ledger.mk db.view total db.slots).All db.slots AccountView.Coded where
  stored_eq := rfl
  holds a v hv := by
    refine ⟨(codeOk_of_stored h total).holds a v hv, fun c hc => ?_⟩
    obtain ⟨acc, hacc, rfl⟩ := Option.map_eq_some_iff.mp hv
    have hcode : (if acc.code_hash = KECCAK_EMPTY then none else db.codes a) = some c := hc
    by_cases hne : acc.code_hash = KECCAK_EMPTY
    · rw [if_pos hne] at hcode
      cases hcode
    · rw [if_neg hne] at hcode
      obtain ⟨c', hc', hkeccak⟩ := h a acc hacc hne
      obtain rfl := Option.some_inj.mp (hcode.symm.trans hc')
      exact hkeccak

/-- Where hashes stand for codes that are there, loading the code of an account does not fail. -/
theorem run_account_with_code {w : Ledger} {a : Address}
    (h : ∀ v, w.accounts a = some v → v.CodeOk a) :
    (Ledger.account_with_code a).run w = .ok (.ok (w.accounts a), w) := by
  unfold Ledger.account_with_code Ledger.account
  rw [run_bind, run_gets]
  rcases hacc : w.accounts a with _ | v
  · rfl
  · by_cases hne : v.code_hash = KECCAK_EMPTY
    · simp [hne]
    · obtain ⟨c, hc, -⟩ := h v hacc hne
      simp [hc]

/-- What is read as the code of an account then. -/
theorem value_code {db : StateDb} {saved : List Ledger} {s : State} {w : Ledger} {a : Address}
    (hrep : Rep db saved s w) (h : ∀ v, w.accounts a = some v → v.CodeOk a) :
    (State.code a).value s =
      .ok (.ok (((w.accounts a).bind AccountView.code).map CodeInfo.code)) := by
  rw [(code_refines a db saved).value_eq hrep]
  simp [Ledger.code, Prog.value, run_bind, run_account_with_code h, Except.map]

/-- The commit of an account stores the code that the account shows. -/
theorem code_commitRecords {db : StateDb} {a : Address} {acc : OverlayAccount} {c : CodeInfo}
    (haddress : acc.address = a) (hne : acc.code_hash ≠ KECCAK_EMPTY)
    (hc : (acc.view db).code = some c) (hkeccak : keccak c.code = acc.code_hash) :
    (acc.commitRecords (db.records a)).code = some c := by
  have hnonempty : ¬(c.code.length == 0) = true := by
    intro hzero
    have hnil : c.code = [] := List.length_eq_zero_iff.mp (eq_of_beq hzero)
    rw [hnil] at hkeccak
    exact hne hkeccak.symm
  simp only [OverlayAccount.view] at hc
  show (acc.code.map CodeInfo.stored).getD (db.codes a) = some c
  rcases hloaded : acc.code with _ | c₀
  · simp only [hloaded, if_neg hne, haddress] at hc
    exact hc
  · simp only [hloaded, Option.some_inj] at hc
    subst hc
    simp only [Option.map_some, Option.getD_some, CodeInfo.stored, if_neg hnonempty]

variable [HashOrder]

/-- A commit stores the codes of the accounts that it stores. -/
theorem codesStored_commit {db : StateDb} {saved : List Ledger} {owner : Owner} {s s' : State}
    {w : Ledger} (hrep : RepBy db saved owner s w) (hdb : db.CodesStored)
    (hw : w.All db.slots AccountView.CodeOk) (hrun : State.commit.final s = .ok s') :
    s'.db.CodesStored := by
  intro a acc' hacc' hne
  obtain ⟨haccount, hcode, -⟩ := records_commit hrep hrun a
  rw [haccount] at hacc'
  rw [hcode]
  unfold entryRecords at hacc' ⊢
  rcases hentry : (s.cache.lookup a).bind AccountEntry.account with _ | acc
  · simp only [hentry] at hacc' ⊢
    exact hdb a acc' hacc' hne
  · simp only [hentry] at hacc' ⊢
    by_cases hremoved : acc.removed_without_update = true
    · simp only [hremoved, if_true] at hacc'
      cases hacc'
    · simp only [hremoved] at hacc' ⊢
      obtain ⟨e, he, hecc⟩ := Option.bind_eq_some_iff.mp hentry
      have hview := hrep.view_of_cached ⟨e, he, hecc⟩
      have haddress := (hrep.ok_of_cached ⟨e, he, hecc⟩).address
      -- The record is the one of the cached account, so the hash is the one that is shown.
      have hrecord : acc' = acc.as_account := by
        have hstored : acc.as_account.stored = some acc' := hacc'
        unfold Account.stored at hstored
        split at hstored
        · cases hstored
        · exact (Option.some_inj.mp hstored).symm
      subst hrecord
      obtain ⟨c, hc, hkeccak⟩ := hw.holds a _ hview hne
      rw [hrep.db_eq] at hc
      exact ⟨c, code_commitRecords haddress hne hc hkeccak, hkeccak⟩

/-- The invariant of a run: codes are stored, and shown in every snapshot. -/
def CodeInv (s : State) : Prop :=
  s.db.CodesStored ∧
    ∃ x, RepSnapshots s.db s x ∧ x.Hold (Ledger.All s.db.slots AccountView.CodeOk)

omit [HashOrder] in
theorem CodeInv.new {db : StateDb} (h : db.CodesStored) : CodeInv (State.new db) := by
  refine ⟨h, _, rep_new db, codeOk_of_stored h _, ?_⟩
  intro w hw
  cases hw

/-- One step of a run. -/
theorem CodeInv.step {s s' : State} (h : CodeInv s) {c : StoreCmd} (hrun : s.execStore c = .ok s') :
    CodeInv s' := by
  obtain ⟨hdb, x, hx, hold⟩ := h
  cases c with
  | cmd c =>
    rcases execCmd_spec c hx with ⟨p, hp, -⟩ | ⟨s₁, x', hs₁, hstep, hx'⟩
    · exact absurd (hrun.symm.trans hp) (by simp)
    obtain rfl := Except.ok.inj (hrun.symm.trans hs₁)
    have hdb' : s'.db = s.db := by
      obtain ⟨owner, hx'⟩ := hx'
      exact hx'.db_eq
    unfold CodeInv
    rw [hdb']
    refine ⟨hdb, x', hx', hold.step ?_ hstep⟩
    intro o _ w w' ho hw
    exact ((codeOk_lasting _).onLedger (codeOk_allowed _ o) ho).all hw
  | add_total_issued v =>
    obtain ⟨t, hx'⟩ := add_total_issued_spec hx hrun
    have hdb' : s'.db = s.db := by
      obtain ⟨owner, hx'⟩ := hx'
      exact hx'.db_eq
    unfold CodeInv
    rw [hdb']
    exact ⟨hdb, _, hx', ⟨hold.cur.stored_eq, hold.cur.holds⟩, hold.saved⟩
  | commit =>
    obtain ⟨owner, hx⟩ := hx
    obtain ⟨-, -, hcache, hreads, hcs, hts, -⟩ := commit_inv hrun
    have hstored := codesStored_commit hx hdb hold.cur hrun
    refine ⟨hstored, ⟨_, []⟩, rep_of_empty hcache hcs hts hreads, codeOk_of_stored hstored _, ?_⟩
    intro w hw
    cases hw
  | reopen =>
    obtain rfl := Except.ok.inj hrun
    exact CodeInv.new hdb

/-- A run keeps the invariant. -/
theorem CodeInv.run {cmds : List StoreCmd} {s s' : State} {g g' : Created} (h : CodeInv s)
    (hrun : runStore cmds (s, g) = .ok (s', g')) : CodeInv s' := by
  induction cmds generalizing s g with
  | nil =>
    obtain ⟨rfl, rfl⟩ := Prod.mk.inj (Except.ok.inj hrun)
    exact h
  | cons c cmds ih =>
    rw [runStore] at hrun
    rcases hstep : s.execStore c with p | s₁
    · rw [hstep] at hrun
      cases hrun
    · rw [hstep] at hrun
      exact ih (h.step hstep) hrun

/-- Code integrity. Over a database that stores the codes of its accounts, after any state
    operations, checkpoints, reverts, commits and reopenings: where the hash of a code is read, the
    code with that hash and its size are read, and the database stores the codes of its accounts
    again. -/
theorem code_integrity (db : StateDb) (hdb : db.CodesStored) (cmds : List StoreCmd) (s : State)
    (g : Created) (hrun : runStore cmds (State.new db, Created.init) = .ok (s, g)) :
    s.db.CodesStored ∧
      ∀ a h, (State.code_hash a).value s = .ok (.ok (some h)) → h ≠ KECCAK_EMPTY →
        ∃ c, (State.code a).value s = .ok (.ok (some c)) ∧ keccak c = h ∧
          (State.code_size a).value s = .ok (.ok (some c.length)) := by
  obtain ⟨hstored, x, hx, hold⟩ := (CodeInv.new hdb).run hrun
  refine ⟨hstored, fun a h hhash hne => ?_⟩
  rw [(code_hash_refines a _ _).value_eq hx] at hhash
  have hhash' : (x.cur.accounts a).map AccountView.code_hash = some h :=
    Except.ok.inj (Except.ok.inj hhash)
  obtain ⟨v, hv, rfl⟩ := Option.map_eq_some_iff.mp hhash'
  obtain ⟨c, hc, hkeccak⟩ := hold.cur.holds a v hv hne
  have hloaded := run_account_with_code fun v' hv' => hold.cur.holds a v' hv'
  refine ⟨c.code, ?_, hkeccak, ?_⟩
  · rw [value_code hx fun v' hv' => hold.cur.holds a v' hv']
    simp [hv, hc]
  · rw [(code_size_refines a _ _).value_eq hx]
    simp [Ledger.code_size, Prog.value, run_bind, hloaded, hv, hc, Except.map, CodeInfo.code_size]

end

section
attribute [local instance] keccakOfStop HashOrder.asListed

/-- A contract whose code is one `STOP` is committed, removed, and the removal reverted: its code is
    read again. -/
theorem code_integrity_of_stop :
    ∃ s g c, runStore [.cmd (.op (.new_contract 7 0 1)), .cmd (.op (.init_code 7 [0])), .commit,
        .cmd .checkpoint, .cmd (.op (.remove_contract 7)), .cmd .revert, .commit, .reopen]
        (State.new .empty, .init) = .ok (s, g) ∧
      (State.code_hash 7).value s = .ok (.ok (some (keccak [0]))) ∧
      (State.code 7).value s = .ok (.ok (some c)) ∧ keccak c = keccak [0] := by
  have hempty : StateDb.empty.CodesStored := by
    intro a acc hacc
    cases hacc
  obtain ⟨s, g, hrun, hhash⟩ : ∃ s g, runStore [.cmd (.op (.new_contract 7 0 1)),
      .cmd (.op (.init_code 7 [0])), .commit, .cmd .checkpoint, .cmd (.op (.remove_contract 7)),
      .cmd .revert, .commit, .reopen] (State.new .empty, .init) = .ok (s, g) ∧
      (State.code_hash 7).value s = .ok (.ok (some (keccak [0]))) := ⟨_, _, rfl, rfl⟩
  obtain ⟨c, hcode, hkeccak, -⟩ := (code_integrity .empty hempty _ s g hrun).2 7 _ hhash (by decide)
  exact ⟨s, g, c, hrun, hhash, hcode, hkeccak⟩

end

end CfxEvm
