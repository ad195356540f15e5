import CfxEvm.State.Proofs.BackendProofs
import CfxEvm.State.Proofs.CodeProofs

/-!
# Proofs: what is read before a commit is read after it

A commit writes the accounts, codes and write caches of the cached entries, drops the rest of the
cache, and deletes records with default values. For runs that neither remove nor clean accounts and
create contracts only where the database holds no slots, nothing that a read shows is lost.
-/

open Lib Lib.Prog

namespace CfxEvm

section
variable [Keccak]

/-- Every record of the backend decodes, the codes of the stored accounts are stored, and no stored
    account is the default one. -/
structure Backend.WellFormed (codec : RecordCodec) (b : Backend) : Prop where
  account_decodes : ∀ a raw, b.get (.AccountKey a) = some raw → (codec.decode_account raw).isSome
  slot_decodes : ∀ a k raw, b.get (.StorageKey a k) = some raw → (codec.decode_slot a k raw).isSome
  code_decodes : ∀ a raw, b.get (.CodeKey a) = some raw → (codec.decode_code raw).isSome
  codes : (b.db codec).CodesStored
  not_default : ∀ a acc, (b.db codec).accounts a = some acc → acc.is_default = false

/-- The operation neither removes nor cleans an account, and creates a contract only at an address
    without stored slots. -/
def StateOp.KeepsSlots (slots : Address → Bytes → U256) : StateOp → Prop
  | .new_contract a _ _ => ∀ k, slots a k = 0
  | .remove_contract _ | .clean_account _ => False
  | _ => True

/-- The command neither commits nor reopens the state; if it is an operation, it keeps slots. -/
def StoreCmd.KeepsSlots (slots : Address → Bytes → U256) : StoreCmd → Prop
  | .cmd (.op o) => o.KeepsSlots slots
  | .cmd _ | .add_total_issued _ => True
  | .commit | .reopen => False

/-- What the first state shows is shown by the second one. -/
structure Persisted (s s' : State) : Prop where
  account : ∀ a, (State.exists_and_not_null a).value s = .ok (.ok true) →
    (State.balance a).value s' = (State.balance a).value s ∧
    (State.nonce a).value s' = (State.nonce a).value s ∧
    (State.code_hash a).value s' = (State.code_hash a).value s ∧
    (∃ c c', (State.code a).value s = .ok (.ok c) ∧ (State.code a).value s' = .ok (.ok c') ∧
      c'.getD [] = c.getD []) ∧
    ∀ k, k.length = 32 → (State.storage_at a k).value s' = (State.storage_at a k).value s
  null : ∀ a, (State.exists_and_not_null a).value s = .ok (.ok false) →
    (State.exists a).value s' = .ok (.ok false)
  total_issued_tokens : s'.total_issued_tokens = s.total_issued_tokens

/-! ## The invariant of the operations -/

/-- The code of the account is the one of its hash, and stored slots are not hidden from it. -/
structure AccountView.Durable (slots : Address → Bytes → U256) (a : Address) (v : AccountView) :
    Prop where
  code : v.CodeOk a
  hash : ∀ c, v.code = some c → keccak c.code = v.code_hash
  slots : v.is_newly_created_contract = true ∨ v.invalidated_storage = true → ∀ k, slots a k = 0

theorem durable_lasting (slots : Address → Bytes → U256) :
    Lasting slots (AccountView.Durable slots) where
  basic a nonce := by
    obtain ⟨hcode, hhash⟩ := (coded_lasting slots).basic a nonce
    exact ⟨hcode, hhash, fun h => by simp [AccountView.basic] at h⟩
  balance _ h := ⟨h.code, h.hash, h.slots⟩
  nonce _ h := ⟨h.code, h.hash, h.slots⟩
  storage _ h := ⟨h.code, h.hash, h.slots⟩
  init_code code h := by
    obtain ⟨hcode, hhash⟩ := (coded_lasting slots).init_code code ⟨h.code, h.hash⟩
    exact ⟨hcode, hhash, h.slots⟩

theorem durable_allowed {slots : Address → Bytes → U256} {o : StateOp} (h : o.KeepsSlots slots) :
    o.Allowed slots (AccountView.Durable slots) := by
  cases o with
  | new_contract a b n =>
    intro balance nonce invalidated
    obtain ⟨hcode, hhash⟩ := coded_contract a balance nonce invalidated (slots a)
    exact ⟨hcode, hhash, fun _ => h⟩
  | remove_contract a => exact h.elim
  | _ => trivial

/-- Stored accounts are durable as they are shown. -/
theorem durable_of_stored {db : StateDb} (h : db.CodesStored) (total : U256) :
    (Ledger.mk db.view total db.slots).All db.slots (AccountView.Durable db.slots) where
  stored_eq := rfl
  holds a v hv := by
    obtain ⟨hcode, hhash⟩ := (coded_of_stored h total).holds a v hv
    refine ⟨hcode, hhash, fun hflags => ?_⟩
    obtain ⟨acc, hacc, rfl⟩ := Option.map_eq_some_iff.mp hv
    simp [OverlayAccount.view, OverlayAccount.from_loaded] at hflags

/-- Durable accounts, and no account less than the database has. -/
structure Ledger.DurableOver (db : StateDb) (w : Ledger) : Prop where
  all : w.All db.slots (AccountView.Durable db.slots)
  covers : ∀ a, w.accounts a = none → db.accounts a = none

theorem durable_onLedger {db : StateDb} {o : StateOp} (ho : o.KeepsSlots db.slots) {w w' : Ledger}
    (h : o.onLedger w = .ok w') (hw : w.DurableOver db) : w'.DurableOver db := by
  have hlasts := (durable_lasting db.slots).onLedger (durable_allowed ho) h
  exact ⟨hlasts.all hw.all, fun a ha => hw.covers a (hlasts.grows a ha)⟩

variable [HashOrder]

/-- One command of a run that keeps slots. -/
theorem durable_step {db : StateDb} {c : StoreCmd} (hc : c.KeepsSlots db.slots) {s s' : State}
    {x : Snapshots Ledger} (hx : RepSnapshots db s x) (hold : x.Hold (Ledger.DurableOver db))
    (hrun : s.execStore c = .ok s') :
    ∃ x', RepSnapshots db s' x' ∧ x'.Hold (Ledger.DurableOver db) := by
  cases c with
  | cmd c =>
    rcases execCmd_spec c hx with ⟨p, hp, -⟩ | ⟨s₁, x₁, hs₁, hstep, hx₁⟩
    · exact absurd (hrun.symm.trans hp) (by simp)
    · obtain rfl := Except.ok.inj (hrun.symm.trans hs₁)
      refine ⟨x₁, hx₁, hold.step ?_ hstep⟩
      rintro o rfl w w' ho hw
      exact durable_onLedger hc ho hw
  | add_total_issued v =>
    obtain ⟨total, hx'⟩ := add_total_issued_spec hx hrun
    have hcur : Ledger.DurableOver db { x.cur with total_issued_tokens := total } :=
      ⟨⟨hold.cur.all.stored_eq, hold.cur.all.holds⟩, hold.cur.covers⟩
    exact ⟨_, hx', hcur, hold.saved⟩
  | commit => exact hc.elim
  | reopen => exact hc.elim

/-- A run that keeps slots leaves durable accounts. -/
theorem durable_run {db : StateDb} {cmds : List StoreCmd}
    (hcmds : ∀ c ∈ cmds, c.KeepsSlots db.slots) {s s' : State} {g g' : Created}
    {x : Snapshots Ledger} (hx : RepSnapshots db s x) (hold : x.Hold (Ledger.DurableOver db))
    (hrun : runStore cmds (s, g) = .ok (s', g')) :
    ∃ x', RepSnapshots db s' x' ∧ x'.Hold (Ledger.DurableOver db) := by
  induction cmds generalizing s g x with
  | nil =>
    obtain ⟨rfl, rfl⟩ := Prod.mk.inj (Except.ok.inj hrun)
    exact ⟨x, hx, hold⟩
  | cons c cmds ih =>
    rw [runStore] at hrun
    rcases hstep : s.execStore c with p | s₁
    · rw [hstep] at hrun
      cases hrun
    · rw [hstep] at hrun
      obtain ⟨x₁, hx₁, hold₁⟩ := durable_step (hcmds c (by simp)) hx hold hstep
      exact ih (fun c' hc' => hcmds c' (List.mem_cons_of_mem c hc')) hx₁ hold₁ hrun

omit [HashOrder] in
/-- A new state over a database with its codes has durable accounts. -/
theorem durable_new {db : StateDb} (hdb : db.CodesStored) :
    (State.new db).snapshots.Hold (Ledger.DurableOver db) := by
  refine ⟨⟨durable_of_stored hdb _, fun a ha => ?_⟩, fun w hw => ?_⟩
  · exact Option.map_eq_none_iff.mp ha
  · cases hw

/-! ## What a commit leaves -/

/-- The two accounts read the same, an absent code being read as the empty one. -/
structure AccountView.ReadsAs (v v' : AccountView) : Prop where
  balance : v'.balance = v.balance
  nonce : v'.nonce = v.nonce
  code_hash : v'.code_hash = v.code_hash
  code : (v'.code.map CodeInfo.code).getD [] = (v.code.map CodeInfo.code).getD []
  storage : ∀ k, k.length = 32 → v'.storage k = v.storage k

/-- What is read of an address after a commit that found `o` there. -/
def ReadAfter (o o' : Option AccountView) : Prop :=
  match o with
  | none => o' = none
  | some v => if v.is_null then o' = none else ∃ v', o' = some v' ∧ v.ReadsAs v'

section
variable {db : StateDb} {owner : Owner} {s s' : State} {w : Ledger} {a : Address}

section
omit [HashOrder]

/-- An address whose account is not cached keeps its records. -/
theorem readAfter_uncached (hdefault : ∀ a acc, db.accounts a = some acc → acc.is_default = false)
    (hview : w.accounts a = db.view a) (haccount : s'.db.accounts a = db.accounts a)
    (hcode : s'.db.codes a = db.codes a)
    (hslots : ∀ k, k.length = 32 → s'.db.slots a k = db.slots a k) :
    ReadAfter (w.accounts a) (s'.db.view a) := by
  rw [hview]
  unfold StateDb.view
  rw [haccount]
  rcases hacc : db.accounts a with _ | acc
  · rfl
  · have hnull : ((OverlayAccount.from_loaded a acc 0).view db).is_null = false :=
      hdefault a acc hacc
    simp only [Option.map_some, ReadAfter, hnull]
    refine ⟨_, rfl, ⟨rfl, rfl, rfl, ?_, fun k hk => ?_⟩⟩
    · show ((if acc.code_hash = KECCAK_EMPTY then none else s'.db.codes a).map _).getD [] = _
      rw [hcode]
      rfl
    · exact hslots k hk

/-- A cached account is written as it is shown. -/
theorem readAfter_committed (hkeccak : ∀ c, keccak c = KECCAK_EMPTY → c = []) {acc : OverlayAccount}
    (haddress : acc.address = a) (hdurable : AccountView.Durable db.slots a (acc.view db))
    (haccount : s'.db.accounts a = acc.as_account.stored)
    (hcode : s'.db.codes a = (acc.commitRecords (db.records a)).code)
    (hslots : ∀ k, k.length = 32 →
      s'.db.slots a k = (acc.storage_value_write_cache.lookup k).getD (db.slots a k)) :
    ReadAfter (some (acc.view db)) (s'.db.view a) := by
  have hnull : (acc.view db).is_null = acc.as_account.is_default := rfl
  unfold StateDb.view
  rw [haccount, Account.stored]
  by_cases hdefault : acc.as_account.is_default = true
  · simp only [ReadAfter, hnull, hdefault, if_true]
    rfl
  · simp only [ReadAfter, hnull, hdefault]
    refine ⟨_, rfl, ⟨rfl, rfl, rfl, ?_, fun k hk => ?_⟩⟩
    · show ((if acc.code_hash = KECCAK_EMPTY then none else s'.db.codes a).map _).getD [] = _
      by_cases hne : acc.code_hash = KECCAK_EMPTY
      · rw [if_pos hne]
        rcases hshown : (acc.view db).code with _ | c
        · rfl
        · have hhash : keccak c.code = acc.code_hash := hdurable.hash c hshown
          have hnil : c.code = [] := hkeccak c.code (hhash.trans hne)
          simp [hnil]
      · obtain ⟨c, hc, hhash⟩ := hdurable.code hne
        rw [if_neg hne, hcode, code_commitRecords haddress hne hc hhash, hc]
    · show s'.db.slots a k = (acc.storage_value_write_cache.lookup k).getD
        (if acc.fresh_storage then 0 else db.slots acc.address k)
      rw [hslots k hk, haddress]
      by_cases hfresh : acc.fresh_storage = true
      · have hzero : db.slots a k = 0 := by
          refine hdurable.slots ?_ k
          simp only [OverlayAccount.fresh_storage, Bool.or_eq_true, Bool.and_eq_true] at hfresh
          exact hfresh.imp And.left id
        rw [if_pos hfresh, hzero]
      · rw [if_neg hfresh]

omit [Keccak] in
theorem not_total_key {k : Bytes} (hk : k.length = 32) (a : Address) :
    ¬(a = STORAGE_INTEREST_STAKING_CONTRACT_ADDRESS ∧ k = TOTAL_TOKENS_KEY) := by
  rintro ⟨-, rfl⟩
  simp [TOTAL_TOKENS_KEY] at hk

end

/-- Every address is read after a commit as before, null accounts as none. -/
theorem readAfter_commit (hkeccak : ∀ c, keccak c = KECCAK_EMPTY → c = [])
    (hdefault : ∀ a acc, db.accounts a = some acc → acc.is_default = false)
    (hrep : RepBy db [] owner s w) (hw : w.DurableOver db) (hrun : State.commit.final s = .ok s')
    (a : Address) : ReadAfter (w.accounts a) (s'.db.view a) := by
  obtain ⟨haccount, hcode, hslots⟩ := records_commit hrep hrun a
  have hslots' := fun k (hk : k.length = 32) => hslots k (not_total_key hk a)
  have haccounts := hrep.accounts_eq a
  rw [hrep.db_eq] at haccounts
  rcases hlookup : s.cache.lookup a with _ | ⟨_ | acc, state⟩
  · rw [hlookup] at haccount hcode hslots' haccounts
    exact readAfter_uncached hdefault haccounts haccount hcode hslots'
  · rw [hlookup] at haccount haccounts
    have hnone : w.accounts a = none := haccounts
    have hnone' : s'.db.accounts a = none := haccount.trans (hw.covers a hnone)
    rw [hnone]
    simp only [ReadAfter, StateDb.view, hnone', Option.map_none]
  · have hshown : w.accounts a = some (acc.view db) := by
      rw [haccounts, hlookup]
      rfl
    have haddress := (hrep.ok_of_cached ⟨_, hlookup, rfl⟩).address
    rw [hlookup] at haccount hcode hslots'
    simp only [entryRecords, Option.bind_some] at haccount hcode hslots'
    rw [hshown]
    by_cases hremoved : acc.removed_without_update = true
    · simp only [hremoved, if_true] at haccount
      have hnull : (acc.view db).is_null = true := by
        simp only [OverlayAccount.removed_without_update, Bool.and_eq_true] at hremoved
        exact hremoved.2
      simp only [ReadAfter, hnull, if_true, StateDb.view, haccount, Option.map_none]
    · simp only [hremoved] at haccount hcode hslots'
      exact readAfter_committed hkeccak haddress (hw.all.holds a _ hshown) haccount hcode hslots'

end

omit [HashOrder] in
/-- States whose ledgers read alike. -/
theorem persisted_of_readAfter {db db' : StateDb} {saved saved' : List Ledger} {s s' : State}
    {w w' : Ledger} (hrep : Rep db saved s w) (hrep' : Rep db' saved' s' w')
    (hcode : ∀ a v, w.accounts a = some v → v.CodeOk a)
    (hcode' : ∀ a v, w'.accounts a = some v → v.CodeOk a)
    (hread : ∀ a, ReadAfter (w.accounts a) (w'.accounts a))
    (htotal : w'.total_issued_tokens = w.total_issued_tokens) : Persisted s s' where
  account a ha := by
    rw [(exists_and_not_null_refines a db saved).value_eq hrep] at ha
    have hany : (w.accounts a).any (fun v => !v.is_null) = true := Except.ok.inj (Except.ok.inj ha)
    obtain ⟨v, hv, hnull⟩ : ∃ v, w.accounts a = some v ∧ (!v.is_null) = true := by
      rcases hv : w.accounts a with _ | v
      · rw [hv] at hany
        cases hany
      · rw [hv] at hany
        exact ⟨v, rfl, hany⟩
    have hafter := hread a
    rw [hv] at hafter
    rw [Bool.not_eq_true'] at hnull
    simp only [ReadAfter, hnull] at hafter
    obtain ⟨v', hv', hreads⟩ := hafter
    refine ⟨?_, ?_, ?_, ?_, ?_⟩
    · rw [(balance_refines a db saved).value_eq hrep, (balance_refines a db' saved').value_eq hrep']
      simp [Ledger.balance, Ledger.balanceOf, Prog.value, hv, hv', hreads.balance, Except.map]
    · rw [(nonce_refines a db saved).value_eq hrep, (nonce_refines a db' saved').value_eq hrep']
      simp [Ledger.nonce, Ledger.nonceOf, Prog.value, hv, hv', hreads.nonce, Except.map]
    · rw [(code_hash_refines a db saved).value_eq hrep,
        (code_hash_refines a db' saved').value_eq hrep']
      simp [Ledger.code_hash, Prog.value, hv, hv', hreads.code_hash, Except.map]
    · refine ⟨_, _, value_code hrep (hcode a), value_code hrep' (hcode' a), ?_⟩
      rw [hv, hv']
      exact hreads.code
    · intro k hk
      rw [(storage_at_refines a k db saved).value_eq hrep,
        (storage_at_refines a k db' saved').value_eq hrep']
      simp [Ledger.storage_at, Ledger.storageOf, Prog.value, hv, hv',
        hreads.storage k hk, Except.map]
  null a ha := by
    rw [(exists_and_not_null_refines a db saved).value_eq hrep] at ha
    have hany : (w.accounts a).any (fun v => !v.is_null) = false := Except.ok.inj (Except.ok.inj ha)
    have hnone : w'.accounts a = none := by
      have hafter := hread a
      rcases hv : w.accounts a with _ | v
      · rw [hv] at hafter
        exact hafter
      · rw [hv] at hafter hany
        have hnull : v.is_null = true := by simpa using hany
        simpa only [ReadAfter, hnull, if_true] using hafter
    rw [(exists_refines a db' saved').value_eq hrep']
    simp [Ledger.exists, Prog.value, hnone, Except.map]
  total_issued_tokens := by
    have hs : s.total_issued_tokens = w.total_issued_tokens := by
      rw [← hrep.ledger_eq]
      rfl
    have hs' : s'.total_issued_tokens = w'.total_issued_tokens := by
      rw [← hrep'.ledger_eq]
      rfl
    rw [hs, hs', htotal]

/-- A commit returns if no checkpoint is open. -/
theorem commit_returns {db : StateDb} {s : State} {x : Snapshots Ledger} (h : RepSnapshots db s x)
    (hcs : s.checkpoints = []) : ∃ s', State.commit.final s = .ok s' ∧
      s'.total_issued_tokens = s.total_issued_tokens := by
  obtain ⟨owner, h⟩ := h
  have hts : s.world_statistics_checkpoints = [] := by
    have htotals := h.ok.totals
    rw [hcs] at htotals
    exact List.length_eq_zero_iff.mp htotals
  simp only [State.commit, Prog.final, run_bind, run_gets, Prog.assert, hcs, hts, List.isEmpty_nil,
    if_true, run_pure, run_update]
  exact ⟨_, rfl, rfl⟩

/-- A commit preserves what is read. Over a well-formed backend, after any state operations that
    keep slots and with every checkpoint closed, a commit returns; after it, and also in a state
    reopened on what the backend then holds, every account that is not null reads as before, every
    null account as non-existing, and the total of issued tokens is the same. What the cache does
    not have is not touched in the backend. -/
theorem commit_preserves_reads (hkeccak : ∀ c, keccak c = KECCAK_EMPTY → c = [])
    (codec : RecordCodec) (b : Backend) (hb : b.WellFormed codec) (cmds : List StoreCmd)
    (hcmds : ∀ c ∈ cmds, c.KeepsSlots (b.db codec).slots) (s : State) (g : Created)
    (hrun : runStore cmds (State.new (b.db codec), Created.init) = .ok (s, g))
    (hclosed : s.checkpoints = []) :
    ∃ s', State.commit.final s = .ok s' ∧ Persisted s s' ∧
      Persisted s (State.new ((s.commit_backend codec b).db codec)) ∧
      (s.commit_backend codec b).db codec = s'.db ∧
      ∀ a, a ∉ s.cache → s'.db.accounts a = (b.db codec).accounts a ∧
        s'.db.codes a = (b.db codec).codes a ∧
        ∀ k, k.length = 32 → s'.db.slots a k = (b.db codec).slots a k := by
  obtain ⟨x, hx, hold⟩ := durable_run hcmds (rep_new _) (durable_new hb.codes) hrun
  obtain ⟨s', hcommit, htotal⟩ := commit_returns hx hclosed
  obtain ⟨owner, hrep⟩ := hx
  have hsaved : x.saved = [] := by
    rw [← hrep.saved_eq, State.savedLedgers, hclosed]
    rfl
  rw [hsaved] at hrep
  have hdb := db_commit_backend codec hrep.db_eq hcommit
  have hcode : ∀ a v, x.cur.accounts a = some v → v.CodeOk a :=
    fun a v hv => (hold.cur.all.holds a v hv).code
  have hstored : s'.db.CodesStored := by
    refine codesStored_commit hrep hb.codes ?_ hcommit
    exact ⟨hold.cur.all.stored_eq, hcode⟩
  have hcode' : ∀ a v, s'.db.view a = some v → v.CodeOk a :=
    (codeOk_of_stored hstored s'.total_issued_tokens).holds
  have hread := readAfter_commit hkeccak hb.not_default hrep hold.cur hcommit
  obtain ⟨-, -, hcache, hreads, hcs, hts, hdb'⟩ := commit_inv hcommit
  have htotal' : s.total_issued_tokens = x.cur.total_issued_tokens := by
    rw [← hrep.ledger_eq]
    rfl
  refine ⟨s', hcommit, ?_, ?_, hdb, ?_⟩
  · exact persisted_of_readAfter ⟨owner, hrep⟩ (rep_of_empty hcache hcs hts hreads) hcode hcode'
      hread (htotal.trans htotal')
  · rw [hdb]
    refine persisted_of_readAfter ⟨owner, hrep⟩ (rep_new s'.db) hcode hcode' hread ?_
    -- The total is read back from the slot that the commit wrote last.
    show s'.db.slots STORAGE_INTEREST_STAKING_CONTRACT_ADDRESS TOTAL_TOKENS_KEY = _
    rw [hdb', StateDb.set_total_issued_tokens, StateDb.slots_set_storage, if_pos ⟨rfl, rfl⟩]
    exact htotal'
  · intro a ha
    have hlookup : s.cache.lookup a = none := AList.lookup_eq_none.mpr ha
    obtain ⟨haccount, hcodes, hslots⟩ := records_commit hrep hcommit a
    rw [hlookup] at haccount hcodes hslots
    exact ⟨haccount, hcodes, fun k hk => hslots k (not_total_key hk a)⟩

end

section
attribute [local instance] keccakOfStop HashOrder.asListed

/-- Records as numbers of 32 bytes, and codes as they are. -/
def fixedCodec : RecordCodec where
  encode_account v := bigEndian 32 v.balance.toNat ++ (bigEndian 32 v.nonce.toNat ++
    bigEndian 32 v.code_hash.toNat)
  decode_account raw := some ⟨BitVec.ofNat 256 (ofBigEndian (raw.take 32)),
    BitVec.ofNat 256 (ofBigEndian ((raw.drop 32).take 32)),
    BitVec.ofNat 256 (ofBigEndian (raw.drop 64))⟩
  encode_code v := v.code
  decode_code raw := some ⟨raw⟩
  encode_storage_value v := bigEndian 32 v.toNat
  decode_storage_value raw := some (BitVec.ofNat 256 (ofBigEndian raw))
  encode_u256 v := bigEndian 32 v.toNat
  decode_u256 raw := some (BitVec.ofNat 256 (ofBigEndian raw))
  account_round_trip v := by
    have hlength := fun n => length_bigEndian 32 n
    have hdrop : (bigEndian 32 v.balance.toNat).drop 64 = [] :=
      List.drop_eq_nil_of_le (by rw [hlength]; omega)
    simp [hlength, List.drop_append, hdrop, ofNat_bigEndian]
  code_round_trip _ := rfl
  storage_value_round_trip v := by simp [ofNat_bigEndian]
  u256_round_trip v := by simp [ofNat_bigEndian]

/-- A contract is created with a balance and one slot is written. -/
def createAndWrite : List StoreCmd :=
  [.cmd (.op (.new_contract 7 10 1)), .cmd (.op (.set_storage 7 (List.replicate 32 0) 5))]

/-- The balance and the slot are read after a commit on an empty backend. -/
theorem commit_preserves_new_contract :
    ∃ s g s', runStore createAndWrite (State.new (Backend.db fixedCodec fun _ => none), .init) =
        .ok (s, g) ∧ (State.storage_at 7 (List.replicate 32 0)).value s = .ok (.ok 5) ∧
      State.commit.final s = .ok s' ∧ Persisted s s' := by
  have hwf : Backend.WellFormed fixedCodec fun _ => none :=
    ⟨fun _ _ h => (nomatch h), fun _ _ _ h => (nomatch h), fun _ _ h => (nomatch h),
      fun _ _ h => (nomatch h), fun _ _ h => (nomatch h)⟩
  have hkeccak : ∀ c, keccak c = KECCAK_EMPTY → c = [] := by
    intro c hc
    cases c with
    | nil => rfl
    | cons b c =>
      have hne : (0xbc36789e7a1e281436464229828f817d6612f7b477d66591ff96a9e064bcc98a : H256) ≠
          0xc5d2460186f7233c927e7db2dcc703c0e500b653ca82273b7bfad8045d85a470 := by decide
      exact absurd hc hne
  have hcmds : ∀ c ∈ createAndWrite,
      c.KeepsSlots (Backend.db fixedCodec fun _ => none).slots := by
    intro c hc
    rcases List.mem_cons.mp hc with rfl | hc
    · exact fun _ => rfl
    · obtain rfl := List.mem_singleton.mp hc
      trivial
  obtain ⟨s, g, hrun, hclosed, hslot⟩ : ∃ s g,
      runStore createAndWrite (State.new (Backend.db fixedCodec fun _ => none), .init) =
        .ok (s, g) ∧ s.checkpoints = [] ∧
      (State.storage_at 7 (List.replicate 32 0)).value s = .ok (.ok 5) := ⟨_, _, rfl, rfl, rfl⟩
  obtain ⟨s', hcommit, hpersisted, -⟩ :=
    commit_preserves_reads hkeccak fixedCodec _ hwf _ hcmds s g hrun hclosed
  exact ⟨s, g, s', hrun, hslot, hcommit, hpersisted⟩

end

end CfxEvm
