import CfxEvm.State.Creation
import CfxEvm.State.Proofs.SnapshotProofs

/-!
# Commits and the storage of new contracts

What a commit makes of a storage slot, and from it the law that a new contract starts with empty
storage, over runs whose creations all happen at addresses without stored slots. The flags that
hide stored slots from a new contract are lost at the commit, and a slot of a removed contract is
never deleted from the database, so the condition cannot be dropped.
-/

open Lib

namespace CfxEvm

/-! ## What the writes of a commit do to one slot -/

theorem StateDb.slots_delete_storage (db : StateDb) (a b : Address) (k l : Bytes) :
    (db.delete_storage b l).slots a k = if a = b ∧ k = l then 0 else db.slots a k := by
  unfold StateDb.delete_storage StateDb.slots
  by_cases hab : a = b
  · subst hab
    by_cases hkl : k = l
    · subst hkl
      simp
    · simp [hkl]
  · simp [hab]

theorem StateDb.slots_set_storage (db : StateDb) (a b : Address) (k l : Bytes) (v : U256) :
    (db.set_storage b l v).slots a k = if a = b ∧ k = l then v else db.slots a k := by
  unfold StateDb.set_storage
  split
  · rename_i hv
    rw [StateDb.slots_delete_storage, eq_of_beq hv]
  · unfold StateDb.slots
    by_cases hab : a = b
    · subst hab
      by_cases hkl : k = l
      · subst hkl
        simp
      · simp [hkl]
    · simp [hab]

theorem StateDb.slots_delete_account (db : StateDb) (b : Address) :
    (db.delete_account b).slots = db.slots := rfl

theorem StateDb.slots_set_code (db : StateDb) (b : Address) (v : CodeInfo) :
    (db.set_code b v).slots = db.slots := by
  unfold StateDb.set_code
  split <;> rfl

theorem slots_recycle_storage (l : List Address) (db : StateDb) :
    (State.recycle_storage l db).slots = db.slots := by
  unfold State.recycle_storage
  induction l generalizing db with
  | nil => rfl
  | cons a l ih => rw [List.foldl_cons, ih, StateDb.slots_delete_account]

section
variable [Keccak]

theorem StateDb.slots_set_account (db : StateDb) (b : Address) (v : Account) :
    (db.set_account b v).slots = db.slots := by
  unfold StateDb.set_account
  split <;> rfl

variable [HashOrder]

/-- A committed account writes zero to a slot that it shows as zero, if it writes to it at all. -/
theorem slots_commit_account {acc : OverlayAccount} {a b : Address} {k : Bytes} {db : StateDb}
    (hdb : db.slots a k = 0)
    (hacc : acc.address = a → ∀ v, acc.storage_value_write_cache.lookup k = some v → v = 0) :
    (State.commit_account acc b db).slots a k = 0 := by
  have hfold : ∀ (l : List (Sigma fun _ : Bytes => U256)) (db : StateDb),
      (∀ kv ∈ l, acc.address = a → kv.1 = k → kv.2 = 0) → db.slots a k = 0 →
      (l.foldl (fun db kv => if kv.2 == 0 then db.delete_storage acc.address kv.1
        else db.set_storage acc.address kv.1 kv.2) db).slots a k = 0 := by
    intro l
    induction l with
    | nil => exact fun db _ h => h
    | cons kv l ih =>
      intro db hl h
      rw [List.foldl_cons]
      refine ih _ (fun kv' hkv' => hl kv' (by simp [hkv'])) ?_
      split
      · rw [StateDb.slots_delete_storage]
        split
        · rfl
        · exact h
      · rw [StateDb.slots_set_storage]
        split
        · rename_i heq
          exact hl kv (by simp) heq.1.symm heq.2.symm
        · exact h
  have hmem : ∀ kv ∈ acc.storage_value_write_cache.drain, acc.address = a → kv.1 = k →
      kv.2 = 0 := by
    rintro ⟨k', v⟩ hkv haddr rfl
    have hentry : ⟨k', v⟩ ∈ acc.storage_value_write_cache.entries :=
      (HashMap.drain_perm _).mem_iff.mp hkv
    exact hacc haddr v (AList.mem_lookup_iff.mpr hentry)
  simp only [State.commit_account, StateDb.slots_set_account]
  have hrec : (if acc.invalidated_storage then State.recycle_storage [acc.address] db
      else db).slots a k = 0 := by
    split
    · rw [slots_recycle_storage]
      exact hdb
    · exact hdb
  rcases acc.code with _ | c
  · exact hfold _ _ hmem hrec
  · rw [StateDb.slots_set_code]
    exact hfold _ _ hmem hrec

/-- The loop of `commit` over entries that all leave the slot at zero. -/
theorem slots_commit_entries {a : Address} {k : Bytes}
    (l : List (Sigma fun _ : Address => AccountEntry)) (killed : List Address) (db : StateDb)
    (hdb : db.slots a k = 0)
    (hl : ∀ e ∈ l, ∀ acc, e.2.account = some acc → acc.address = a →
      ∀ v, acc.storage_value_write_cache.lookup k = some v → v = 0) :
    (l.foldl State.commit_entry (killed, db)).2.slots a k = 0 := by
  induction l generalizing killed db with
  | nil => exact hdb
  | cons e l ih =>
    rw [List.foldl_cons]
    have hl' := fun e' he' => hl e' (List.mem_cons_of_mem e he')
    unfold State.commit_entry
    rcases hacc : e.2.account with _ | acc
    · exact ih killed db hdb hl'
    · simp only
      split
      · exact ih _ db hdb hl'
      · exact ih killed _ (slots_commit_account hdb (hl e (by simp) acc hacc)) hl'

omit [HashOrder] in
/-- A state without cached accounts and checkpoints shows what its database shows. -/
theorem rep_of_empty {s : State} (hcache : s.cache = ∅) (hcs : s.checkpoints = [])
    (hts : s.world_statistics_checkpoints = []) (hreads : s.read_caches = fun _ => ∅) :
    Rep s.db [] s ⟨s.db.view, s.total_issued_tokens, s.db.slots⟩ := by
  refine ⟨fun _ => (0, false), ⟨?_, ?_, ?_, by rw [hcs, hts]; rfl⟩, rfl, ?_, ?_⟩
  · intro r k v hv
    rw [hreads] at hv
    exact absurd hv (by simp)
  · intro a e he
    rw [hcache] at he
    exact absurd he (by simp)
  · intro c hc
    rw [hcs] at hc
    exact absurd hc (by simp)
  · rw [State.savedLedgers, hcs]
    rfl
  · have hviews : s.accountViews = s.db.view := by
      funext a
      rw [State.accountViews, hcache]
      rfl
    rw [State.ledger, hviews]

/-- A commit returns only if no checkpoint is open. -/
theorem commit_inv {s s' : State} (hrun : State.commit.final s = .ok s') :
    s.checkpoints = [] ∧ s.world_statistics_checkpoints = [] ∧ s'.cache = ∅ ∧
      s'.read_caches = (fun _ => ∅) ∧ s'.checkpoints = [] ∧
      s'.world_statistics_checkpoints = [] ∧
      s'.db = (State.recycle_storage
        ((s.cache.drain.insertionSort fun a b => a.1.toNat ≤ b.1.toNat).foldl
          State.commit_entry ([], s.db)).1
        ((s.cache.drain.insertionSort fun a b => a.1.toNat ≤ b.1.toNat).foldl
          State.commit_entry ([], s.db)).2).set_total_issued_tokens s.total_issued_tokens := by
  simp only [State.commit, Prog.final, Prog.run_bind, Prog.run_gets, Prog.assert] at hrun
  rcases hcs : s.checkpoints with _ | ⟨c, cs⟩
  · rcases hts : s.world_statistics_checkpoints with _ | ⟨t, ts⟩
    · simp only [hcs, hts, List.isEmpty_nil, if_true, Prog.run_pure, Prog.run_update] at hrun
      obtain rfl := Except.ok.inj hrun
      exact ⟨rfl, rfl, rfl, rfl, rfl, rfl, rfl⟩
    · simp [hcs, hts, Except.map] at hrun
  · simp [hcs, Except.map] at hrun

/-- A slot that is zero in the database and shows as zero is zero after a commit, unless it is
    under the address where the commit stores the total of issued tokens. -/
theorem slots_commit {db : StateDb} {s s' : State} {x : Snapshots Ledger}
    (h : RepSnapshots db s x) (hrun : State.commit.final s = .ok s') {a : Address} {k : Bytes}
    (ha : a ≠ STORAGE_INTEREST_STAKING_CONTRACT_ADDRESS) (hdb : db.slots a k = 0)
    (hcur : x.cur.storageOf a k = 0) : s'.db.slots a k = 0 := by
  obtain ⟨-, -, -, -, -, -, hdb'⟩ := commit_inv hrun
  obtain ⟨owner, h⟩ := h
  obtain rfl := h.db_eq
  rw [hdb', StateDb.set_total_issued_tokens, StateDb.slots_set_storage, if_neg (fun h => ha h.1),
    slots_recycle_storage]
  refine slots_commit_entries _ _ _ hdb ?_
  -- Every entry of the loop is one of the cache, so what it writes is what the reads show.
  rintro ⟨b, e⟩ he acc hacc haddr v hv
  have hlookup : s.cache.lookup b = some e := by
    have hmem := (List.perm_insertionSort _ _).mem_iff.mp he
    exact AList.mem_lookup_iff.mpr ((HashMap.drain_perm _).mem_iff.mp hmem)
  have hb : acc.address = b := ((h.ok.cached b e hlookup).account acc hacc).address
  have hview := h.view_of_cached ⟨e, hlookup, hacc⟩
  rw [← hb, haddr] at hview
  rw [Ledger.storageOf, hview] at hcur
  simpa [OverlayAccount.view, hv] using hcur

end

end CfxEvm
