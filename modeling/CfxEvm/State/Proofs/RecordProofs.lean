import CfxEvm.State.Proofs.AccountProofs

/-!
# Proofs: the records that a commit writes

A commit writes the cached accounts one after the other, each of them under its own address only.
So what the database holds of an address afterwards depends on the entry of that address alone, and
what is said here of one address holds whatever else is in the cache.
-/

open Lib Lib.Prog

namespace CfxEvm

/-- What the database holds of one address, with zero for the slots that it does not hold. -/
@[ext]
structure Records where
  account : Option Account
  slots : Bytes → U256
  code : Option CodeInfo

def StateDb.records (db : StateDb) (a : Address) : Records :=
  ⟨db.accounts a, db.slots a, db.codes a⟩

/-- The record of a code; the empty one is not stored. -/
def CodeInfo.stored (c : CodeInfo) : Option CodeInfo := if c.code.length == 0 then none else some c

section
variable [Keccak]

/-- The record of an account; the default one is not stored. -/
def Account.stored (acc : Account) : Option Account := if acc.is_default then none else some acc

/-- What the commit of an account makes of the records of its address. -/
def OverlayAccount.commitRecords (acc : OverlayAccount) (r : Records) : Records where
  account := acc.as_account.stored
  slots k := (acc.storage_value_write_cache.lookup k).getD (r.slots k)
  code := (acc.code.map CodeInfo.stored).getD r.code

/-- What a commit makes of the records of an address, by the cached entry of the address. -/
def entryRecords (entry : Option AccountEntry) (r : Records) : Records :=
  match entry.bind AccountEntry.account with
  | none => r
  | some acc =>
    if acc.removed_without_update then { r with account := none } else acc.commitRecords r

end

namespace StateDb

variable (db : StateDb) (a b : Address)

theorem records_delete_account :
    (db.delete_account b).records a =
      if a = b then { db.records a with account := none } else db.records a := by
  unfold delete_account records
  by_cases h : a = b
  · subst h
    simp only [Function.update_self, if_true]
    rfl
  · simp only [Function.update_of_ne h, if_neg h]
    rfl

theorem records_set_account [Keccak] (acc : Account) :
    (db.set_account b acc).records a =
      if a = b then { db.records a with account := acc.stored } else db.records a := by
  unfold set_account Account.stored
  by_cases hdefault : acc.is_default = true
  · simp only [hdefault, if_true]
    exact records_delete_account db a b
  · rw [if_neg hdefault, if_neg hdefault]
    by_cases h : a = b
    · subst h
      simp only [records, Function.update_self, if_true]
      rfl
    · simp only [records, Function.update_of_ne h, if_neg h]
      rfl

theorem records_set_code (c : CodeInfo) :
    (db.set_code b c).records a =
      if a = b then { db.records a with code := c.stored } else db.records a := by
  unfold set_code CodeInfo.stored records
  by_cases h : a = b
  · subst h
    by_cases hc : (c.code.length == 0) = true
    · rw [if_pos hc, if_pos hc, if_pos rfl]
      simp only [Function.update_self]
      rfl
    · rw [if_neg hc, if_neg hc, if_pos rfl]
      simp only [Function.update_self]
      rfl
  · by_cases hc : (c.code.length == 0) = true
    · rw [if_pos hc, if_neg h]
      simp only [Function.update_of_ne h]
      rfl
    · rw [if_neg hc, if_neg h]
      simp only [Function.update_of_ne h]
      rfl

theorem records_of_slots {db' : StateDb} (haccounts : db'.accounts = db.accounts)
    (hcodes : db'.codes = db.codes) (hslots : ∀ k, db'.slots a k = db.slots a k) :
    db'.records a = db.records a := by
  unfold records
  rw [haccounts, hcodes, funext hslots]

/-- A write to a slot, with or without a value. -/
theorem records_write_slot (k : Bytes) (v : U256) :
    (if v == 0 then db.delete_storage b k else db.set_storage b k v).records a =
      if a = b then { db.records a with slots := Function.update (db.slots a) k v }
      else db.records a := by
  have hslots : ∀ l, (if v == 0 then db.delete_storage b k else db.set_storage b k v).slots a l =
      if a = b ∧ l = k then v else db.slots a l := by
    intro l
    by_cases hv : (v == 0) = true
    · rw [if_pos hv, slots_delete_storage, eq_of_beq hv]
    · rw [if_neg hv, slots_set_storage]
  have hrest : (if v == 0 then db.delete_storage b k else db.set_storage b k v).accounts =
        db.accounts ∧
      (if v == 0 then db.delete_storage b k else db.set_storage b k v).codes = db.codes := by
    unfold set_storage delete_storage
    by_cases hv : (v == 0) = true
    · rw [if_pos hv]
      exact ⟨rfl, rfl⟩
    · rw [if_neg hv, if_neg hv]
      exact ⟨rfl, rfl⟩
  by_cases h : a = b
  · rw [if_pos h]
    ext1
    · exact congrFun hrest.1 a
    · funext l
      show (if v == 0 then db.delete_storage b k else db.set_storage b k v).slots a l = _
      rw [hslots l]
      by_cases hl : l = k
      · subst hl
        simp [h]
      · simp [hl]
    · exact congrFun hrest.2 a
  · rw [if_neg h]
    refine records_of_slots db a hrest.1 hrest.2 fun l => ?_
    rw [hslots l, if_neg fun hal => h hal.1]

end StateDb

theorem records_recycle_storage (l : List Address) (db : StateDb) (a : Address) :
    (State.recycle_storage l db).records a =
      if a ∈ l then { db.records a with account := none } else db.records a := by
  unfold State.recycle_storage
  induction l generalizing db with
  | nil => rfl
  | cons b l ih =>
    rw [List.foldl_cons, ih, StateDb.records_delete_account]
    by_cases hb : a = b
    · subst hb
      by_cases hl : a ∈ l
      · simp [hl]
      · simp [hl]
    · by_cases hl : a ∈ l
      · simp [hb, hl]
      · simp [hb, hl]

section
/-- The loop over the write cache of an account. -/
theorem records_write_slots (b a : Address) (l : List (Sigma fun _ : Bytes => U256))
    (hl : l.NodupKeys) (db : StateDb) :
    (l.foldl (fun db kv => if kv.2 == 0 then db.delete_storage b kv.1
      else db.set_storage b kv.1 kv.2) db).records a =
      if a = b then { db.records a with slots := fun k => (l.dlookup k).getD (db.slots a k) }
      else db.records a := by
  induction l generalizing db with
  | nil =>
    by_cases h : a = b
    · rw [if_pos h]
      rfl
    · rw [if_neg h]
      rfl
  | cons kv l ih =>
    obtain ⟨hnotin, hl'⟩ := List.nodupKeys_cons.mp hl
    rw [List.foldl_cons, ih hl', StateDb.records_write_slot]
    by_cases h : a = b
    · have hslots : ∀ k, (if kv.2 == 0 then db.delete_storage b kv.1
          else db.set_storage b kv.1 kv.2).slots a k =
              Function.update (db.slots a) kv.1 kv.2 k := by
        intro k
        have hrecords := StateDb.records_write_slot db a b kv.1 kv.2
        rw [if_pos h] at hrecords
        exact congrFun (congrArg Records.slots hrecords) k
      rw [if_pos h, if_pos h, if_pos h]
      ext1
      · rfl
      · funext k
        show (l.dlookup k).getD _ = ((kv :: l).dlookup k).getD _
        rw [hslots k]
        by_cases hk : k = kv.1
        · subst hk
          have hnone : l.dlookup kv.1 = none := List.dlookup_eq_none.mpr hnotin
          rw [hnone, List.dlookup_cons_eq, Function.update_self]
          rfl
        · rw [List.dlookup_cons_ne l kv hk, Function.update_of_ne hk]
      · rfl
    · rw [if_neg h, if_neg h, if_neg h]

variable [Keccak] [HashOrder]

/-- A committed account is written under its own address only. -/
theorem records_commit_account {acc : OverlayAccount} (b a : Address) (hb : acc.address = b)
    (db : StateDb) :
    (State.commit_account acc b db).records a =
      if a = b then acc.commitRecords (db.records a) else db.records a := by
  subst hb
  have hrec : (if acc.invalidated_storage then State.recycle_storage [acc.address] db
      else db).records a = if a = acc.address ∧ acc.invalidated_storage = true
        then { db.records a with account := none } else db.records a := by
    by_cases hinv : acc.invalidated_storage = true
    · rw [if_pos hinv, records_recycle_storage]
      simp [hinv]
    · rw [if_neg hinv, if_neg fun h => hinv h.2]
  unfold State.commit_account
  simp only [StateDb.records_set_account]
  generalize (if acc.invalidated_storage then State.recycle_storage [acc.address] db else db) = db₁
    at hrec ⊢
  have hslots := records_write_slots acc.address a acc.storage_value_write_cache.drain
    acc.storage_value_write_cache.nodupKeys_drain db₁
  generalize acc.storage_value_write_cache.drain.foldl _ db₁ = db₂ at hslots ⊢
  by_cases h : a = acc.address
  · simp only [h, true_and] at hrec hslots ⊢
    simp only [if_true] at hslots ⊢
    have hslots₁ : db₁.slots acc.address = db.slots acc.address := by
      have := congrArg Records.slots hrec
      split at this <;> exact this
    have hcode₁ : db₁.codes acc.address = db.codes acc.address := by
      have := congrArg Records.code hrec
      split at this <;> exact this
    have hslots₂ : db₂.slots acc.address = fun k =>
        (acc.storage_value_write_cache.lookup k).getD (db.slots acc.address k) := by
      have hslots₃ : db₂.slots acc.address = fun k =>
          (acc.storage_value_write_cache.drain.dlookup k).getD (db₁.slots acc.address k) :=
        congrArg Records.slots hslots
      rw [hslots₃, hslots₁]
      funext k
      rw [HashMap.dlookup_drain]
    have hcode₂ : db₂.codes acc.address = db.codes acc.address :=
      (congrArg Records.code hslots).trans hcode₁
    unfold OverlayAccount.commitRecords
    rcases acc.code with _ | c
    · ext1
      · rfl
      · exact hslots₂
      · exact hcode₂
    · simp only [StateDb.records_set_code, if_true]
      ext1
      · rfl
      · exact hslots₂
      · rfl
  · simp only [h, false_and, if_false] at hrec hslots ⊢
    rcases acc.code with _ | c
    · exact hslots.trans hrec
    · simp only [StateDb.records_set_code, if_neg h]
      exact hslots.trans hrec

/-- One round of the loop of `commit` leaves the other addresses alone. -/
theorem commit_entry_of_ne {a : Address} {e : Sigma fun _ : Address => AccountEntry}
    (haddress : ∀ acc, e.2.account = some acc → acc.address = e.1) (ha : a ≠ e.1)
    (x : List Address × StateDb) :
    (State.commit_entry x e).2.records a = x.2.records a ∧
      (a ∈ (State.commit_entry x e).1 ↔ a ∈ x.1) := by
  unfold State.commit_entry
  rcases hacc : e.2.account with _ | acc
  · exact ⟨rfl, Iff.rfl⟩
  · by_cases hremoved : acc.removed_without_update = true
    · simp [hremoved, ha]
    · simp only [hremoved]
      refine ⟨?_, Iff.rfl⟩
      have hrecords := records_commit_account e.1 a (haddress acc hacc) x.2
      rw [if_neg ha] at hrecords
      exact hrecords

/-- One round of the loop of `commit`, at the address of its entry. -/
theorem commit_entry_self {e : Sigma fun _ : Address => AccountEntry}
    (haddress : ∀ acc, e.2.account = some acc → acc.address = e.1) {x : List Address × StateDb}
    (hx : e.1 ∉ x.1) :
    (State.recycle_storage (State.commit_entry x e).1 (State.commit_entry x e).2).records e.1 =
      entryRecords (some e.2) (x.2.records e.1) := by
  unfold State.commit_entry entryRecords
  rw [records_recycle_storage, Option.bind_some]
  rcases hacc : e.2.account with _ | acc
  · simp only [hx, if_false]
  · by_cases hremoved : acc.removed_without_update = true
    · simp [hremoved]
    · have hrecords := records_commit_account e.1 e.1 (haddress acc hacc) x.2
      rw [if_pos rfl] at hrecords
      simp [hremoved, hx, hrecords]

section
variable {a : Address} {l : List (Sigma fun _ : Address => AccountEntry)}

/-- Rounds with the entries of other addresses. -/
theorem commit_entries_of_notin
    (haddress : ∀ e ∈ l, ∀ acc, e.2.account = some acc → acc.address = e.1) (ha : a ∉ l.keys)
    (x : List Address × StateDb) :
    (l.foldl State.commit_entry x).2.records a = x.2.records a ∧
      (a ∈ (l.foldl State.commit_entry x).1 ↔ a ∈ x.1) := by
  induction l generalizing x with
  | nil => exact ⟨rfl, Iff.rfl⟩
  | cons e l ih =>
    rw [List.keys_cons, List.mem_cons, not_or] at ha
    obtain ⟨hrecords, hmem⟩ := ih (fun e' he' => haddress e' (List.mem_cons_of_mem e he')) ha.2
      (State.commit_entry x e)
    obtain ⟨hrecords₁, hmem₁⟩ := commit_entry_of_ne (haddress e (by simp)) ha.1 x
    rw [List.foldl_cons]
    exact ⟨hrecords.trans hrecords₁, hmem.trans hmem₁⟩

/-- The loop of `commit` and the deletion of the removed accounts: every address is written by its
    own entry. -/
theorem records_commit_entries (hl : l.NodupKeys)
    (haddress : ∀ e ∈ l, ∀ acc, e.2.account = some acc → acc.address = e.1)
    {x : List Address × StateDb} (hx : a ∉ x.1) :
    (State.recycle_storage (l.foldl State.commit_entry x).1
      (l.foldl State.commit_entry x).2).records a =
      entryRecords (l.dlookup a) (x.2.records a) := by
  induction l generalizing x with
  | nil =>
    rw [List.foldl_nil, records_recycle_storage, if_neg hx]
    rfl
  | cons e l ih =>
    obtain ⟨hnotin, hl'⟩ := List.nodupKeys_cons.mp hl
    have hhead := haddress e (by simp)
    have htail := fun e' he' => haddress e' (List.mem_cons_of_mem e he')
    rw [List.foldl_cons]
    by_cases ha : a = e.1
    · subst ha
      obtain ⟨hrecords, hmem⟩ := commit_entries_of_notin htail hnotin (State.commit_entry x e)
      have hself := commit_entry_self hhead hx
      rw [records_recycle_storage] at hself
      rw [List.dlookup_cons_eq, records_recycle_storage, hrecords]
      simpa only [hmem] using hself
    · obtain ⟨hrecords, hmem⟩ := commit_entry_of_ne hhead ha x
      rw [List.dlookup_cons_ne l e ha, ih hl' htail (fun h => hx (hmem.mp h)), hrecords]

end

/-- What the database holds after a commit. Only the slot of the total of issued tokens is written
    beside the entries of the cache. -/
theorem records_commit {db : StateDb} {saved : List Ledger} {owner : Owner} {s s' : State}
    {w : Ledger} (h : RepBy db saved owner s w) (hrun : State.commit.final s = .ok s')
    (a : Address) :
    s'.db.accounts a = (entryRecords (s.cache.lookup a) (db.records a)).account ∧
      s'.db.codes a = (entryRecords (s.cache.lookup a) (db.records a)).code ∧
      ∀ k, ¬(a = STORAGE_INTEREST_STAKING_CONTRACT_ADDRESS ∧ k = TOTAL_TOKENS_KEY) →
        s'.db.slots a k = (entryRecords (s.cache.lookup a) (db.records a)).slots k := by
  obtain ⟨-, -, -, -, -, -, hdb'⟩ := commit_inv hrun
  have hperm := (List.perm_insertionSort (fun a b : Sigma fun _ : Address => AccountEntry =>
    a.1.toNat ≤ b.1.toNat) s.cache.drain).trans s.cache.drain_perm
  have hnodup := (List.perm_nodupKeys hperm).mpr s.cache.nodupKeys
  have haddress : ∀ e ∈ s.cache.drain.insertionSort fun a b => a.1.toNat ≤ b.1.toNat,
      ∀ acc, e.2.account = some acc → acc.address = e.1 := by
    rintro ⟨b, e⟩ he acc hacc
    have hlookup : s.cache.lookup b = some e := AList.mem_lookup_iff.mpr (hperm.mem_iff.mp he)
    exact ((h.ok.cached b e hlookup).account acc hacc).address
  have hrecords := records_commit_entries (a := a) (x := ([], s.db)) hnodup haddress (by simp)
  have hlookup : (s.cache.drain.insertionSort fun a b => a.1.toNat ≤ b.1.toNat).dlookup a =
      s.cache.lookup a := List.perm_dlookup a hnodup hperm
  rw [hlookup, h.db_eq] at hrecords
  rw [hdb', h.db_eq, ← hrecords]
  have hrest : ∀ db₁ : StateDb, ∀ v, (db₁.set_total_issued_tokens v).accounts = db₁.accounts ∧
      (db₁.set_total_issued_tokens v).codes = db₁.codes := by
    intro db₁ v
    unfold StateDb.set_total_issued_tokens StateDb.set_storage StateDb.delete_storage
    by_cases hv : (v == 0) = true
    · rw [if_pos hv]
      exact ⟨rfl, rfl⟩
    · rw [if_neg hv]
      exact ⟨rfl, rfl⟩
  refine ⟨?_, ?_, fun k hk => ?_⟩
  · rw [(hrest _ _).1]
    rfl
  · rw [(hrest _ _).2]
    rfl
  · rw [StateDb.set_total_issued_tokens, StateDb.slots_set_storage, if_neg hk]
    rfl

end

end CfxEvm
