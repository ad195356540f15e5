import CfxEvm.Lib.Keyed
import CfxEvm.State.Proofs.BackendProofs

/-!
# Proofs: the order of the writes of a commit

A commit goes over the accounts and, in each of them, over the changed slots. Every record is
written for one account, and every slot once, so what a commit leaves does not depend on the order
of either.
-/

open Lib Lib.Prog

namespace CfxEvm

/-! ## Writes under keys -/

/-- The address that a key belongs to. -/
def StateKey.address : StateKey → Address
  | AccountKey a => a
  | StorageKey a _ => a
  | CodeKey a => a

namespace DbWrite

/-- The key that is written. -/
def key : DbWrite → StateKey
  | delete_account a => .AccountKey a
  | set_account a _ => .AccountKey a
  | delete_storage a k => .StorageKey a k
  | set_storage a k _ => .StorageKey a k
  | set_code a _ => .CodeKey a

end DbWrite

/-- A record of any kind. -/
inductive Record
  | account (v : Account)
  | slot (v : U256)
  | code (v : CodeInfo)

/-- The record under a key. -/
def StateDb.record (db : StateDb) : StateKey → Option Record
  | .AccountKey a => (db.accounts a).map .account
  | .StorageKey a k => (db.storage a k).map .slot
  | .CodeKey a => (db.codes a).map .code

theorem StateDb.ext_record {db db' : StateDb} (h : ∀ key, db.record key = db'.record key) :
    db = db' := by
  refine StateDb.ext (fun a => ?_) (fun a k => ?_) fun a => ?_
  · exact Option.map_injective (fun _ _ h => Record.account.inj h) (h (.AccountKey a))
  · exact Option.map_injective (fun _ _ h => Record.slot.inj h) (h (.StorageKey a k))
  · exact Option.map_injective (fun _ _ h => Record.code.inj h) (h (.CodeKey a))

theorem StateDb.record_update_account (db : StateDb) (a : Address) (o : Option Account)
    (key : StateKey) :
    ({ db with accounts := Function.update db.accounts a o } : StateDb).record key =
      if key = .AccountKey a then o.map .account else db.record key := by
  cases key with
  | AccountKey b =>
    by_cases h : b = a
    · subst h
      simp [record]
    · simp [record, h]
  | StorageKey b k => rfl
  | CodeKey b => rfl

theorem StateDb.record_update_slot (db : StateDb) (a : Address) (k : Bytes) (o : Option U256)
    (key : StateKey) :
    ({ db with storage := Function.update db.storage a (Function.update (db.storage a) k o) } :
      StateDb).record key =
      if key = .StorageKey a k then o.map .slot else db.record key := by
  cases key with
  | AccountKey b => rfl
  | StorageKey b l =>
    by_cases h : b = a
    · subst h
      by_cases hk : l = k
      · subst hk
        simp [record]
      · simp [record, hk]
    · simp [record, h]
  | CodeKey b => rfl

theorem StateDb.record_update_code (db : StateDb) (a : Address) (o : Option CodeInfo)
    (key : StateKey) :
    ({ db with codes := Function.update db.codes a o } : StateDb).record key =
      if key = .CodeKey a then o.map .code else db.record key := by
  cases key with
  | AccountKey b => rfl
  | StorageKey b k => rfl
  | CodeKey b =>
    by_cases h : b = a
    · subst h
      simp [record]
    · simp [record, h]

section
variable [Keccak]

/-- What a write leaves under its key. -/
def DbWrite.record : DbWrite → Option Record
  | delete_account _ => none
  | set_account _ v => if v.is_default then none else some (.account v)
  | delete_storage _ _ => none
  | set_storage _ _ v => if v == 0 then none else some (.slot v)
  | set_code _ v => if v.code.length == 0 then none else some (.code v)

/-- A write changes the record under its key only. -/
theorem record_onDb (write : DbWrite) (db : StateDb) (key : StateKey) :
    (write.onDb db).record key = if key = write.key then write.record else db.record key := by
  cases write with
  | delete_account a => exact db.record_update_account a none key
  | set_account a v =>
    show (if v.is_default then _ else _ : StateDb).record key =
      if _ then (if v.is_default then _ else _) else _
    by_cases hv : v.is_default = true
    · rw [if_pos hv, if_pos hv]
      exact db.record_update_account a none key
    · rw [if_neg hv, if_neg hv]
      exact db.record_update_account a (some v) key
  | delete_storage a k => exact db.record_update_slot a k none key
  | set_storage a k v =>
    show (if v == 0 then _ else _ : StateDb).record key = if _ then (if v == 0 then _ else _) else _
    by_cases hv : (v == 0) = true
    · rw [if_pos hv, if_pos hv]
      exact db.record_update_slot a k none key
    · rw [if_neg hv, if_neg hv]
      exact db.record_update_slot a k (some v) key
  | set_code a v =>
    show (if v.code.length == 0 then _ else _ : StateDb).record key =
      if _ then (if v.code.length == 0 then _ else _) else _
    by_cases hv : (v.code.length == 0) = true
    · rw [if_pos hv, if_pos hv]
      exact db.record_update_code a none key
    · rw [if_neg hv, if_neg hv]
      exact db.record_update_code a (some v) key

theorem keysCommute_onDb : KeysCommute DbWrite.key fun db (write : DbWrite) => write.onDb db := by
  intro db u v hne
  refine StateDb.ext_record fun key => ?_
  rw [record_onDb, record_onDb, record_onDb, record_onDb]
  by_cases hv : key = v.key
  · rw [if_pos hv, if_neg fun h => hne (h.symm.trans hv), if_pos hv]
  · rw [if_neg hv, if_neg hv]

/-- A write to the backend is an update under the bytes of its key. -/
theorem onBackend_eq_update (codec : RecordCodec) (write : DbWrite) :
    ∃ value, ∀ b, write.onBackend codec b = Function.update b write.key.to_bytes value := by
  cases write with
  | delete_account a => exact ⟨none, fun _ => rfl⟩
  | delete_storage a k => exact ⟨none, fun _ => rfl⟩
  | set_account a v =>
    by_cases hv : v.is_default = true
    · exact ⟨none, fun b => if_pos hv⟩
    · exact ⟨some (codec.encode_account v), fun b => if_neg hv⟩
  | set_storage a k v =>
    by_cases hv : (v == 0) = true
    · exact ⟨none, fun b => if_pos hv⟩
    · exact ⟨some (codec.encode_slot a k v), fun b => if_neg hv⟩
  | set_code a v =>
    by_cases hv : (v.code.length == 0) = true
    · exact ⟨none, fun b => if_pos hv⟩
    · exact ⟨some (codec.encode_code v), fun b => if_neg hv⟩

theorem keysCommute_onBackend (codec : RecordCodec) :
    KeysCommute DbWrite.key fun b (write : DbWrite) => write.onBackend codec b := by
  intro b u v hne
  obtain ⟨x, hu⟩ := onBackend_eq_update codec u
  obtain ⟨y, hv⟩ := onBackend_eq_update codec v
  dsimp only
  rw [hu, hv, hu, hv]
  exact Function.update_comm (fun h => hne (StateKey.to_bytes_inj h)) _ _ _

/-! ## Any order -/

/-- The write for a slot. -/
def slotWrite (a : Address) (kv : Sigma fun _ : Bytes => U256) : DbWrite :=
  if kv.2 == 0 then .delete_storage a kv.1 else .set_storage a kv.1 kv.2

/-- The writes for the code of an account. -/
def codeWrites (acc : OverlayAccount) : List DbWrite :=
  match acc.code with
  | some code_info => [.set_code acc.address code_info]
  | none => []

/-- The writes of `OverlayAccount::commit` that goes over the slots in the given order. -/
def accountWritesIn (acc : OverlayAccount) (address : Address)
    (slots : List (Sigma fun _ : Bytes => U256)) :
    List DbWrite :=
  (if acc.invalidated_storage then [.delete_account acc.address] else []) ++
    slots.map (slotWrite acc.address) ++
    codeWrites acc ++ [.set_account address acc.as_account]

/-- What may be written for an entry: its slots come in any order. -/
inductive EntryOrder : (Sigma fun _ : Address => AccountEntry) → List DbWrite → Prop
  | absent {e} (h : e.2.account = none) : EntryOrder e []
  | removed {e acc} (h : e.2.account = some acc) (hremoved : acc.removed_without_update = true) :
      EntryOrder e []
  | account {e acc slots} (h : e.2.account = some acc)
    (hremoved : acc.removed_without_update = false)
      (hslots : slots.Perm acc.storage_value_write_cache.entries) :
      EntryOrder e (accountWritesIn acc e.1 slots)

/-- The write for an account that was removed. -/
def killWrites (e : Sigma fun _ : Address => AccountEntry) : List DbWrite :=
  (State.killed_address e).toList.map .delete_account

/-- The write for the total of issued tokens. -/
def totalWrite (s : State) : DbWrite :=
  .set_storage STORAGE_INTEREST_STAKING_CONTRACT_ADDRESS TOTAL_TOKENS_KEY s.total_issued_tokens

/-- What may be written by a commit: the accounts come in any order, and so do the slots of each. -/
def CommitOrder (s : State) (writes : List DbWrite) : Prop :=
  ∃ entries blocks, entries.Perm s.cache.entries ∧ List.Forall₂ EntryOrder entries blocks ∧
    writes = blocks.flatten ++ (entries.map killWrites).flatten ++ [totalWrite s]

section
variable [HashOrder]

theorem entry_writes_order (e : Sigma fun _ : Address => AccountEntry) :
    EntryOrder e (State.entry_writes e) := by
  unfold State.entry_writes
  rcases hacc : e.2.account with _ | acc
  · exact .absent hacc
  · dsimp only
    by_cases hremoved : acc.removed_without_update = true
    · rw [if_pos hremoved]
      exact .removed hacc hremoved
    · rw [if_neg hremoved]
      exact .account hacc (Bool.eq_false_iff.mpr hremoved) (HashMap.drain_perm _)

/-- The order that a commit takes. -/
theorem commit_writes_order (s : State) : CommitOrder s s.commit_writes := by
  have hsorted : (s.cache.drain.insertionSort fun a b =>
      a.1.toNat ≤ b.1.toNat).Perm s.cache.entries :=
    (List.perm_insertionSort _ _).trans (HashMap.drain_perm _)
  refine ⟨_, _, hsorted,
    List.forall₂_map_right_iff.mpr (List.forall₂_same.mpr fun e _ => entry_writes_order e), ?_⟩
  have hkills : ∀ l : List (Sigma fun _ : Address => AccountEntry),
      (l.map killWrites).flatten = (l.filterMap State.killed_address).map .delete_account := by
    intro l
    induction l with
    | nil => rfl
    | cons e l ih =>
      rw [List.map_cons, List.flatten_cons, ih, killWrites]
      rcases hkilled : State.killed_address e with _ | a
      · rw [List.filterMap_cons_none hkilled]
        rfl
      · rw [List.filterMap_cons_some hkilled]
        rfl
  unfold State.commit_writes
  dsimp only
  rw [hkills, List.flatMap_def]
  rfl

end

/-! ## One key -/

/-- Every cached account is under its own address. -/
def State.OwnAddresses (s : State) : Prop :=
  ∀ a e acc, s.cache.lookup a = some e → e.account = some acc → acc.address = a

theorem Rep.ownAddresses {db : StateDb} {saved : List Ledger} {s : State} {w : Ledger}
    (h : Rep db saved s w) :
    s.OwnAddresses := by
  obtain ⟨owner, h⟩ := h
  intro a e acc hlookup hacc
  exact ((h.ok.cached a e hlookup).account acc hacc).address

omit [Keccak] in
theorem slotWrite_key (a : Address) (kv : Sigma fun _ : Bytes => U256) :
    (slotWrite a kv).key = .StorageKey a kv.1 := by
  unfold slotWrite
  split <;> rfl

omit [Keccak] in
/-- All writes of an account are under its address. -/
theorem address_accountWritesIn {acc : OverlayAccount} {a : Address} (ha : acc.address = a)
    {slots : List (Sigma fun _ : Bytes => U256)} {write : DbWrite}
    (h : write ∈ accountWritesIn acc a slots) :
    write.key.address = a := by
  simp only [accountWritesIn, List.mem_append, List.mem_singleton] at h
  rcases h with ((h | h) | h) | rfl
  · split at h
    · rw [List.mem_singleton.mp h]
      exact ha
    · cases h
  · obtain ⟨kv, -, rfl⟩ := List.mem_map.mp h
    rw [slotWrite_key]
    exact ha
  · unfold codeWrites at h
    split at h
    · rw [List.mem_singleton.mp h]
      exact ha
    · cases h
  · rfl

theorem EntryOrder.address {e : Sigma fun _ : Address => AccountEntry} {writes : List DbWrite}
    (h : EntryOrder e writes) (hown : ∀ acc, e.2.account = some acc → acc.address = e.1)
    {write : DbWrite}
    (hwrite : write ∈ writes) : write.key.address = e.1 := by
  cases h with
  | absent h => cases hwrite
  | removed h _ => cases hwrite
  | account h _ _ => exact address_accountWritesIn (hown _ h) hwrite

/-- The writes to the slot of a key. -/
def slotUnder (acc : OverlayAccount) : StateKey → List DbWrite
  | .StorageKey a k =>
    if a = acc.address then
      ((acc.storage_value_write_cache.lookup k).map fun v => [slotWrite acc.address ⟨k, v⟩]).getD []
    else []
  | _ => []

omit [Keccak] in
/-- A slot is written once. -/
theorem underKey_slots {acc : OverlayAccount} {slots : List (Sigma fun _ : Bytes => U256)}
    (hslots : slots.Perm acc.storage_value_write_cache.entries) (key : StateKey) :
    underKey DbWrite.key key (slots.map (slotWrite acc.address)) = slotUnder acc key := by
  have hnone : (∀ kv : Sigma fun _ : Bytes => U256, StateKey.StorageKey acc.address kv.1 ≠ key) →
      underKey DbWrite.key key (slots.map (slotWrite acc.address)) = [] := by
    intro h
    refine underKey_eq_nil fun write hwrite => ?_
    obtain ⟨kv, -, rfl⟩ := List.mem_map.mp hwrite
    rw [slotWrite_key]
    exact h kv
  cases key with
  | AccountKey a => exact hnone fun _ h => (nomatch h)
  | CodeKey a => exact hnone fun _ h => (nomatch h)
  | StorageKey a k =>
    rw [slotUnder]
    by_cases ha : a = acc.address
    · subst ha
      have hkeys : slots.NodupKeys := (List.perm_nodupKeys hslots).mpr (AList.nodupKeys _)
      have hlookup : acc.storage_value_write_cache.lookup k = slots.dlookup k :=
        (List.perm_dlookup k hkeys hslots).symm
      rw [if_pos rfl, hlookup]
      have hflat : slots.map (slotWrite acc.address) =
          (slots.map fun kv => [slotWrite acc.address kv]).flatten := by
        rw [← List.flatMap_def]
        exact List.map_eq_flatMap
      rw [hflat]
      refine underKey_flatten (B := fun kv block => block = [slotWrite acc.address kv])
        (List.forall₂_map_right_iff.mpr (List.forall₂_same.mpr fun _ _ => rfl))
        hkeys ?_ ?_
      · rintro kv _ - rfl hne write hwrite
        rw [List.mem_singleton.mp hwrite, slotWrite_key]
        intro h
        cases h
        exact hne rfl
      · rintro ⟨_, v⟩ _ - rfl rfl
        refine underKey_eq_self fun write hwrite => ?_
        rw [List.mem_singleton.mp hwrite, slotWrite_key]
    · rw [if_neg ha]
      refine hnone fun kv h => ?_
      cases h
      exact ha rfl

/-- The writes of an entry under a key. -/
def entryUnder (key : StateKey) (e : AccountEntry) : List DbWrite :=
  match e.account with
  | none => []
  | some acc =>
    if acc.removed_without_update then []
    else
      underKey DbWrite.key key (if acc.invalidated_storage then
        [.delete_account acc.address] else []) ++
        slotUnder acc key ++ underKey DbWrite.key key (codeWrites acc) ++
        underKey DbWrite.key key [.set_account acc.address acc.as_account]

theorem EntryOrder.underKey_eq {e : Sigma fun _ : Address => AccountEntry} {writes : List DbWrite}
    (h : EntryOrder e writes) (hown : ∀ acc, e.2.account = some acc → acc.address = e.1)
    (key : StateKey) :
    underKey DbWrite.key key writes = entryUnder key e.2 := by
  unfold entryUnder
  cases h with
  | absent h => rw [h]; rfl
  | removed h hremoved =>
    rw [h]
    exact (if_pos hremoved).symm
  | account h hremoved hslots =>
    rw [h]
    dsimp only
    rw [hremoved, if_neg Bool.false_ne_true, accountWritesIn, underKey_append, underKey_append,
      underKey_append,
      underKey_slots hslots, hown _ h]

theorem address_killWrites {e : Sigma fun _ : Address => AccountEntry} {write : DbWrite}
    (h : write ∈ killWrites e) : write.key.address = e.1 := by
  obtain ⟨a, ha, rfl⟩ := List.mem_map.mp h
  have hkilled := Option.mem_toList.mp ha
  unfold State.killed_address at hkilled
  split at hkilled
  · cases hkilled
  · split at hkilled
    · cases hkilled
      rfl
    · cases hkilled

/-- The write under a key for an account that was removed. -/
def killUnder (key : StateKey) (e : AccountEntry) : List DbWrite :=
  underKey DbWrite.key key (killWrites ⟨key.address, e⟩)

/-- What a commit writes under a key, in whatever order it goes. -/
theorem CommitOrder.underKey_eq {s : State} {writes : List DbWrite} (h : CommitOrder s writes)
    (hown : s.OwnAddresses) (key : StateKey) :
    underKey DbWrite.key key writes =
      ((s.cache.lookup key.address).map (entryUnder key)).getD [] ++
        ((s.cache.lookup key.address).map (killUnder key)).getD [] ++
          underKey DbWrite.key key [totalWrite s] := by
  obtain ⟨entries, blocks, hentries, hblocks, rfl⟩ := h
  have hkeys : entries.NodupKeys := (List.perm_nodupKeys hentries).mpr s.cache.nodupKeys
  have hlookup : s.cache.lookup key.address = entries.dlookup key.address :=
    (List.perm_dlookup _ hkeys hentries).symm
  have howns : ∀ e ∈ entries, ∀ acc, e.2.account = some acc → acc.address = e.1 := by
    rintro ⟨a, e⟩ he acc hacc
    exact hown a e acc (AList.mem_lookup_iff.mpr (hentries.mem_iff.mp he)) hacc
  rw [underKey_append, underKey_append, hlookup]
  congr 2
  · refine underKey_flatten hblocks hkeys ?_ ?_
    · intro e block he hblock hne write hwrite heq
      exact hne ((hblock.address (howns e he) hwrite).symm.trans (congrArg StateKey.address heq))
    · intro e block he hblock _
      exact hblock.underKey_eq (howns e he) key
  · refine underKey_flatten (B := fun e block => block = killWrites e)
      (List.forall₂_map_right_iff.mpr (List.forall₂_same.mpr fun _ _ => rfl)) hkeys ?_ ?_
    · rintro e _ - rfl hne write hwrite rfl
      exact hne (address_killWrites hwrite).symm
    · rintro ⟨_, e⟩ _ - rfl rfl
      rfl

/-- Two states whose caches agree on what a commit writes. -/
structure CommitAlike (s s' : State) : Prop where
  own : s.OwnAddresses
  own' : s'.OwnAddresses
  entries : ∀ a, s'.cache.lookup a = s.cache.lookup a ∨
    ∃ e e', s.cache.lookup a = some e ∧ s'.cache.lookup a = some e' ∧
      (∃ acc, e.account = some acc ∧ acc.removed_without_update = true) ∧
      ∃ acc, e'.account = some acc ∧ acc.removed_without_update = true
  total : s'.total_issued_tokens = s.total_issued_tokens

/-- The commits of such states have the same effect, in whatever orders they go. -/
theorem CommitAlike.underKey_eq {s s' : State} (h : CommitAlike s s')
    {writes writes' : List DbWrite}
    (horder : CommitOrder s writes) (horder' : CommitOrder s' writes') (key : StateKey) :
    underKey DbWrite.key key writes = underKey DbWrite.key key writes' := by
  rw [horder.underKey_eq h.own, horder'.underKey_eq h.own', totalWrite, totalWrite, h.total]
  rcases h.entries key.address with hsame | ⟨e, e', he, he', ⟨acc, hacc, hremoved⟩, acc',
    hacc', hremoved'⟩
  · rw [hsame]
  · -- both accounts were removed, so only their deletion is written
    have hentry : entryUnder key e = [] ∧ entryUnder key e' = [] := by
      unfold entryUnder
      rw [hacc, hacc']
      exact ⟨if_pos hremoved, if_pos hremoved'⟩
    have hkill : killUnder key e = killUnder key e' := by
      unfold killUnder killWrites State.killed_address
      dsimp only
      rw [hacc, hacc']
      dsimp only
      rw [if_pos hremoved, if_pos hremoved']
    rw [he, he', Option.map_some, Option.map_some, Option.map_some, Option.map_some, hentry.1,
      hentry.2, hkill]

section
variable {s s' : State} {writes writes' : List DbWrite}

theorem CommitAlike.onDb_eq (h : CommitAlike s s') (horder : CommitOrder s writes)
    (horder' : CommitOrder s' writes') (db : StateDb) :
    writes.foldl (fun db write => write.onDb db) db =
      writes'.foldl (fun db write => write.onDb db) db :=
  keysCommute_onDb.foldl_eq (h.underKey_eq horder horder') db

theorem CommitAlike.onBackend_eq (h : CommitAlike s s') (horder : CommitOrder s writes)
    (horder' : CommitOrder s' writes') (codec : RecordCodec) (b : Backend) :
    writes.foldl (fun b write => write.onBackend codec b) b =
      writes'.foldl (fun b write => write.onBackend codec b) b :=
  (keysCommute_onBackend codec).foldl_eq (h.underKey_eq horder horder') b

end

end

end CfxEvm
