import CfxEvm.State.Backend
import CfxEvm.State.Proofs.CommitProofs
import CfxEvm.Types.Proofs.WordProofs

/-!
# Proofs: records under byte strings

No two keys of the backend are the same byte string: keys of different kinds differ in their
lengths, those of one kind in the address or in the storage key. So every write to the backend is
the write to the database that it holds, and so is a whole commit.
-/

open Lib Lib.Prog

namespace CfxEvm

/-! ## Keys -/

theorem ofNat_bigEndian (v : U256) : BitVec.ofNat 256 (ofBigEndian (bigEndian 32 v.toNat)) = v := by
  have hlt : v.toNat < 256 ^ 32 := v.isLt
  rw [ofBigEndian_bigEndian, Nat.mod_eq_of_lt hlt, BitVec.ofNat_toNat, BitVec.setWidth_eq]

theorem Address.length_to_bytes (a : Address) : a.to_bytes.length = 20 := length_bigEndian 20 _

theorem Address.to_bytes_inj {a b : Address} (h : a.to_bytes = b.to_bytes) : a = b := by
  have hmod := congrArg ofBigEndian h
  unfold to_bytes at hmod
  rw [ofBigEndian_bigEndian, ofBigEndian_bigEndian] at hmod
  have ha : a.toNat % 256 ^ 20 = a.toNat := Nat.mod_eq_of_lt a.isLt
  have hb : b.toNat % 256 ^ 20 = b.toNat := Nat.mod_eq_of_lt b.isLt
  rw [ha, hb] at hmod
  exact BitVec.eq_of_toNat_eq hmod

/-- Different keys are different byte strings. -/
theorem StateKey.to_bytes_inj {k l : StateKey} (h : k.to_bytes = l.to_bytes) : k = l := by
  have hlength := congrArg List.length h
  cases k with
  | AccountKey a =>
    cases l with
    | AccountKey b => rw [Address.to_bytes_inj h]
    | StorageKey b l =>
      simp [to_bytes, STORAGE_PREFIX, Address.length_to_bytes] at hlength
    | CodeKey b => simp [to_bytes, CODE_PREFIX, Address.length_to_bytes] at hlength
  | StorageKey a k =>
    cases l with
    | AccountKey b =>
      simp [to_bytes, STORAGE_PREFIX, Address.length_to_bytes] at hlength
    | StorageKey b l =>
      simp only [to_bytes, List.append_assoc] at h
      have hlengths : a.to_bytes.length = b.to_bytes.length := by
        rw [Address.length_to_bytes, Address.length_to_bytes]
      obtain ⟨haddress, hrest⟩ := List.append_inj h hlengths
      rw [Address.to_bytes_inj haddress, List.append_cancel_left hrest]
    | CodeKey b =>
      simp [to_bytes, STORAGE_PREFIX, CODE_PREFIX, Address.length_to_bytes] at hlength
      omega
  | CodeKey a =>
    cases l with
    | AccountKey b => simp [to_bytes, CODE_PREFIX, Address.length_to_bytes] at hlength
    | StorageKey b l =>
      simp [to_bytes, STORAGE_PREFIX, CODE_PREFIX, Address.length_to_bytes] at hlength
      omega
    | CodeKey b =>
      simp only [to_bytes] at h
      rw [Address.to_bytes_inj (List.append_cancel_right h)]

namespace Backend

variable (b : Backend) {key key' : StateKey}

theorem get_set_self (value : Bytes) : (b.set key value).get key = some value := by
  simp [set, get]

theorem get_set_of_ne (h : key' ≠ key) (value : Bytes) :
    (b.set key value).get key' = b.get key' := by
  have hne : key'.to_bytes ≠ key.to_bytes := fun heq => h (StateKey.to_bytes_inj heq)
  simp [set, get, hne]

theorem get_delete_self : (b.delete key).get key = none := by
  simp [delete, get]

theorem get_delete_of_ne (h : key' ≠ key) : (b.delete key).get key' = b.get key' := by
  have hne : key'.to_bytes ≠ key.to_bytes := fun heq => h (StateKey.to_bytes_inj heq)
  simp [delete, get, hne]

end Backend

/-! ## Writes -/

@[ext]
theorem StateDb.ext {db db' : StateDb} (haccounts : ∀ a, db.accounts a = db'.accounts a)
    (hstorage : ∀ a k, db.storage a k = db'.storage a k) (hcodes : ∀ a, db.codes a = db'.codes a) :
    db = db' := by
  obtain ⟨accounts, storage, codes⟩ := db
  obtain ⟨accounts', storage', codes'⟩ := db'
  obtain rfl : accounts = accounts' := funext haccounts
  obtain rfl : storage = storage' := funext fun a => funext fun k => hstorage a k
  obtain rfl : codes = codes' := funext hcodes
  rfl

theorem RecordCodec.slot_round_trip (codec : RecordCodec) (a : Address) (k : Bytes) (v : U256) :
    codec.decode_slot a k (codec.encode_slot a k v) = some v := by
  unfold decode_slot encode_slot
  by_cases h : StateKey.StorageKey a k = TOTAL_KEY
  · rw [if_pos h, if_pos h]
    exact codec.u256_round_trip v
  · rw [if_neg h, if_neg h]
    exact codec.storage_value_round_trip v

namespace Backend

variable (codec : RecordCodec) (b : Backend)

theorem db_delete_account (a : Address) :
    (b.delete (.AccountKey a)).db codec = (b.db codec).delete_account a := by
  ext a'
  · by_cases h : a' = a
    · subst h
      simp [db, StateDb.delete_account, get_delete_self]
    · simp [db, StateDb.delete_account, h, get_delete_of_ne]
  · simp [db, StateDb.delete_account, get_delete_of_ne]
  · simp [db, StateDb.delete_account, get_delete_of_ne]

theorem db_delete_storage (a : Address) (k : Bytes) :
    (b.delete (.StorageKey a k)).db codec = (b.db codec).delete_storage a k := by
  ext a' k'
  · simp [db, StateDb.delete_storage, get_delete_of_ne]
  · by_cases h : a' = a
    · subst h
      by_cases hk : k' = k
      · subst hk
        simp [db, StateDb.delete_storage, get_delete_self]
      · simp [db, StateDb.delete_storage, hk, get_delete_of_ne]
    · simp [db, StateDb.delete_storage, h, get_delete_of_ne]
  · simp [db, StateDb.delete_storage, get_delete_of_ne]

variable [Keccak]

/-- A write to the backend is the write to the database that it holds. -/
theorem db_onBackend (write : DbWrite) :
    (write.onBackend codec b).db codec = write.onDb (b.db codec) := by
  cases write with
  | delete_account a => exact db_delete_account codec b a
  | set_account a v =>
    simp only [DbWrite.onBackend, DbWrite.onDb, StateDb.set_account]
    by_cases hv : v.is_default = true
    · rw [if_pos hv, if_pos hv]
      exact db_delete_account codec b a
    · rw [if_neg hv, if_neg hv]
      ext a'
      · by_cases h : a' = a
        · subst h
          simp [db, get_set_self, codec.account_round_trip]
        · simp [db, h, get_set_of_ne]
      · simp [db, get_set_of_ne]
      · simp [db, get_set_of_ne]
  | delete_storage a k => exact db_delete_storage codec b a k
  | set_storage a k v =>
    simp only [DbWrite.onBackend, DbWrite.onDb, StateDb.set_storage]
    by_cases hv : (v == 0) = true
    · rw [if_pos hv, if_pos hv]
      exact db_delete_storage codec b a k
    · rw [if_neg hv, if_neg hv]
      ext a' k'
      · simp [db, get_set_of_ne]
      · by_cases h : a' = a
        · subst h
          by_cases hk : k' = k
          · subst hk
            simp [db, get_set_self, codec.slot_round_trip]
          · simp [db, hk, get_set_of_ne]
        · simp [db, h, get_set_of_ne]
      · simp [db, get_set_of_ne]
  | set_code a v =>
    simp only [DbWrite.onBackend, DbWrite.onDb, StateDb.set_code]
    by_cases hv : (v.code.length == 0) = true
    · rw [if_pos hv, if_pos hv]
      ext a'
      · simp [db, get_delete_of_ne]
      · simp [db, get_delete_of_ne]
      · by_cases h : a' = a
        · subst h
          simp [db, get_delete_self]
        · simp [db, h, get_delete_of_ne]
    · rw [if_neg hv, if_neg hv]
      ext a'
      · simp [db, get_set_of_ne]
      · simp [db, get_set_of_ne]
      · by_cases h : a' = a
        · subst h
          simp [db, get_set_self, codec.code_round_trip]
        · simp [db, h, get_set_of_ne]

theorem db_writes (l : List DbWrite) (b : Backend) :
    (l.foldl (fun b write => write.onBackend codec b) b).db codec =
      l.foldl (fun db write => write.onDb db) (b.db codec) := by
  induction l generalizing b with
  | nil => rfl
  | cons write l ih => rw [List.foldl_cons, List.foldl_cons, ih, db_onBackend]

end Backend

/-! ## Commits -/

section
variable [Keccak] [HashOrder]

theorem onDb_account_writes (acc : OverlayAccount) (address : Address) (db : StateDb) :
    (State.account_writes acc address).foldl (fun db write => write.onDb db) db =
      State.commit_account acc address db := by
  unfold State.account_writes State.commit_account
  rw [List.foldl_append, List.foldl_append, List.foldl_append, List.foldl_map]
  have hrecycled : (if acc.invalidated_storage then [DbWrite.delete_account acc.address]
      else []).foldl (fun db write => write.onDb db) db =
      if acc.invalidated_storage then State.recycle_storage [acc.address] db else db := by
    split <;> rfl
  rw [hrecycled]
  have hslot : (fun (db : StateDb) (kv : Sigma fun _ : Bytes => U256) =>
      (if kv.2 == 0 then DbWrite.delete_storage acc.address kv.1
        else DbWrite.set_storage acc.address kv.1 kv.2).onDb db) =
      fun db kv => if kv.2 == 0 then db.delete_storage acc.address kv.1
        else db.set_storage acc.address kv.1 kv.2 := by
    funext db kv
    split <;> rfl
  rw [hslot]
  rcases acc.code with _ | c <;> rfl

/-- The loop of `commit` as writes. -/
theorem onDb_entry_writes (l : List (Sigma fun _ : Address => AccountEntry))
    (killed : List Address) (db : StateDb) :
    l.foldl State.commit_entry (killed, db) = (killed ++ l.filterMap State.killed_address,
      (l.flatMap State.entry_writes).foldl (fun db write => write.onDb db) db) := by
  induction l generalizing killed db with
  | nil => simp
  | cons e l ih =>
    rw [List.foldl_cons, List.flatMap_cons, List.foldl_append]
    rcases hacc : e.2.account with _ | acc
    · have hkilled : State.killed_address e = none := by simp [State.killed_address, hacc]
      have hwrites : State.entry_writes e = [] := by simp [State.entry_writes, hacc]
      have hentry : State.commit_entry (killed, db) e = (killed, db) := by
        simp [State.commit_entry, hacc]
      rw [List.filterMap_cons_none hkilled, hwrites, hentry, ih, List.foldl_nil]
    · by_cases hremoved : acc.removed_without_update = true
      · have hkilled : State.killed_address e = some e.1 := by
          simp [State.killed_address, hacc, hremoved]
        have hwrites : State.entry_writes e = [] := by simp [State.entry_writes, hacc, hremoved]
        have hentry : State.commit_entry (killed, db) e = (killed ++ [e.1], db) := by
          simp [State.commit_entry, hacc, hremoved]
        rw [List.filterMap_cons_some hkilled, hwrites, hentry, ih, List.foldl_nil,
          List.append_assoc, List.singleton_append]
      · have hkilled : State.killed_address e = none := by
          simp [State.killed_address, hacc, hremoved]
        have hwrites : State.entry_writes e = State.account_writes acc e.1 := by
          simp [State.entry_writes, hacc, hremoved]
        have hentry : State.commit_entry (killed, db) e =
            (killed, State.commit_account acc e.1 db) := by
          simp [State.commit_entry, hacc, hremoved]
        rw [List.filterMap_cons_none hkilled, hwrites, hentry, ih, onDb_account_writes]

/-- A commit makes its writes. -/
theorem commit_eq_writes {s s' : State} (hrun : State.commit.final s = .ok s') :
    s'.db = s.commit_writes.foldl (fun db write => write.onDb db) s.db := by
  obtain ⟨-, -, -, -, -, -, hdb'⟩ := commit_inv hrun
  rw [hdb', onDb_entry_writes]
  unfold State.commit_writes
  rw [List.foldl_append, List.foldl_append, List.foldl_map]
  rfl

/-- What the backend holds after a commit is the database of the committed state. -/
theorem db_commit_backend (codec : RecordCodec) {b : Backend} {s s' : State}
    (hb : s.db = b.db codec) (hrun : State.commit.final s = .ok s') :
    (s.commit_backend codec b).db codec = s'.db := by
  unfold State.commit_backend
  rw [Backend.db_writes, commit_eq_writes hrun, hb]

end

end CfxEvm
