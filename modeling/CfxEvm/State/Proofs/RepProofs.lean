import CfxEvm.State.Ledger

/-!
# The representation invariant of the state

`Rep` relates a state to the ledger it stands for. Its invariant part has to do with what a
lookup in the cache may rely on:

* an entry that is not dirty shows what the database shows, so that a revert may leave it in the
  cache, or drop it, without a difference;
* a read cache belongs to one address, and either agrees with the database there or, for an account
  whose storage is fresh, is empty. Since read caches are shared, the owner of a cache is a ghost
  function `owner` of the references, not a property of one account.

The lemmas of this module are about the few ways in which the operations change a state; none of
them mentions an operation.
-/

open Lib

namespace CfxEvm

/-- The address a read cache belongs to, and whether the storage there is fresh. -/
abbrev Owner := CacheRef → Address × Bool

/-- The read cache of an owner holds what the database holds. -/
def ReadCacheOk (db : StateDb) (o : Address × Bool) (m : HashMap Bytes U256) : Prop :=
  ∀ k v, m.lookup k = some v → o.2 = false ∧ v = db.slots o.1 k

/-- The account is the one of the address, and refers to a read cache of its own kind. -/
structure AccountOk (next : CacheRef) (owner : Owner) (a : Address) (acc : OverlayAccount) :
    Prop where
  address : acc.address = a
  ref_lt : acc.storage_value_read_cache < next
  owner_eq : owner acc.storage_value_read_cache = (a, acc.fresh_storage)

theorem AccountOk.mono {next next' : CacheRef} {owner owner' : Owner} {a : Address}
    {acc : OverlayAccount} (h : AccountOk next owner a acc) (hnext : next ≤ next')
    (howner : ∀ r < next, owner' r = owner r) : AccountOk next' owner' a acc where
  address := h.address
  ref_lt := h.ref_lt.trans_le hnext
  owner_eq := (howner _ h.ref_lt).trans h.owner_eq

@[simp] theorem OverlayAccount.clone_dirty_eq (acc : OverlayAccount) : acc.clone_dirty = acc := rfl

@[simp] theorem AccountEntry.clone_dirty_eq (e : AccountEntry) : e.clone_dirty = e := by
  obtain ⟨_ | acc, st⟩ := e <;> rfl

/-- Of two accounts of one address, overwriting the first with the second gives the second. -/
theorem OverlayAccount.overwrite_with_eq {acc other : OverlayAccount}
    (h : acc.address = other.address) : acc.overwrite_with other = other := by
  obtain ⟨⟩ := other
  simp only [overwrite_with, h]

/-- A merged checkpoint reverts as the two did one after the other. -/
theorem lookup_merge_checkpoint [HashOrder] (prev c : HashMap Address (Option AccountEntry))
    (a : Address) :
    (State.merge_checkpoint prev c).lookup a = (prev.lookup a).orElse fun _ => c.lookup a := by
  unfold State.merge_checkpoint
  split
  · rename_i he
    have hnone : prev.lookup a = none := by
      simp [AList.lookup, List.isEmpty_iff.mp he]
    rw [hnone]
    rfl
  · rw [HashMap.lookup_foldl (fun v o => some (o.getD v)) ?_ _ c.nodupKeys_drain,
      HashMap.dlookup_drain]
    · cases c.lookup a <;> cases prev.lookup a <;> rfl
    · intro m e b
      rw [HashMap.lookup_orInsert]
      split
      · rename_i hb
        rw [hb]
      · rfl

section
variable [Keccak]

/-- An entry of the address `a`, cached or saved. -/
structure EntryOk (db : StateDb) (next : CacheRef) (owner : Owner) (a : Address)
    (e : AccountEntry) : Prop where
  clean : e.is_dirty = false → e.account.map (OverlayAccount.view db) = db.view a
  account : ∀ acc, e.account = some acc → AccountOk next owner a acc

/-- The invariant of the state, for the owners of its read caches. -/
structure State.Ok (owner : Owner) (s : State) : Prop where
  reads : ∀ r, ReadCacheOk s.db (owner r) (s.read_caches r)
  cached : ∀ a e, s.cache.lookup a = some e → EntryOk s.db s.next_ref owner a e
  saved : ∀ c ∈ s.checkpoints, ∀ a e, c.lookup a = some (some e) →
    EntryOk s.db s.next_ref owner a e
  totals : s.world_statistics_checkpoints.length = s.checkpoints.length

/-- A state over the database `db` with the checkpoints `saved`, showing the ledger `w`, with the
    owners of the read caches given. -/
structure RepBy (db : StateDb) (saved : List Ledger) (owner : Owner) (s : State) (w : Ledger) :
    Prop where
  ok : s.Ok owner
  db_eq : s.db = db
  saved_eq : s.savedLedgers = saved
  ledger_eq : s.ledger = w

/-- A state over the database `db` with the checkpoints `saved`, showing the ledger `w`. -/
def Rep (db : StateDb) (saved : List Ledger) (s : State) (w : Ledger) : Prop :=
  ∃ owner, RepBy db saved owner s w

theorem Rep.ledger_eq {db : StateDb} {saved : List Ledger} {s : State} {w : Ledger}
    (h : Rep db saved s w) : s.ledger = w := by
  obtain ⟨owner, h⟩ := h
  exact h.ledger_eq

/-! ## Entries and owners -/

theorem EntryOk.mono {db : StateDb} {next next' : CacheRef} {owner owner' : Owner} {a : Address}
    {e : AccountEntry} (h : EntryOk db next owner a e) (hnext : next ≤ next')
    (howner : ∀ r < next, owner' r = owner r) : EntryOk db next' owner' a e where
  clean := h.clean
  account := fun acc hacc => (h.account acc hacc).mono hnext howner

/-- A dirty entry of an account that is in order is in order. -/
theorem EntryOk.of_dirty {db : StateDb} {next : CacheRef} {owner : Owner} {a : Address}
    {o : Option OverlayAccount} (h : ∀ acc, o = some acc → AccountOk next owner a acc) :
    EntryOk db next owner a ⟨o, .Dirty⟩ where
  clean := fun hd => absurd hd (by simp [AccountEntry.is_dirty])
  account := h

theorem AccountEntry.overwrite_with_eq {db : StateDb} {next : CacheRef} {owner : Owner}
    {a : Address} {e other : AccountEntry} (he : EntryOk db next owner a e)
    (ho : EntryOk db next owner a other) : e.overwrite_with other = other := by
  obtain ⟨_ | acc', st'⟩ := other
  · rfl
  obtain ⟨_ | acc, st⟩ := e
  · rfl
  have h : acc.address = acc'.address :=
    (he.account acc rfl).address.trans (ho.account acc' rfl).address.symm
  simp only [AccountEntry.overwrite_with, OverlayAccount.overwrite_with_eq h]

/-! ## Unwinding -/

/-- The last checkpoint, if any, holds an old value for the address. -/
def Saved (a : Address) (cs : List (HashMap Address (Option AccountEntry))) : Prop :=
  ∀ c ∈ cs.head?, a ∈ c

/-- Once the old value at `a` is saved, the current one does not matter to a revert. -/
theorem unwind_of_saved {db : StateDb} {cs : List (HashMap Address (Option AccountEntry))}
    {a : Address} (hs : Saved a cs) {cur cur' : Address → Option AccountView}
    (h : ∀ b, b ≠ a → cur b = cur' b) : unwind db cur cs = unwind db cur' cs := by
  cases cs with
  | nil => rfl
  | cons c cs =>
    have hc : a ∈ c := hs c rfl
    have hrev : (fun b => ((c.lookup b).map (entryView db b)).getD (cur b)) =
        fun b => ((c.lookup b).map (entryView db b)).getD (cur' b) := by
      funext b
      by_cases hb : b = a
      · subst hb
        obtain ⟨o, ho⟩ := Option.isSome_iff_exists.mp (AList.lookup_isSome.mpr hc)
        simp only [ho, Option.map_some, Option.getD_some]
      · rw [h b hb]
    simp only [unwind, hrev]

/-- Saving the value that is current changes nothing for a revert. -/
theorem unwind_save {db : StateDb} {c : HashMap Address (Option AccountEntry)}
    {cs : List (HashMap Address (Option AccountEntry))} {a : Address} {old : Option AccountEntry}
    {cur : Address → Option AccountView} (h : entryView db a old = cur a) :
    unwind db cur (c.orInsert a old :: cs) = unwind db cur (c :: cs) := by
  have hrev : (fun b => (((c.orInsert a old).lookup b).map (entryView db b)).getD (cur b)) =
      fun b => ((c.lookup b).map (entryView db b)).getD (cur b) := by
    funext b
    rw [HashMap.lookup_orInsert]
    split
    · subst b
      cases c.lookup a with
      | none => simpa using h
      | some o => rfl
    · rfl
  simp only [unwind, hrev]

/-! ## Changes of the state -/

section
variable {db : StateDb} {saved : List Ledger} {owner : Owner} {s : State} {w : Ledger} {a : Address}

theorem RepBy.accounts_eq (h : RepBy db saved owner s w) (a : Address) :
    w.accounts a = entryView s.db a (s.cache.lookup a) := by
  rw [← h.ledger_eq]
  rfl

theorem RepBy.stored_eq (h : RepBy db saved owner s w) : w.stored = s.db.slots := by
  rw [← h.ledger_eq]
  rfl

theorem State.accountViews_insert_cache (s : State) (a : Address) (e : AccountEntry) :
    (s.insert_cache a e).accountViews =
      Function.update s.accountViews a (e.account.map (OverlayAccount.view s.db)) := by
  funext b
  by_cases hb : b = a
  · subst hb
    simp [State.accountViews, State.insert_cache, entryView]
  · rw [Function.update_of_ne hb]
    simp only [State.accountViews, State.insert_cache, AList.lookup_insert_ne hb]

theorem State.Ok.insert_cache (h : s.Ok owner) {e : AccountEntry}
    (he : EntryOk s.db s.next_ref owner a e) : (s.insert_cache a e).Ok owner where
  reads := h.reads
  cached := by
    intro b e' hlookup
    simp only [State.insert_cache, HashMap.lookup_insert_eq] at hlookup
    split at hlookup
    · rename_i hb
      subst hb
      obtain rfl := Option.some.inj hlookup
      exact he
    · exact h.cached b e' hlookup
  saved := h.saved
  totals := h.totals

/-- An entry may be replaced by one that shows the same. -/
theorem RepBy.insert_same (h : RepBy db saved owner s w) {e : AccountEntry}
    (he : EntryOk s.db s.next_ref owner a e)
    (hview : e.account.map (OverlayAccount.view s.db) = w.accounts a) :
    RepBy db saved owner (s.insert_cache a e) w := by
  have hviews : (s.insert_cache a e).accountViews = s.accountViews := by
    rw [State.accountViews_insert_cache, hview, ← h.ledger_eq]
    exact Function.update_eq_self a _
  refine ⟨h.ok.insert_cache he, h.db_eq, ?_, ?_⟩
  · rw [← h.saved_eq, State.savedLedgers, hviews]
    rfl
  · rw [← h.ledger_eq, State.ledger, hviews]
    rfl

/-- An entry whose old value is saved may be replaced by any other. -/
theorem RepBy.insert_saved (h : RepBy db saved owner s w) {e : AccountEntry}
    (he : EntryOk s.db s.next_ref owner a e) (hs : Saved a s.checkpoints) :
    RepBy db saved owner (s.insert_cache a e)
      { w with accounts :=
        Function.update w.accounts a (e.account.map (OverlayAccount.view s.db)) } := by
  refine ⟨h.ok.insert_cache he, h.db_eq, ?_, ?_⟩
  · rw [← h.saved_eq, State.savedLedgers, State.accountViews_insert_cache]
    have hun : unwind s.db (Function.update s.accountViews a
        (e.account.map (OverlayAccount.view s.db))) s.checkpoints =
        unwind s.db s.accountViews s.checkpoints :=
      unwind_of_saved hs fun b hb => Function.update_of_ne hb _ _
    simp only [State.insert_cache, State.savedLedgers, hun]
  · rw [← h.ledger_eq, State.ledger, State.accountViews_insert_cache]
    rfl

/-- The current value may be saved at any time. -/
theorem RepBy.save_old (h : RepBy db saved owner s w) {old : Option AccountEntry}
    (hold : ∀ e, old = some e → EntryOk s.db s.next_ref owner a e)
    (hview : entryView s.db a old = w.accounts a) :
    RepBy db saved owner (s.save_old a old) w ∧ Saved a (s.save_old a old).checkpoints := by
  have hcur : entryView s.db a old = s.accountViews a := hview.trans (h.accounts_eq a)
  rcases hcs : s.checkpoints with _ | ⟨c, cs⟩
  · have hself : s.save_old a old = s := by simp only [State.save_old, hcs]
    rw [hself]
    exact ⟨h, by simp [Saved, hcs]⟩
  · have hself : s.save_old a old = { s with checkpoints := c.orInsert a old :: cs } := by
      simp only [State.save_old, hcs]
    rw [hself]
    refine ⟨⟨⟨h.ok.reads, h.ok.cached, ?_, ?_⟩, h.db_eq, ?_, h.ledger_eq⟩, ?_⟩
    · intro c' hc' b e hlookup
      rcases List.mem_cons.mp hc' with rfl | hc'
      · rw [HashMap.lookup_orInsert] at hlookup
        split at hlookup
        · rename_i hb
          subst hb
          rcases hl : c.lookup b with _ | o <;> rw [hl] at hlookup
          · exact hold e (Option.some.inj hlookup)
          · refine h.ok.saved c (by simp [hcs]) b e ?_
            rw [hl]
            exact hlookup
        · exact h.ok.saved c (by simp [hcs]) b e hlookup
      · exact h.ok.saved c' (by simp [hcs, hc']) b e hlookup
    · simpa [hcs] using h.ok.totals
    · rw [← h.saved_eq]
      have hun : unwind s.db s.accountViews (c.orInsert a old :: cs) =
          unwind s.db s.accountViews s.checkpoints := hcs ▸ unwind_save hcur
      exact congrArg (fun l => List.zipWith _ l _) hun
    · rintro c' hc'
      obtain rfl : c.orInsert a old = c' := by simpa using hc'
      rw [← AList.lookup_isSome, HashMap.lookup_orInsert, if_pos rfl]
      rfl

/-- The state after a read cache was allocated. -/
def State.allocated (s : State) : State :=
  { s with next_ref := s.next_ref + 1, read_caches := Function.update s.read_caches s.next_ref ∅ }

/-- A new read cache is empty, so it may belong to any owner. -/
theorem RepBy.allocated (h : RepBy db saved owner s w) (o : Address × Bool) :
    RepBy db saved (Function.update owner s.next_ref o) s.allocated w := by
  have hle : s.next_ref ≤ s.next_ref + 1 := Nat.le_succ _
  have hown : ∀ r < s.next_ref, Function.update owner s.next_ref o r = owner r :=
    fun r hr => Function.update_of_ne hr.ne _ _
  refine ⟨⟨?_, ?_, ?_, h.ok.totals⟩, h.db_eq, h.saved_eq, h.ledger_eq⟩
  · intro r
    by_cases hr : r = s.next_ref
    · subst hr
      intro k v hkv
      simp [State.allocated] at hkv
    · simpa only [State.allocated, Function.update_of_ne hr] using h.ok.reads r
  · exact fun a e he => (h.ok.cached a e he).mono hle hown
  · exact fun c hc a e he => (h.ok.saved c hc a e he).mono hle hown

/-- What the database holds may be remembered in the read cache of a cached account. -/
theorem RepBy.insert_read_cache (h : RepBy db saved owner s w) {acc : OverlayAccount}
    (hacc : AccountOk s.next_ref owner a acc) (hfresh : acc.fresh_storage = false) (k : Bytes) :
    RepBy db saved owner
      (s.insert_read_cache acc.storage_value_read_cache k (s.db.slots a k)) w := by
  refine ⟨⟨?_, h.ok.cached, h.ok.saved, h.ok.totals⟩, h.db_eq, h.saved_eq, h.ledger_eq⟩
  intro r
  by_cases hr : r = acc.storage_value_read_cache
  · subst hr
    intro k' v hv
    simp only [State.insert_read_cache, Function.update_self, HashMap.lookup_insert_eq] at hv
    have hown := hacc.owner_eq
    split at hv
    · rename_i hk
      rw [hown, hk]
      exact ⟨hfresh, (Option.some.inj hv).symm⟩
    · exact h.ok.reads _ k' v hv
  · simpa only [State.insert_read_cache, Function.update_of_ne hr] using h.ok.reads r

end

end

end CfxEvm
