import CfxEvm.State.Proofs.RepProofs

/-!
# Loading and requiring accounts

The specifications of the two ways the operations get at an account: `ensure_account_loaded` for
the reads, which fills the caches and changes nothing that a read shows, and `require_or_set` for
the writes, after which the old entry is saved and the new one may be written.
-/

open Lib

namespace CfxEvm

section
variable [Keccak]

/-! ## Loading the code -/

theorem OverlayAccount.of_not_code_loaded {acc : OverlayAccount} (h : ¬acc.is_code_loaded = true) :
    acc.code = none ∧ acc.code_hash ≠ KECCAK_EMPTY := by
  simpa [is_code_loaded] using h

theorem OverlayAccount.view_cache_code (db : StateDb) (acc : OverlayAccount) :
    (acc.cache_code db).2.view db = acc.view db := by
  unfold cache_code
  split
  · rfl
  · rename_i h
    obtain ⟨hnone, hne⟩ := of_not_code_loaded h
    simp only [view, StateDb.get_code, hnone, if_neg hne]
    cases db.codes acc.address <;> rfl

theorem OverlayAccount.AccountOk_cache_code {next : CacheRef} {owner : Owner} {a : Address}
    {acc : OverlayAccount} (h : AccountOk next owner a acc) (db : StateDb) :
    AccountOk next owner a (acc.cache_code db).2 := by
  unfold cache_code
  split
  · exact h
  · exact ⟨h.address, h.ref_lt, h.owner_eq⟩

/-- The code of an account in the view is missing from the database. -/
def AccountView.CodeMissing (v : AccountView) : Prop := v.code = none ∧ v.code_hash ≠ KECCAK_EMPTY

/-- Loading the code succeeds unless the database misses it, and then the account has the code
    that the view shows. -/
theorem OverlayAccount.cache_code_cases (db : StateDb) (acc : OverlayAccount) :
    ((acc.cache_code db).1 = false ∧ (acc.view db).CodeMissing) ∨
      ((acc.cache_code db).1 = true ∧ ¬(acc.view db).CodeMissing ∧
        (acc.cache_code db).2.code = (acc.view db).code) := by
  unfold cache_code
  split
  · rename_i h
    refine .inr ⟨rfl, ?_, ?_⟩ <;>
      rcases hc : acc.code with _ | c <;>
      simp_all [is_code_loaded, AccountView.CodeMissing, view]
  · rename_i h
    obtain ⟨hnone, hne⟩ := of_not_code_loaded h
    simp only [AccountView.CodeMissing, view, StateDb.get_code, hnone, if_neg hne]
    rcases db.codes acc.address with _ | c
    · exact .inl ⟨rfl, rfl, hne⟩
    · exact .inr ⟨rfl, by simp, trivial⟩

theorem State.update_account_cache_view (req : RequireCache) (db : StateDb)
    (acc : OverlayAccount) : (update_account_cache req acc db).2.view db = acc.view db := by
  cases req
  · rfl
  · exact acc.view_cache_code db

theorem State.update_account_cache_ok {next : CacheRef} {owner : Owner} {a : Address}
    {acc : OverlayAccount} (h : AccountOk next owner a acc) (req : RequireCache) (db : StateDb) :
    AccountOk next owner a (update_account_cache req acc db).2 := by
  cases req
  · exact h
  · exact OverlayAccount.AccountOk_cache_code h db

/-! ## `ensure_account_loaded` -/

section
variable {db : StateDb} {saved : List Ledger} {owner : Owner} {s : State} {w : Ledger} {a : Address}

/-- The entry of the address is in the cache, and the account of it is `o`. -/
def Cached (s : State) (a : Address) (o : Option OverlayAccount) : Prop :=
  ∃ e, s.cache.lookup a = some e ∧ e.account = o

theorem RepBy.view_of_cached (h : RepBy db saved owner s w) {o : Option OverlayAccount}
    (hc : Cached s a o) : w.accounts a = o.map (OverlayAccount.view s.db) := by
  obtain ⟨e, he, rfl⟩ := hc
  rw [h.accounts_eq, he]
  rfl

theorem RepBy.ok_of_cached (h : RepBy db saved owner s w) {acc : OverlayAccount}
    (hc : Cached s a (some acc)) : AccountOk s.next_ref owner a acc := by
  obtain ⟨e, he, hacc⟩ := hc
  exact (h.ok.cached a e he).account acc hacc

/-- `load_account` on an address that is not in the cache. -/
theorem load_account_spec (h : RepBy db saved owner s w) (hnone : s.cache.lookup a = none) :
    ∃ o s' owner', (State.load_account a).run s = .ok (.ok o, s') ∧ RepBy db saved owner' s' w ∧
      s'.cache = s.cache ∧ s'.db = s.db ∧ o.map (OverlayAccount.view s.db) = w.accounts a ∧
      ∀ acc, o = some acc → AccountOk s'.next_ref owner' a acc := by
  have hview : w.accounts a = s.db.view a := by rw [h.accounts_eq, hnone]; rfl
  rcases hacc : s.db.accounts a with _ | rec
  · refine ⟨none, s, owner, ?_, h, rfl, rfl, ?_, by simp⟩
    · simp only [State.load_account, Prog.run_bind, Prog.run_gets, StateDb.get_account, hacc]
      rfl
    · simp [hview, StateDb.view, hacc]
  · refine ⟨some (.from_loaded a rec s.next_ref), s.allocated, _, ?_, h.allocated (a, false),
      rfl, rfl, ?_, ?_⟩
    · simp only [State.load_account, Prog.run_bind, Prog.run_gets, StateDb.get_account, hacc]
      rfl
    · simp only [hview, StateDb.view, hacc, Option.map_some]
      rfl
    · rintro acc ⟨rfl⟩
      exact ⟨rfl, Nat.lt_succ_self _, by simp [OverlayAccount.from_loaded,
        OverlayAccount.fresh_storage]⟩

/-- Inserting a loaded account, which shows what the database shows. -/
theorem RepBy.insert_loaded (h : RepBy db saved owner s w) (hnone : s.cache.lookup a = none)
    {o : Option OverlayAccount} (hview : o.map (OverlayAccount.view s.db) = w.accounts a)
    (hok : ∀ acc, o = some acc → AccountOk s.next_ref owner a acc) :
    RepBy db saved owner (s.insert_cache a (.new_clean o)) w ∧
      Cached (s.insert_cache a (.new_clean o)) a o := by
  refine ⟨h.insert_same ⟨fun _ => ?_, hok⟩ hview, ⟨.new_clean o, by simp [State.insert_cache], rfl⟩⟩
  rw [show (AccountEntry.new_clean o).account = o from rfl, hview, h.accounts_eq, hnone]
  rfl

/-- The outcome of `ensure_account_loaded`: the account is cached now, with its code if it was
    required; or the code was required and the database does not have it. -/
def Ensured (db : StateDb) (saved : List Ledger) (w : Ledger) (a : Address) (req : RequireCache)
    (x : Except Panic (Except DbError (Option OverlayAccount) × State)) : Prop :=
  (∃ o s' owner, x = .ok (.ok o, s') ∧ RepBy db saved owner s' w ∧ Cached s' a o ∧
    (req = .Code → ∀ acc, o = some acc →
      ¬(acc.view db).CodeMissing ∧ acc.code = (acc.view db).code)) ∨
  (req = .Code ∧ (∃ v, w.accounts a = some v ∧ v.CodeMissing) ∧
    ∃ s', x = .ok (.error (.IncompleteDatabase a), s') ∧ Rep db saved s' w)

theorem update_loaded_spec (h : RepBy db saved owner s w) {o : Option OverlayAccount}
    (hc : Cached s a o) (req : RequireCache) :
    Ensured db saved w a req ((State.ensure_account_loaded.update_loaded a req).run s) := by
  obtain rfl := h.db_eq
  have hview := h.view_of_cached hc
  have hcached := hc
  obtain ⟨e, he, rfl⟩ := hc
  simp only [State.ensure_account_loaded.update_loaded, Prog.run_bind, Prog.run_gets, he,
    Prog.expect, Prog.run_pure]
  rcases hacc : e.account with _ | acc
  · rw [hacc] at hcached
    exact .inl ⟨none, s, owner, rfl, h, hcached, by simp⟩
  rw [hacc] at hview hcached
  have hok := h.ok_of_cached hcached
  set acc' := (State.update_account_cache req acc s.db).2 with hacc'
  have hview' : acc'.view s.db = acc.view s.db := State.update_account_cache_view req s.db acc
  have haddr : acc'.address = a := (State.update_account_cache_ok hok req s.db).address
  -- The entry with the code loaded shows what it showed before.
  have hrep : RepBy s.db saved owner (s.insert_cache a { e with account := some acc' }) w := by
    refine h.insert_same ⟨fun hd => ?_, ?_⟩ ?_
    · have := (h.ok.cached a e he).clean hd
      simpa only [hacc, Option.map_some, hview'] using this
    · rintro _ ⟨rfl⟩
      exact State.update_account_cache_ok hok req s.db
    · rw [hview]
      simp only [Option.map_some, hview']
  have hcached' : Cached (s.insert_cache a { e with account := some acc' }) a (some acc') :=
    ⟨_, AList.lookup_insert _, rfl⟩
  cases req with
  | None =>
    have hsucc : (State.update_account_cache .None acc s.db).1 = true := rfl
    simp only [hsucc]
    exact .inl ⟨some acc', _, owner, rfl, hrep, hcached', by simp⟩
  | Code =>
    rcases acc.cache_code_cases s.db with ⟨hfalse, hmiss⟩ | ⟨htrue, hmiss, hcode⟩
    · have hsucc : (State.update_account_cache .Code acc s.db).1 = false := hfalse
      simp only [hsucc]
      refine .inr ⟨rfl, ⟨_, hview, hmiss⟩, _, ?_, owner, hrep⟩
      simp only [Prog.run_bind, Prog.run_update, Bool.not_false, if_true, Prog.run_fail]
      exact congrArg (fun x => Except.ok (Except.error (DbError.IncompleteDatabase x), _)) haddr
    · have hsucc : (State.update_account_cache .Code acc s.db).1 = true := htrue
      simp only [hsucc]
      refine .inl ⟨some acc', _, owner, rfl, hrep, hcached', ?_⟩
      rintro - _ ⟨rfl⟩
      rw [hview']
      exact ⟨hmiss, hcode⟩

theorem ensure_account_loaded_spec (h : Rep db saved s w) (a : Address) (req : RequireCache) :
    Ensured db saved w a req ((State.ensure_account_loaded a req).run s) := by
  obtain ⟨owner, h⟩ := h
  simp only [State.ensure_account_loaded, Prog.run_bind, Prog.run_gets]
  rcases he : s.cache.lookup a with _ | ⟨_ | acc, st⟩
  · -- Not in the cache: load it, then go on as for a cached account.
    obtain ⟨o, s₁, owner₁, hrun, hrep, hcache, hdb, hview, hok⟩ := load_account_spec h he
    set o' := o.map fun acc => (State.update_account_cache req acc s.db).2 with ho'
    have hnone₁ : s₁.cache.lookup a = none := hcache ▸ he
    have hview' : o'.map (OverlayAccount.view s₁.db) = w.accounts a := by
      rw [← hview, ho', hdb, Option.map_map]
      congr 1
      funext acc
      exact State.update_account_cache_view req s.db acc
    have hok' : ∀ acc, o' = some acc → AccountOk s₁.next_ref owner₁ a acc := by
      intro acc hacc
      obtain ⟨acc₀, rfl, rfl⟩ := Option.map_eq_some_iff.mp hacc
      exact State.update_account_cache_ok (hok acc₀ rfl) req s.db
    have hins : (State.insert_cache_if_fresh_account a o').run s₁ =
        .ok (.ok (), s₁.insert_cache a (.new_clean o')) := by
      simp only [State.insert_cache_if_fresh_account, Prog.run_update]
      rw [if_neg (AList.lookup_eq_none.mp hnone₁)]
    obtain ⟨hrep', hcached⟩ := hrep.insert_loaded hnone₁ hview' hok'
    simp only [Prog.run_bind, Prog.run_gets, hrun]
    rw [← ho', hins]
    exact update_loaded_spec hrep' hcached req
  · exact .inl ⟨none, s, owner, rfl, h, ⟨_, he, rfl⟩, by simp⟩
  · have hcached : Cached s a (some acc) := ⟨_, he, rfl⟩
    simp only
    split
    · exact update_loaded_spec h hcached req
    · rename_i hneeds
      refine .inl ⟨some acc, s, owner, rfl, h, hcached, ?_⟩
      rintro rfl _ ⟨rfl⟩
      have hloaded : acc.is_code_loaded = true := by
        simpa [State.needs_update] using hneeds
      rcases hcc : acc.cache_code_cases db with ⟨hfalse, -⟩ | ⟨-, hmiss, hcode⟩
      · simp [OverlayAccount.cache_code, hloaded] at hfalse
      · rw [OverlayAccount.cache_code, if_pos hloaded] at hcode
        exact ⟨hmiss, hcode⟩

/-! ## `require_or_set` -/

/-- The entry of the address is dirty, with the account `o`, and its old value is saved: the
    account may be written. -/
structure Writable (s : State) (a : Address) (o : Option OverlayAccount) : Prop where
  lookup : s.cache.lookup a = some ⟨o, .Dirty⟩
  saved : Saved a s.checkpoints

omit [Keccak] in
theorem Writable.cached {o : Option OverlayAccount} (h : Writable s a o) : Cached s a o :=
  ⟨_, h.lookup, rfl⟩

omit [Keccak] in
theorem Writable.insert {o : Option OverlayAccount} (h : Writable s a o)
    (o' : Option OverlayAccount) : Writable (s.insert_cache a ⟨o', .Dirty⟩) a o' :=
  ⟨AList.lookup_insert _, h.saved⟩

/-- A writable account may be replaced by any account of the address. -/
theorem RepBy.write (h : RepBy db saved owner s w) {o : Option OverlayAccount}
    (hw : Writable s a o) {acc : OverlayAccount} (hacc : AccountOk s.next_ref owner a acc) :
    RepBy db saved owner (s.insert_cache a ⟨some acc, .Dirty⟩) (w.setAccount a (acc.view db)) := by
  obtain rfl := h.db_eq
  exact h.insert_saved (.of_dirty (by rintro _ ⟨rfl⟩; exact hacc)) hw.saved

theorem load_if_missing_spec (h : Rep db saved s w) (a : Address) :
    ∃ o s' owner, (State.load_if_missing a).run s = .ok (.ok (), s') ∧
      RepBy db saved owner s' w ∧ Cached s' a o := by
  obtain ⟨owner, h⟩ := h
  simp only [State.load_if_missing, Prog.run_bind, Prog.run_gets]
  rcases he : s.cache.lookup a with _ | e
  · obtain ⟨o, s₁, owner₁, hrun, hrep, hcache, hdb, hview, hok⟩ := load_account_spec h he
    have hnone₁ : s₁.cache.lookup a = none := hcache ▸ he
    obtain ⟨hrep', hcached⟩ := hrep.insert_loaded hnone₁ (hdb ▸ hview) hok
    refine ⟨o, _, owner₁, ?_, hrep', hcached⟩
    simp only [Option.isNone_none, if_true, Prog.run_bind, hrun,
      State.insert_cache_if_fresh_account, Prog.run_update]
    rw [if_neg (AList.lookup_eq_none.mp hnone₁)]
  · exact ⟨e.account, s, owner, rfl, h, e, he, rfl⟩

theorem mark_dirty_spec (h : RepBy db saved owner s w) {o : Option OverlayAccount}
    (hc : Cached s a o) :
    ∃ s', (State.mark_dirty a).run s = .ok (.ok ⟨o, .Dirty⟩, s') ∧ RepBy db saved owner s' w ∧
      Writable s' a o := by
  have hview := h.view_of_cached hc
  obtain ⟨e, he, rfl⟩ := hc
  have heok := h.ok.cached a e he
  set s₁ := s.save_old a (some e) with hs₁
  obtain ⟨hrep, hsaved⟩ : RepBy db saved owner s₁ w ∧ Saved a s₁.checkpoints :=
    h.save_old (by rintro _ ⟨rfl⟩; exact heok) hview.symm
  have hframe : s₁.cache = s.cache ∧ s₁.next_ref = s.next_ref ∧ s₁.db = s.db := by
    simp only [hs₁, State.save_old]
    split <;> exact ⟨rfl, rfl, rfl⟩
  refine ⟨s₁.insert_cache a ⟨e.account, .Dirty⟩, ?_, ?_, AList.lookup_insert _, hsaved⟩
  · simp only [State.mark_dirty, Prog.run_bind, Prog.run_update, he, Option.map_some,
      AccountEntry.clone_dirty_eq, Prog.run_gets]
    rw [← hs₁, hframe.1, he]
    rfl
  · refine hrep.insert_same (.of_dirty ?_) ?_
    · rw [hframe.2.1]
      exact heok.account
    · rw [hframe.2.2]
      exact hview.symm

/-- The entry is loaded if need be, and may be written then. -/
theorem require_dirty_spec (h : Rep db saved s w) (a : Address) :
    ∃ o s₁ s₂ owner, (State.load_if_missing a).run s = .ok (.ok (), s₁) ∧
      (State.mark_dirty a).run s₁ = .ok (.ok ⟨o, .Dirty⟩, s₂) ∧ RepBy db saved owner s₂ w ∧
      Writable s₂ a o := by
  obtain ⟨o, s₁, owner, hload, hrep₁, hcached⟩ := load_if_missing_spec h a
  obtain ⟨s₂, hmark, hrep₂, hw⟩ := mark_dirty_spec hrep₁ hcached
  exact ⟨o, s₁, s₂, owner, hload, hmark, hrep₂, hw⟩

/-- `require_exists`: the account may be written now, or there is none. -/
theorem require_exists_spec (h : Rep db saved s w) (a : Address) :
    (∃ acc s' owner, (State.require_exists a false).run s = .ok (.ok acc, s') ∧
      RepBy db saved owner s' w ∧ Writable s' a (some acc)) ∨
    (w.accounts a = none ∧ ∃ s', (State.require_exists a false).run s =
      .ok (.error (.IncompleteDatabase a), s') ∧ Rep db saved s' w) := by
  obtain ⟨o, s₀, s₁, owner, hload, hmark, hrep, hw⟩ := require_dirty_spec h a
  simp only [State.require_exists, State.require_or_set, Prog.run_bind, hload,
    hmark]
  cases o with
  | none => exact .inr ⟨hrep.view_of_cached hw.cached, s₁, rfl, owner, hrep⟩
  | some acc =>
    refine .inl ⟨acc, s₁.insert_cache a ⟨some acc, .Dirty⟩, owner, rfl, ?_, hw.insert _⟩
    refine hrep.insert_same (.of_dirty ?_) (hrep.view_of_cached hw.cached).symm
    rintro _ ⟨rfl⟩
    exact hrep.ok_of_cached hw.cached

/-- `require_or_new_basic_account`: the account, or a new one, may be written now. -/
theorem require_or_new_basic_account_spec (h : Rep db saved s w) (a : Address) (nonce : U256) :
    ∃ acc s' owner, (State.require_or_new_basic_account a nonce).run s = .ok (.ok acc, s') ∧
      acc.view db = (w.accounts a).getD (.basic 0 nonce (w.stored a)) ∧
      RepBy db saved owner s' (w.setAccount a (acc.view db)) ∧ Writable s' a (some acc) := by
  obtain ⟨o, s₀, s₁, owner, hload, hmark, hrep, hw⟩ := require_dirty_spec h a
  simp only [State.require_or_new_basic_account, State.require_or_set, Prog.run_bind, hload,
    hmark]
  have hview := hrep.view_of_cached hw.cached
  obtain rfl := hrep.db_eq
  cases o with
  | none =>
    set acc := OverlayAccount.new_basic a 0 nonce s₁.next_ref with hacc
    have hok : AccountOk s₁.allocated.next_ref (Function.update owner s₁.next_ref (a, false)) a
        acc := ⟨rfl, Nat.lt_succ_self _, by simp [hacc, OverlayAccount.new_basic,
          OverlayAccount.fresh_storage]⟩
    have hw' : Writable s₁.allocated a none := ⟨hw.lookup, hw.saved⟩
    have hrep' := (hrep.allocated (a, false)).write hw' hok
    refine ⟨acc, _, _, rfl, ?_, hrep', hw'.insert _⟩
    rw [hview, hrep.stored_eq]
    simp [hacc, OverlayAccount.new_basic, OverlayAccount.view, OverlayAccount.fresh_storage,
      AccountView.basic]
  | some acc =>
    refine ⟨acc, s₁.insert_cache a ⟨some acc, .Dirty⟩, owner, rfl, ?_, ?_, hw.insert _⟩
    · rw [hview]
      rfl
    · exact hrep.write hw (hrep.ok_of_cached hw.cached)

/-- The write through the guard. -/
theorem write_account_spec (h : RepBy db saved owner s w) {o : Option OverlayAccount}
    (hw : Writable s a o) {acc : OverlayAccount} (hacc : AccountOk s.next_ref owner a acc) :
    ∃ s', (State.write_account a (.ok acc)).run s = .ok (.ok (), s') ∧
      Rep db saved s' (w.setAccount a (acc.view db)) := by
  refine ⟨_, ?_, owner, h.write hw hacc⟩
  simp only [State.write_account, Prog.run_bind, Prog.run_gets, hw.lookup, Prog.expect,
    Prog.run_pure, Prog.run_update]

end

end

end CfxEvm
