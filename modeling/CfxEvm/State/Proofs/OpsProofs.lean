import CfxEvm.State.Proofs.LoadProofs

/-!
# The operations of the state refine those of the ledger

Every operation, run on a state that stands for a ledger, panics, fails or returns as the operation
of the ledger does, and leaves a state that stands for the ledger the other leaves. The database
and the ledgers of the open checkpoints are the same before and after.
-/

open Lib

namespace CfxEvm

section
variable [Keccak] {α : Type}

/-- `x` does on the state what `y` does on the ledger. -/
def StateRefines (x : StateM α) (y : LedgerM α) : Prop :=
  ∀ db saved, Prog.Refines (Rep db saved) Eq x y

theorem StateRefines.bind {β : Type} {x : StateM α} {y : LedgerM α} {f : α → StateM β}
    {g : α → LedgerM β} (hx : StateRefines x y) (hf : ∀ a, StateRefines (f a) (g a)) :
    StateRefines (x >>= f) (y >>= g) := fun db saved =>
  (hx db saved).bind fun a _ hab => hab ▸ hf a db saved

theorem StateRefines.pure (a : α) : StateRefines (pure a) (pure a) := fun _ _ => .pure rfl

theorem StateRefines.when {c : Bool} {x : StateM Unit} {y : LedgerM Unit}
    (hx : StateRefines x y) : StateRefines (Prog.when c x) (Prog.when c y) := fun db saved =>
  .when fun _ => hx db saved

/-! ## Reads -/

/-- A read that needs no code. -/
theorem refines_read (a : Address) {f : Option OverlayAccount → α} {g : Option AccountView → α}
    (hfg : ∀ db o, f o = g (o.map (OverlayAccount.view db))) :
    StateRefines (State.ensure_account_loaded a .None >>= fun o => Pure.pure (f o))
      (Prog.gets fun w => g (w.accounts a)) := by
  intro db saved s w h
  rcases ensure_account_loaded_spec h a .None with ⟨o, s', owner, hrun, hrep, hc, -⟩ | ⟨hreq, -⟩
  · rw [Prog.run_bind, hrun, Prog.run_gets, hrep.view_of_cached hc, ← hfg s'.db o]
    exact .ok rfl ⟨owner, hrep⟩
  · exact absurd hreq (by simp)

/-- A read of the code. -/
theorem refines_read_code (a : Address) (f : Option CodeInfo → α) :
    StateRefines
      (State.ensure_account_loaded a .Code >>= fun o => Pure.pure (f (o.bind OverlayAccount.code)))
      (Ledger.account_with_code a >>= fun o => Pure.pure (f (o.bind AccountView.code))) := by
  intro db saved s w h
  rcases ensure_account_loaded_spec h a .Code with
    ⟨o, s', owner, hrun, hrep, hc, hcode⟩ | ⟨-, ⟨v, hv, hmiss⟩, s', hrun, hrep⟩
  · have hview := hrep.view_of_cached hc
    obtain rfl := hrep.db_eq
    simp only [Prog.run_bind, hrun, Ledger.account_with_code, Ledger.account, Prog.run_gets, hview]
    cases o with
    | none => exact .ok rfl ⟨owner, hrep⟩
    | some acc =>
      obtain ⟨hmiss, heq⟩ := hcode rfl acc rfl
      have hcond : ¬(((acc.view s'.db).code.isNone && (acc.view s'.db).code_hash != KECCAK_EMPTY)
          = true) := by
        simpa [AccountView.CodeMissing] using hmiss
      simp only [Option.map_some, if_neg hcond]
      exact .ok (congrArg f heq) ⟨owner, hrep⟩
  · have hcond : (v.code.isNone && v.code_hash != KECCAK_EMPTY) = true := by
      simpa [AccountView.CodeMissing] using hmiss
    simp only [Prog.run_bind, hrun, Ledger.account_with_code, Ledger.account, Prog.run_gets, hv,
      if_pos hcond]
    exact .err _ hrep

theorem balance_refines (a : Address) : StateRefines (State.balance a) (Ledger.balance a) :=
  refines_read a (f := fun o => (o.map OverlayAccount.balance).getD 0)
    (g := fun o => (o.map AccountView.balance).getD 0) fun _ o => by cases o <;> rfl

theorem nonce_refines (a : Address) : StateRefines (State.nonce a) (Ledger.nonce a) :=
  refines_read a (f := fun o => (o.map OverlayAccount.nonce).getD 0)
    (g := fun o => (o.map AccountView.nonce).getD 0) fun _ o => by cases o <;> rfl

theorem code_hash_refines (a : Address) : StateRefines (State.code_hash a) (Ledger.code_hash a) :=
  refines_read a (f := fun o => o.map OverlayAccount.code_hash)
    (g := fun o => o.map AccountView.code_hash) fun _ o => by cases o <;> rfl

theorem is_contract_with_code_refines (a : Address) :
    StateRefines (State.is_contract_with_code a) (Ledger.is_contract_with_code a) :=
  refines_read a (f := fun o => o.any fun acc : OverlayAccount => acc.code_hash != KECCAK_EMPTY)
    (g := fun o => o.any fun v : AccountView => v.code_hash != KECCAK_EMPTY) fun _ o => by
      cases o <;> rfl

theorem exists_refines (a : Address) : StateRefines (State.exists a) (Ledger.exists a) :=
  refines_read a (f := Option.isSome) (g := Option.isSome) fun _ o => by cases o <;> rfl

theorem exists_and_not_null_refines (a : Address) :
    StateRefines (State.exists_and_not_null a) (Ledger.exists_and_not_null a) :=
  refines_read a (f := fun o => o.any fun acc : OverlayAccount => !acc.is_null)
    (g := fun o => o.any fun v : AccountView => !v.is_null) fun _ o => by cases o <;> rfl

theorem code_refines (a : Address) : StateRefines (State.code a) (Ledger.code a) :=
  refines_read_code a fun o => o.map CodeInfo.code

theorem code_size_refines (a : Address) : StateRefines (State.code_size a) (Ledger.code_size a) :=
  refines_read_code a fun o => o.map CodeInfo.code_size

/-- The caches of an account hold what the view shows. -/
theorem cached_storage_at_spec {db : StateDb} {saved : List Ledger} {owner : Owner} {s : State}
    {w : Ledger} {a : Address} (h : RepBy db saved owner s w) {acc : OverlayAccount}
    (hacc : AccountOk s.next_ref owner a acc) (k : Bytes) :
    (State.cached_storage_at acc k s).getD (if acc.fresh_storage then 0 else s.db.slots a k) =
      (acc.view s.db).storage k := by
  simp only [State.cached_storage_at, OverlayAccount.view, hacc.address]
  rcases acc.storage_value_write_cache.lookup k with _ | v
  · rcases hr : (s.read_caches acc.storage_value_read_cache).lookup k with _ | v
    · rfl
    · have hown := h.ok.reads _ k v hr
      rw [hacc.owner_eq] at hown
      obtain ⟨hfresh, rfl⟩ := hown
      simp only at hfresh
      simp [hfresh]
  · rfl

theorem storage_at_refines (a : Address) (k : Bytes) :
    StateRefines (State.storage_at a k) (Ledger.storage_at a k) := by
  intro db saved s w h
  rcases ensure_account_loaded_spec h a .None with ⟨o, s', owner, hrun, hrep, hc, -⟩ | ⟨hreq, -⟩
  · have hview := hrep.view_of_cached hc
    simp only [State.storage_at, Prog.run_bind, hrun, Ledger.storage_at, Prog.run_gets,
      Ledger.storageOf, hview]
    cases o with
    | none => exact .ok rfl ⟨owner, hrep⟩
    | some acc =>
      have hacc := hrep.ok_of_cached hc
      have hst := cached_storage_at_spec hrep hacc k
      simp only [State.account_storage_at, Prog.run_bind, Prog.run_gets, Option.map_some,
        Option.getD_some, ← hst]
      rcases State.cached_storage_at acc k s' with _ | v
      · simp only [Option.getD_none]
        split
        · exact .ok rfl ⟨owner, hrep⟩
        · rename_i hfresh
          have hrep' := hrep.insert_read_cache hacc (Bool.not_eq_true _ ▸ hfresh) k
          simp only [Prog.run_bind, Prog.run_gets, Prog.run_update, StateDb.get_storage,
            hacc.address]
          exact .ok rfl ⟨owner, hrep'⟩
      · exact .ok rfl ⟨owner, hrep⟩
  · exact absurd hreq (by simp)

/-! ## Writes -/

/-- `f` changes an account as `g` changes its view, and keeps to its read cache. -/
def Mutates (f : OverlayAccount → Except Panic OverlayAccount)
    (g : AccountView → Except Panic AccountView) : Prop :=
  ∀ (db : StateDb) (acc : OverlayAccount),
    (∃ p, f acc = .error p ∧ g (acc.view db) = .error p) ∨
    ∃ acc', f acc = .ok acc' ∧ g (acc.view db) = .ok (acc'.view db) ∧
      acc'.address = acc.address ∧ acc'.fresh_storage = acc.fresh_storage ∧
      acc'.storage_value_read_cache = acc.storage_value_read_cache

omit [Keccak] in
theorem Ledger.setAccount_setAccount (w : Ledger) (a : Address) (v v' : AccountView) :
    (w.setAccount a v).setAccount a v' = w.setAccount a v' := by
  simp [Ledger.setAccount]

omit [Keccak] in
theorem Ledger.setAccount_self {w : Ledger} {a : Address} {v : AccountView}
    (h : w.accounts a = some v) : w.setAccount a v = w := by
  simp [Ledger.setAccount, ← h]

/-- Writing an account that was required. -/
theorem write_mutated {db : StateDb} {saved : List Ledger} {owner : Owner} {s : State} {w : Ledger}
    {a : Address} {f : OverlayAccount → Except Panic OverlayAccount}
    {g : AccountView → Except Panic AccountView} (hfg : Mutates f g) {acc : OverlayAccount}
    (hrep : RepBy db saved owner s (w.setAccount a (acc.view db)))
    (hw : Writable s a (some acc)) :
    Prog.OutcomeRel (Rep db saved) Eq ((State.write_account a (f acc)).run s)
      ((Ledger.write_account a (g (acc.view db))).run w) := by
  have hacc := hrep.ok_of_cached hw.cached
  rcases hfg db acc with ⟨p, hf, hg⟩ | ⟨acc', hf, hg, haddr, hfresh, href⟩
  · rw [hf, hg]
    exact .panic p
  · have hacc' : AccountOk s.next_ref owner a acc' :=
      ⟨haddr.trans hacc.address, href ▸ hacc.ref_lt, by rw [href, hacc.owner_eq, hfresh]⟩
    obtain ⟨s', hrun, hrep'⟩ := write_account_spec hrep hw hacc'
    rw [hf, hg, hrun]
    exact .ok rfl (Ledger.setAccount_setAccount w a _ _ ▸ hrep')

theorem refines_modify_existing (a : Address) {f : OverlayAccount → Except Panic OverlayAccount}
    {g : AccountView → Except Panic AccountView} (hfg : Mutates f g) :
    StateRefines (State.require_exists a false >>= fun acc => State.write_account a (f acc))
      (Ledger.modify_existing a g) := by
  intro db saved s w h
  rcases require_exists_spec h a with ⟨acc, s', owner, hrun, hrep, hw⟩ | ⟨hnone, s', hrun, hrep⟩
  · have hview : w.accounts a = some (acc.view db) := by
      rw [hrep.view_of_cached hw.cached, hrep.db_eq]
      rfl
    have hout := write_mutated (w := w) hfg (Ledger.setAccount_self hview ▸ hrep) hw
    simpa only [Prog.run_bind, hrun, Ledger.modify_existing, Ledger.account, Prog.run_gets, hview]
      using hout
  · simp only [Prog.run_bind, hrun, Ledger.modify_existing, Ledger.account, Prog.run_gets, hnone]
    exact .err _ hrep

theorem refines_modify_or_new (a : Address) (nonce : U256)
    {f : OverlayAccount → Except Panic OverlayAccount}
    {g : AccountView → Except Panic AccountView} (hfg : Mutates f g) :
    StateRefines
      (State.require_or_new_basic_account a nonce >>= fun acc => State.write_account a (f acc))
      (Ledger.modify_or_new a nonce g) := by
  intro db saved s w h
  obtain ⟨acc, s', owner, hrun, hview, hrep, hw⟩ := require_or_new_basic_account_spec h a nonce
  have hout := write_mutated hfg hrep hw
  simpa only [Prog.run_bind, hrun, Ledger.modify_or_new, Prog.run_gets, ← hview] using hout

theorem init_code_mutates (code : Bytes) :
    Mutates (fun acc => .ok (acc.init_code code)) fun v => .ok (v.init_code code) :=
  fun _ acc => .inr ⟨acc.init_code code, rfl, rfl, rfl, rfl, rfl⟩

theorem inc_nonce_mutates : Mutates OverlayAccount.inc_nonce AccountView.inc_nonce := by
  intro db acc
  simp only [OverlayAccount.inc_nonce, AccountView.inc_nonce,
    show (acc.view db).nonce = acc.nonce from rfl]
  rcases U256.checked_add acc.nonce 1 with _ | n
  · exact .inl ⟨_, rfl, rfl⟩
  · exact .inr ⟨_, rfl, rfl, rfl, rfl, rfl⟩

theorem set_nonce_mutates (nonce : U256) :
    Mutates (fun acc => .ok (acc.set_nonce nonce)) fun v => .ok { v with nonce := nonce } :=
  fun _ acc => .inr ⟨acc.set_nonce nonce, rfl, rfl, rfl, rfl, rfl⟩

theorem add_balance_mutates (by_ : U256) :
    Mutates (OverlayAccount.add_balance by_) (AccountView.add_balance by_) := by
  intro db acc
  simp only [OverlayAccount.add_balance, AccountView.add_balance,
    show (acc.view db).balance = acc.balance from rfl]
  rcases U256.checked_add acc.balance by_ with _ | b
  · exact .inl ⟨_, rfl, rfl⟩
  · exact .inr ⟨_, rfl, rfl, rfl, rfl, rfl⟩

theorem sub_balance_mutates (by_ : U256) :
    Mutates (OverlayAccount.sub_balance by_) (AccountView.sub_balance by_) := by
  intro db acc
  simp only [OverlayAccount.sub_balance, AccountView.sub_balance,
    show (acc.view db).balance = acc.balance from rfl]
  rcases U256.checked_sub acc.balance by_ with _ | b
  · exact .inl ⟨_, rfl, rfl⟩
  · exact .inr ⟨_, rfl, rfl, rfl, rfl, rfl⟩

theorem set_storage_mutates (key : Bytes) (value : U256) :
    Mutates (fun acc => .ok (acc.set_storage key value)) fun v =>
      .ok (v.set_storage key value) := by
  intro db acc
  refine .inr ⟨acc.set_storage key value, rfl, ?_, rfl, rfl, rfl⟩
  have hstorage : ((acc.set_storage key value).view db).storage =
      Function.update (acc.view db).storage key value := by
    funext k
    simp only [OverlayAccount.view, OverlayAccount.set_storage, HashMap.lookup_insert_eq,
      Function.update_apply]
    split <;> rfl
  simp only [AccountView.set_storage, ← hstorage]
  rfl

theorem init_code_refines (a : Address) (code : Bytes) :
    StateRefines (State.init_code a code) (Ledger.init_code a code) :=
  refines_modify_existing a (init_code_mutates code)

theorem inc_nonce_refines (a : Address) (nonce : U256) :
    StateRefines (State.inc_nonce a nonce) (Ledger.inc_nonce a nonce) :=
  refines_modify_or_new a nonce inc_nonce_mutates

theorem set_nonce_refines (a : Address) (nonce : U256) :
    StateRefines (State.set_nonce a nonce) (Ledger.set_nonce a nonce) :=
  refines_modify_or_new a nonce (set_nonce_mutates nonce)

theorem sub_balance_refines (a : Address) (by_ : U256) (mode : CleanupMode) :
    StateRefines (State.sub_balance a by_ mode) (Ledger.sub_balance a by_ mode) := by
  refine .bind (.when (refines_modify_existing a (sub_balance_mutates by_))) fun _ => ?_
  cases mode with
  | TrackTouched set => exact .bind (exists_refines a) fun _ => .pure _
  | ForceCreate => exact .pure _
  | NoEmpty => exact .pure _

theorem add_balance_refines (a : Address) (by_ : U256) (mode : CleanupMode) (nonce : U256) :
    StateRefines (State.add_balance a by_ mode nonce) (Ledger.add_balance a by_ mode nonce) := by
  refine .bind (exists_refines a) fun ex => ?_
  exact .bind (.when (refines_modify_or_new a nonce (add_balance_mutates by_))) fun _ => .pure _

theorem transfer_balance_refines (from_ to_ : Address) (by_ : U256) (mode : CleanupMode)
    (nonce : U256) :
    StateRefines (State.transfer_balance from_ to_ by_ mode nonce)
      (Ledger.transfer_balance from_ to_ by_ mode nonce) :=
  .bind (sub_balance_refines from_ by_ mode) fun mode => add_balance_refines to_ by_ mode nonce

theorem set_storage_refines (a : Address) (key : Bytes) (value : U256) :
    StateRefines (State.set_storage a key value) (Ledger.set_storage a key value) :=
  .bind (storage_at_refines a key) fun _ =>
    .when (refines_modify_existing a (set_storage_mutates key value))

theorem clean_account_refines (a : Address) :
    StateRefines (State.clean_account a) (Ledger.clean_account a) := by
  intro db saved s w h
  obtain ⟨acc, s', owner, hrun, -, hrep, hw⟩ := require_or_new_basic_account_spec h a 0
  set acc' := OverlayAccount.from_loaded a .new_empty s'.next_ref with hacc'
  have hok : AccountOk s'.allocated.next_ref
      (Function.update owner s'.next_ref (a, false)) a acc' :=
    ⟨rfl, Nat.lt_succ_self _, by simp [hacc', OverlayAccount.from_loaded,
      OverlayAccount.fresh_storage]⟩
  have hw' : Writable s'.allocated a (some acc) := ⟨hw.lookup, hw.saved⟩
  obtain ⟨s'', hrun', hrep'⟩ := write_account_spec (hrep.allocated (a, false)) hw' hok
  have halloc : State.alloc_read_cache.run s' = .ok (.ok s'.next_ref, s'.allocated) := rfl
  have hview : acc'.view db = .basic 0 0 (w.stored a) := by
    rw [show w.stored = db.slots from hrep.stored_eq.trans (congrArg _ hrep.db_eq)]
    simp [hacc', OverlayAccount.view, OverlayAccount.from_loaded, OverlayAccount.fresh_storage,
      AccountView.basic, Account.new_empty]
  simp only [State.clean_account, Prog.run_bind, hrun, halloc, ← hacc', hrun',
    Ledger.clean_account, Prog.run_update]
  rw [Ledger.setAccount_setAccount, hview] at hrep'
  exact .ok rfl hrep'

/-! ## Replacing entries -/

/-- `update_cache` with a dirty entry of an account that is in order. -/
theorem update_cache_spec {db : StateDb} {saved : List Ledger} {owner : Owner} {s : State}
    {w : Ledger} {a : Address} (h : RepBy db saved owner s w) {acc : OverlayAccount}
    (hacc : AccountOk s.next_ref owner a acc) :
    ∃ s', (State.update_cache a (.new_dirty (some acc))).run s = .ok (.ok (), s') ∧
      Rep db saved s' (w.setAccount a (acc.view db)) := by
  obtain ⟨hrep, hsaved⟩ : RepBy db saved owner (s.save_old a (s.cache.lookup a)) w ∧
      Saved a (s.save_old a (s.cache.lookup a)).checkpoints :=
    h.save_old (fun e he => h.ok.cached a e he) (h.accounts_eq a).symm
  have hframe : (s.save_old a (s.cache.lookup a)).next_ref = s.next_ref ∧
      (s.save_old a (s.cache.lookup a)).db = s.db := by
    simp only [State.save_old]
    split <;> exact ⟨rfl, rfl⟩
  -- The code replaces the entry first and saves the old one then; the order does not matter.
  have hcomm : (s.insert_cache a (.new_dirty (some acc))).save_old a (s.cache.lookup a) =
      (s.save_old a (s.cache.lookup a)).insert_cache a (.new_dirty (some acc)) := by
    simp only [State.save_old, State.insert_cache]
    split <;> rfl
  refine ⟨_, congrArg (fun s => Except.ok (Except.ok (), s)) hcomm, owner, ?_⟩
  have hins := hrep.insert_saved (e := .new_dirty (some acc))
    (.of_dirty (by rintro _ ⟨rfl⟩; rw [hframe.1]; exact hacc)) hsaved
  rw [hframe.2, h.db_eq] at hins
  exact hins

theorem remove_contract_refines (a : Address) :
    StateRefines (State.remove_contract a) (Ledger.remove_contract a) := by
  rintro db saved s w ⟨owner, h⟩
  have hok : AccountOk s.allocated.next_ref (Function.update owner s.next_ref (a, true)) a
      (.new_removed a s.next_ref) :=
    ⟨rfl, Nat.lt_succ_self _, by simp [OverlayAccount.new_removed, OverlayAccount.fresh_storage]⟩
  obtain ⟨s', hrun, hrep⟩ := update_cache_spec (h.allocated (a, true)) hok
  have halloc : State.alloc_read_cache.run s = .ok (.ok s.next_ref, s.allocated) := rfl
  simp only [State.remove_contract, Prog.run_bind, halloc, hrun, Ledger.remove_contract,
    Prog.run_update]
  have hview : (OverlayAccount.new_removed a s.next_ref).view db = .removed := by
    simp [OverlayAccount.view, OverlayAccount.new_removed, OverlayAccount.fresh_storage,
      AccountView.removed]
  exact .ok rfl (hview ▸ hrep)

theorem new_contract_refines (a : Address) (balance nonce : U256) :
    StateRefines (State.new_contract a balance nonce) (Ledger.new_contract a balance nonce) := by
  intro db saved s w h
  rcases ensure_account_loaded_spec h a .None with ⟨o, s', owner, hrun, hrep, hc, -⟩ | ⟨hreq, -⟩
  · have hinv : (w.accounts a).any AccountView.invalidated_storage =
        o.any OverlayAccount.invalidated_storage := by
      rw [hrep.view_of_cached hc]
      cases o <;> rfl
    set inv := o.any OverlayAccount.invalidated_storage
    set acc := OverlayAccount.new_contract a balance nonce inv s'.next_ref with hacc
    have hok : AccountOk s'.allocated.next_ref
        (Function.update owner s'.next_ref (a, acc.fresh_storage)) a acc :=
      ⟨rfl, Nat.lt_succ_self _, by simp [hacc, OverlayAccount.new_contract]⟩
    obtain ⟨s'', hrun', hrep'⟩ := update_cache_spec (hrep.allocated _) hok
    have halloc : State.alloc_read_cache.run s' = .ok (.ok s'.next_ref, s'.allocated) := rfl
    have hview : acc.view db = .contract a balance nonce inv (w.stored a) := by
      rw [show w.stored = db.slots from hrep.stored_eq.trans (congrArg _ hrep.db_eq)]
      simp only [hacc, OverlayAccount.view, OverlayAccount.new_contract,
        OverlayAccount.fresh_storage, AccountView.contract, AList.lookup_empty, Option.getD_none,
        Bool.true_and]
      congr 1
      funext k
      split <;> rfl
    simp only [State.new_contract, Prog.run_bind, hrun, halloc, Ledger.new_contract,
      Prog.run_update, hinv]
    rw [show o.any OverlayAccount.invalidated_storage = inv from rfl, ← hacc, hrun']
    exact .ok rfl (hview ▸ hrep')
  · exact absurd hreq (by simp)

theorem subtract_total_issued_refines (v : U256) :
    StateRefines (State.subtract_total_issued v) (Ledger.subtract_total_issued v) := by
  rintro db saved s w ⟨owner, h⟩
  refine .ok rfl ⟨owner, ⟨h.ok.reads, h.ok.cached, h.ok.saved, h.ok.totals⟩, h.db_eq,
    h.saved_eq, ?_⟩
  rw [← h.ledger_eq]
  rfl

end

end CfxEvm
