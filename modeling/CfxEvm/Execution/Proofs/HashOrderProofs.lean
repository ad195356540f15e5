import CfxEvm.Execution.Proofs.TransactProofs
import CfxEvm.State.Proofs.PersistProofs
import CfxEvm.State.Proofs.WriteOrderProofs

/-!
# Proofs: the order of hash maps

The order in which hash maps and hash sets are gone through is not seen: not in what is read after
the destroyed contracts were removed, and not in what a commit writes.
-/

open Lib Lib.Prog

namespace CfxEvm

section
/-! ## Removing one contract -/

/-- At most the entry of the address has changed in the cache. -/
def CacheWithin (a : Address) (s s' : State) : Prop :=
  ∀ b, b ≠ a → s'.cache.lookup b = s.cache.lookup b

instance (a : Address) : IsPreorder State (CacheWithin a) where
  refl _ _ _ := rfl
  trans _ _ _ h h' b hb := (h' b hb).trans (h b hb)

theorem cacheWithin_insert (a : Address) (e : AccountEntry) (s : State) :
    CacheWithin a s (s.insert_cache a e) := by
  intro b hb
  exact AList.lookup_insert_ne hb

theorem keeps_load_account (a b : Address) : Keeps (CacheWithin a) (State.load_account b) := by
  refine .bind (.gets _) fun o => ?_
  cases o with
  | none => exact .pure _
  | some acc =>
    refine .bind (.bind (.gets _) fun ref => .bind (.update fun s b _ => rfl) fun _ => .pure _)
      fun _ => .pure _

variable [Keccak]

theorem keeps_update_loaded (a : Address) (require : RequireCache) :
    Keeps (CacheWithin a) (State.ensure_account_loaded.update_loaded a require) := by
  refine .bind (.gets _) fun db => .bind (.gets _) fun o => .bind (.expect _ _) fun e => ?_
  split
  · exact .pure _
  · refine .bind (.update fun s => cacheWithin_insert a _ s) fun _ => ?_
    exact .ite (fun _ => .bind (.fail _) fun _ => .pure _) fun _ => .pure _

theorem keeps_ensure_account_loaded (a : Address) (require : RequireCache) :
    Keeps (CacheWithin a) (State.ensure_account_loaded a require) := by
  refine .bind (.gets _) fun o => ?_
  split
  · exact .ite (fun _ => keeps_update_loaded a require) fun _ => .pure _
  · exact .pure _
  · refine .bind (.gets _) fun db => .bind (keeps_load_account a a) fun loaded => ?_
    refine .bind (.update fun s => ?_) fun _ => keeps_update_loaded a require
    split
    · exact refl_of (CacheWithin a) s
    · exact cacheWithin_insert a _ s

theorem keeps_balance (a : Address) : Keeps (CacheWithin a) (State.balance a) :=
  .bind (keeps_ensure_account_loaded a .None) fun _ => .pure _

/-- The entry of a removed contract. -/
def RemovedAt (a : Address) (s : State) : Prop :=
  ∃ ref, s.cache.lookup a = some (.new_dirty (some (.new_removed a ref)))

theorem remove_contract_cache (a : Address) (s : State) :
    wp (State.remove_contract a) (fun _ => False)
      (fun _ s' => RemovedAt a s' ∧ CacheWithin a s s') s := by
  have hsave : ∀ (s : State) (old : Option AccountEntry), (s.save_old a old).cache = s.cache := by
    intro s old
    unfold State.save_old
    split <;> rfl
  let s₁ : State := { s with
    next_ref := s.next_ref + 1, read_caches := Function.update s.read_caches s.next_ref ∅ }
  let e : AccountEntry := .new_dirty (some (.new_removed a s.next_ref))
  have hcache : ((s₁.insert_cache a e).save_old a (s₁.cache.lookup a)).cache = s.cache.insert a e :=
    hsave _ _
  show RemovedAt a ((s₁.insert_cache a e).save_old a (s₁.cache.lookup a)) ∧
    CacheWithin a s ((s₁.insert_cache a e).save_old a (s₁.cache.lookup a))
  constructor
  · refine ⟨s.next_ref, ?_⟩
    rw [hcache]
    exact AList.lookup_insert _
  · intro b hb
    rw [hcache]
    exact AList.lookup_insert_ne hb

/-- The contracts have been removed, and no other entry of the cache has changed. -/
def RemovedFrom (l : List Address) (s s' : State) : Prop :=
  ∀ b, if b ∈ l then RemovedAt b s' else s'.cache.lookup b = s.cache.lookup b

namespace TXExecutor

variable {db : StateDb} {saved : List Ledger} {w : Ledger} {t : TxState}

theorem kill_cache (observer : MultiObservers) (a : Address) (t : TxState) :
    wp (kill observer a) (fun _ => True) (fun r t' => ∀ observer', r = .ok observer' →
      RemovedAt a t'.state ∧ CacheWithin a t.state t'.state) t := by
  refine wp_bind.mpr (wp_zoom.mpr (wp_post (keeps_balance a t.state) ?_))
  rintro (e | balance) s₁ h₁
  · rintro _ ⟨⟩
  refine wp_bind.mpr (wp_zoom.mpr (wp_mono (remove_contract_cache a s₁) (fun _ h => h.elim) ?_))
  rintro (e | _) s₂ ⟨hremoved, h₂⟩
  · rintro _ ⟨⟩
  refine wp_bind.mpr (wp_zoom.mpr (wp_update.mpr ?_))
  rintro _ ⟨⟩
  exact ⟨hremoved, trans_of (CacheWithin a) h₁ h₂⟩

theorem kills_cache (l : List Address) (observer : MultiObservers) (hrep : Rep db saved t.state w) :
    wp (l.foldlM kill observer) (fun _ => True) (fun _ t' => RemovedFrom l t.state t'.state) t := by
  induction l generalizing observer w t with
  | nil => exact fun b => rfl
  | cons a l ih =>
    rw [List.foldlM_cons]
    have hkill := wp_and (kill_spec observer a hrep) (kill_cache observer a t)
    refine wp_bind.mpr (wp_mono hkill (fun _ h => h.elim) ?_)
    rintro _ t₁ ⟨⟨hrep₁, rfl⟩, hcache⟩
    obtain ⟨hremoved, hwithin⟩ := hcache _ rfl
    refine wp_post (ih _ hrep₁) ?_
    intro _ t' h b
    have hb := h b
    by_cases hmem : b ∈ l
    · rw [if_pos hmem] at hb
      rw [if_pos (List.mem_cons_of_mem a hmem)]
      exact hb
    · rw [if_neg hmem] at hb
      by_cases ha : b = a
      · subst ha
        obtain ⟨ref, href⟩ := hremoved
        rw [if_pos List.mem_cons_self]
        exact ⟨ref, hb.trans href⟩
      · rw [if_neg (by simp [ha, hmem]), hb]
        exact hwithin b ha

end TXExecutor

/-! ## Removing several contracts -/

omit [Keccak] in
/-- Amounts are burnt in any order. -/
theorem saturating_sub_right_comm (x y z : U256) :
    U256.saturating_sub (U256.saturating_sub x y) z =
      U256.saturating_sub (U256.saturating_sub x z) y := by
  refine BitVec.eq_of_toNat_eq ?_
  simp only [U256.toNat_saturating_sub]
  omega

namespace Ledger

theorem balanceOf_killed (w : Ledger) {a b : Address} (h : b ≠ a) :
    (w.killed a).balanceOf b = w.balanceOf b := by
  have haccount : (w.killed a).accounts b = w.accounts b := setAccount_of_ne h _ w
  unfold balanceOf
  rw [haccount]

/-- Contracts are removed in any order. -/
theorem killed_comm (w : Ledger) (a b : Address) :
    (w.killed a).killed b = (w.killed b).killed a := by
  by_cases h : a = b
  · rw [h]
  have haccounts : ((w.killed a).killed b).accounts = ((w.killed b).killed a).accounts :=
    Function.update_comm h _ _ _
  have htotal : ((w.killed a).killed b).total_issued_tokens =
      ((w.killed b).killed a).total_issued_tokens := by
    show U256.saturating_sub (U256.saturating_sub _ _) ((w.killed a).balanceOf b) =
      U256.saturating_sub (U256.saturating_sub _ _) ((w.killed b).balanceOf a)
    rw [balanceOf_killed w (Ne.symm h), balanceOf_killed w h]
    exact saturating_sub_right_comm _ _ _
  show (⟨_, _, _⟩ : Ledger) = ⟨_, _, _⟩
  rw [Ledger.mk.injEq]
  exact ⟨haccounts, htotal, rfl⟩

theorem kills_perm {l l' : List Address} (h : l.Perm l') (w : Ledger) :
    l.foldl Ledger.killed w = l'.foldl Ledger.killed w :=
  h.foldl_eq' (fun a _ b _ w => killed_comm w a b) w

end Ledger

/-! ## Commits -/

theorem new_removed_without_update (a : Address) (ref : CacheRef) :
    (OverlayAccount.new_removed a ref).removed_without_update = true := by
  simp [OverlayAccount.removed_without_update, OverlayAccount.new_removed,
    OverlayAccount.as_account,
    Account.is_default]

/-- What was removed in another order is committed alike. -/
theorem commitAlike_of_removed {l l' : List Address} (hperm : l.Perm l') {s s₁ s₂ : State}
    (h₁ : RemovedFrom l s s₁) (h₂ : RemovedFrom l' s s₂) (hown₁ : s₁.OwnAddresses)
    (hown₂ : s₂.OwnAddresses)
    (htotal : s₂.total_issued_tokens = s₁.total_issued_tokens) : CommitAlike s₁ s₂ := by
  refine ⟨hown₁, hown₂, fun a => ?_, htotal⟩
  have ha₁ := h₁ a
  have ha₂ := h₂ a
  by_cases hmem : a ∈ l
  · rw [if_pos hmem] at ha₁
    rw [if_pos (hperm.mem_iff.mp hmem)] at ha₂
    obtain ⟨ref₁, ha₁⟩ := ha₁
    obtain ⟨ref₂, ha₂⟩ := ha₂
    exact .inr ⟨_, _, ha₁, ha₂, ⟨_, rfl, new_removed_without_update a ref₁⟩,
      ⟨_, rfl, new_removed_without_update a ref₂⟩⟩
  · rw [if_neg hmem] at ha₁
    rw [if_neg fun h => hmem (hperm.mem_iff.mpr h)] at ha₂
    exact .inl (ha₂.trans ha₁.symm)

/-- The two states are committed to the same database and the same bytes, each with its own
    order. -/
structure SameCommit (o₁ o₂ : HashOrder) (s₁ s₂ : State) : Prop where
  db : ∀ s₁', (@State.commit o₁ _).final s₁ = .ok s₁' →
    ∃ s₂', (@State.commit o₂ _).final s₂ = .ok s₂' ∧ s₂'.db = s₁'.db
  backend : ∀ codec b, @State.commit_backend _ o₁ codec s₁ b = @State.commit_backend _ o₂ codec s₂ b

/-- Where no ledger is saved, no checkpoint is open. -/
theorem Rep.checkpoints_eq_nil {db : StateDb} {s : State} {w : Ledger} (h : Rep db [] s w) :
    s.checkpoints = [] := by
  obtain ⟨owner, h⟩ := h
  rcases hc : s.checkpoints with _ | ⟨c, cs⟩
  · rfl
  · obtain ⟨t, ts, ht, -⟩ := totals_cons h.ok hc
    have hsaved := h.saved_eq
    rw [savedLedgers_cons hc ht] at hsaved
    cases hsaved

theorem Rep.saved_eq_nil {db : StateDb} {saved : List Ledger} {s : State} {w : Ledger}
    (h : Rep db saved s w)
    (hclosed : s.checkpoints = []) : saved = [] := by
  obtain ⟨owner, h⟩ := h
  rw [← h.saved_eq, State.savedLedgers, hclosed]
  rfl

theorem sameCommit_of_alike {db : StateDb} {saved : List Ledger} {s₁ s₂ : State} {w : Ledger}
    (h₁ : Rep db saved s₁ w) (h₂ : Rep db saved s₂ w) (halike : CommitAlike s₁ s₂)
    (o₁ o₂ : HashOrder) :
    SameCommit o₁ o₂ s₁ s₂ := by
  have horder₁ := @commit_writes_order _ o₁ s₁
  have horder₂ := @commit_writes_order _ o₂ s₂
  constructor
  · intro s₁' hrun
    obtain ⟨hclosed, -⟩ := @commit_inv _ o₁ _ _ hrun
    have hsaved := h₁.saved_eq_nil hclosed
    subst hsaved
    have hrep₂ : RepSnapshots db s₂ ⟨w, []⟩ := h₂
    obtain ⟨s₂', hrun₂, -⟩ := @commit_returns _ o₂ _ _ _ hrep₂ h₂.checkpoints_eq_nil
    refine ⟨s₂', hrun₂, ?_⟩
    have hdb : s₁.db = s₂.db := by
      obtain ⟨_, h₁⟩ := h₁
      obtain ⟨_, h₂⟩ := h₂
      rw [h₁.db_eq, h₂.db_eq]
    rw [@commit_eq_writes _ o₁ _ _ hrun, @commit_eq_writes _ o₂ _ _ hrun₂, hdb]
    exact (halike.onDb_eq horder₁ horder₂ _).symm
  · intro codec b
    exact halike.onBackend_eq horder₁ horder₂ codec b

theorem commitAlike_refl {s : State} (hown : s.OwnAddresses) : CommitAlike s s :=
  ⟨hown, hown, fun _ => .inl rfl, rfl⟩

/-- What makes the order of the hash maps of a state unseen. -/
structure OrderUnseen (o₁ o₂ : HashOrder) (suicides : List Address) (observer : MultiObservers)
    (t : TxState) :
    Prop where
  /-- Destroyed contracts are removed in any order. -/
  kills : ∃ observer₁ t₁ observer₂ t₂,
    (@TXExecutor.kill_process _ o₁ suicides observer).run t = .ok (.ok observer₁, t₁) ∧
    (@TXExecutor.kill_process _ o₂ suicides observer).run t = .ok (.ok observer₂, t₂) ∧
    SameReads t₁.state t₂.state ∧ SameCommit o₁ o₂ t₁.state t₂.state
  /-- The state is committed in any order. -/
  commit : SameCommit o₁ o₂ t.state t.state
  /-- Also where every account goes over its slots in an order of its own, and the accounts are not
      sorted. -/
  anyOrder : ∀ writes, CommitOrder t.state writes → ∀ codec b,
    writes.foldl (fun b write => write.onBackend codec b) b =
      @State.commit_backend _ o₁ codec t.state b
  /-- The keys of different accounts are different bytes. -/
  apart : ∀ e ∈ t.state.cache.entries, ∀ e' ∈ t.state.cache.entries, e.1 ≠ e'.1 →
    ∀ block block', EntryOrder e block → EntryOrder e' block' →
      ∀ u ∈ block, ∀ v ∈ block', u.key.to_bytes ≠ v.key.to_bytes
  /-- Deletions and other writes under different keys commute. -/
  commute : ∀ codec b (u v : DbWrite), u.key ≠ v.key →
    v.onBackend codec (u.onBackend codec b) = u.onBackend codec (v.onBackend codec b)
  /-- Amounts are burnt in any order. -/
  burnt : ∀ (total : U256) (l l' : List U256), l.Perm l' →
    l.foldl U256.saturating_sub total = l'.foldl U256.saturating_sub total

/-- The order of hash maps is not seen. In every state that is reached, for every set of destroyed
    contracts and any two orders: what is read after the contracts were removed is the same, and so
    is what a commit leaves. -/
theorem hash_order_is_unseen (o o₁ o₂ : HashOrder) {t : TxState}
    (hstate : @State.Reachable _ o t.state)
    (suicides : List Address) (observer : MultiObservers) :
    OrderUnseen o₁ o₂ suicides observer t := by
  obtain ⟨db, saved, w, hrep⟩ := @State.Reachable.rep _ o _ hstate
  have halike := commitAlike_refl hrep.ownAddresses
  refine ⟨?_, sameCommit_of_alike hrep hrep halike o₁ o₂, ?_, ?_, ?_, ?_⟩
  · have hperm : (@HashOrder.iter o₁ _ suicides).Perm (@HashOrder.iter o₂ _ suicides) :=
      (o₁.iter_perm suicides).trans (o₂.iter_perm suicides).symm
    obtain ⟨r₁, t₁, hrun₁, ⟨hrep₁, rfl⟩, hcache₁⟩ := exists_run_of_wp
      (wp_and (TXExecutor.kills_spec _ observer hrep)
        (TXExecutor.kills_cache (@HashOrder.iter o₁ _ suicides) observer hrep))
    obtain ⟨r₂, t₂, hrun₂, ⟨hrep₂, rfl⟩, hcache₂⟩ := exists_run_of_wp
      (wp_and (TXExecutor.kills_spec _ observer hrep)
        (TXExecutor.kills_cache (@HashOrder.iter o₂ _ suicides) observer hrep))
    rw [Ledger.kills_perm hperm] at hrep₁
    have hreads := sameReads_of_rep hrep₁ hrep₂
    have halike₁₂ := commitAlike_of_removed hperm hcache₁ hcache₂ hrep₁.ownAddresses
      hrep₂.ownAddresses
      hreads.total_issued_tokens.symm
    exact ⟨_, t₁, _, t₂, hrun₁, hrun₂, hreads, sameCommit_of_alike hrep₁ hrep₂ halike₁₂ o₁ o₂⟩
  · intro writes horder codec b
    exact halike.onBackend_eq horder (@commit_writes_order _ o₁ t.state) codec b
  · intro e he e' he' hne block block' hblock hblock' u hu v hv heq
    have hown : ∀ e ∈ t.state.cache.entries, ∀ acc, e.2.account = some acc → acc.address = e.1 := by
      rintro ⟨a, e⟩ he acc hacc
      exact hrep.ownAddresses a e acc (AList.mem_lookup_iff.mpr he) hacc
    have hu := hblock.address (hown e he) hu
    have hv := hblock'.address (hown e' he') hv
    rw [StateKey.to_bytes_inj heq] at hu
    exact hne (hu.symm.trans hv)
  · intro codec b u v hne
    exact keysCommute_onBackend codec b u v hne
  · intro total l l' hperm
    exact hperm.foldl_eq' (fun x _ y _ z => saturating_sub_right_comm z x y) total

end

section
attribute [local instance] keccakOfEmpty HashOrder.asListed

/-- The other way round. -/
@[reducible] def HashOrder.reversed : HashOrder := ⟨fun l => l.reverse, fun l => l.reverse_perm⟩

/-- Two contracts with a balance, of which one has two slots. -/
def createTwo : List StoreCmd :=
  [.cmd (.op (.new_contract 7 10 1)), .cmd (.op (.set_storage 7 (List.replicate 32 0) 5)),
    .cmd (.op (.set_storage 7 (List.replicate 32 1) 6)), .cmd (.op (.new_contract 8 20 1))]

/-- The two contracts are removed one way and the other. -/
theorem two_contracts_are_removed :
    ∃ s g, runStore createTwo (State.new (Backend.db fixedCodec fun _ => none), .init) =
      .ok (s, g) ∧
      (State.balance 7).value s = .ok (.ok 10) ∧
      OrderUnseen HashOrder.asListed HashOrder.reversed [7, 8] .with_tracing ⟨s, .new 0⟩ := by
  obtain ⟨s, g, hrun, hbalance⟩ : ∃ s g,
      runStore createTwo (State.new (Backend.db fixedCodec fun _ => none), .init) = .ok (s, g) ∧
        (State.balance 7).value s = .ok (.ok 10) := ⟨_, _, rfl, rfl⟩
  exact ⟨s, g, hrun, hbalance, hash_order_is_unseen HashOrder.asListed _ _ ⟨_, createTwo,
    g, hrun⟩ _ _⟩

end

end CfxEvm
