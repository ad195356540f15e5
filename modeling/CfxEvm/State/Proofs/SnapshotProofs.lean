import CfxEvm.State.Commands
import CfxEvm.State.Proofs.OpsProofs

/-!
# Checkpoints are snapshots

The state with its lazy checkpoints refines the stack of full snapshots of `Lib.Snapshots`: a
checkpoint copies the ledger, a revert goes back to the copy, a discard drops it. What holds of
blocks of commands over a stack of snapshots thus holds of the state.
-/

open Lib

namespace CfxEvm

section
variable [Keccak] {db : StateDb}

/-- The state over the database `db` stands for the snapshots `x`. -/
def RepSnapshots (db : StateDb) (s : State) (x : Snapshots Ledger) : Prop :=
  Rep db x.saved s x.cur

theorem rep_new (db : StateDb) : RepSnapshots db (State.new db) (State.new db).snapshots := by
  refine ⟨fun _ => (0, false), ⟨?_, ?_, ?_, rfl⟩, rfl, rfl, rfl⟩
  · intro r k v hv
    simp [State.new] at hv
  · intro a e he
    simp [State.new] at he
  · intro c hc
    simp [State.new] at hc

/-! ## The three operations on checkpoints -/

theorem checkpoint_spec {s : State} {x : Snapshots Ledger} (h : RepSnapshots db s x) :
    ∃ s', State.checkpoint.run s = .ok (.ok (), s') ∧
      RepSnapshots db s' ⟨x.cur, x.cur :: x.saved⟩ := by
  obtain ⟨owner, h⟩ := h
  refine ⟨_, rfl, owner, ⟨h.ok.reads, h.ok.cached, ?_, ?_⟩, h.db_eq, ?_, h.ledger_eq⟩
  · intro c hc a e hlookup
    rcases List.mem_cons.mp hc with rfl | hc
    · simp at hlookup
    · exact h.ok.saved c hc a e hlookup
  · simpa using h.ok.totals
  · simp only [← h.saved_eq, ← h.ledger_eq]
    rfl

/-- The ledgers of the open checkpoints, one checkpoint at a time. -/
theorem savedLedgers_cons {s : State} {c : HashMap Address (Option AccountEntry)}
    {cs : List (HashMap Address (Option AccountEntry))} {t : U256} {ts : List U256}
    (hc : s.checkpoints = c :: cs) (ht : s.world_statistics_checkpoints = t :: ts) :
    s.savedLedgers =
      ⟨fun a => ((c.lookup a).map (entryView s.db a)).getD (s.accountViews a), t, s.db.slots⟩ ::
        List.zipWith (fun accounts total => ⟨accounts, total, s.db.slots⟩)
          (unwind s.db (fun a => ((c.lookup a).map (entryView s.db a)).getD (s.accountViews a)) cs)
          ts := by
  simp only [State.savedLedgers, hc, ht]
  rfl

/-- A state that keeps the invariant has as many saved totals as checkpoints. -/
theorem totals_cons {owner : Owner} {s : State} (h : s.Ok owner)
    {c : HashMap Address (Option AccountEntry)} {cs : List (HashMap Address (Option AccountEntry))}
    (hc : s.checkpoints = c :: cs) :
    ∃ t ts, s.world_statistics_checkpoints = t :: ts ∧ ts.length = cs.length := by
  have hlen := h.totals
  rw [hc, List.length_cons] at hlen
  obtain ⟨t, ts, hts⟩ := List.exists_cons_of_length_eq_add_one hlen
  exact ⟨t, ts, hts, by simpa [hts] using hlen⟩

section
variable [HashOrder]

theorem discard_checkpoint_spec {s : State} {x : Snapshots Ledger} (h : RepSnapshots db s x) :
    ∃ s', State.discard_checkpoint.run s = .ok (.ok (), s') ∧
      RepSnapshots db s' ⟨x.cur, x.saved.tail⟩ := by
  obtain ⟨owner, h⟩ := h
  simp only [State.discard_checkpoint, Prog.run_update]
  rcases hc : s.checkpoints with _ | ⟨c, cs⟩
  · have hsaved : x.saved = [] := by rw [← h.saved_eq, State.savedLedgers, hc]; rfl
    exact ⟨s, rfl, owner, h.ok, h.db_eq, h.saved_eq.trans (by simp [hsaved]), h.ledger_eq⟩
  obtain ⟨t, ts, ht, hlen⟩ := totals_cons h.ok hc
  have hcons := savedLedgers_cons hc ht
  rw [h.saved_eq] at hcons
  rw [hcons]
  simp only [ht, List.tail_cons]
  refine ⟨_, rfl, owner, ?_⟩
  cases cs with
  | nil =>
    refine ⟨⟨h.ok.reads, h.ok.cached, by simp, by simpa using hlen⟩, h.db_eq, ?_, h.ledger_eq⟩
    rw [List.length_eq_zero_iff.mp hlen]
    rfl
  | cons prev cs =>
    obtain ⟨t', ts, rfl⟩ := List.exists_cons_of_length_eq_add_one hlen
    refine ⟨⟨h.ok.reads, h.ok.cached, ?_, by simpa using hlen⟩, h.db_eq, ?_, h.ledger_eq⟩
    · -- An entry of the merged checkpoint comes from one of the two.
      intro c' hc' a e hlookup
      rcases List.mem_cons.mp hc' with rfl | hc'
      · rw [lookup_merge_checkpoint] at hlookup
        rcases hp : prev.lookup a with _ | o <;> rw [hp] at hlookup
        · exact h.ok.saved c (by simp [hc]) a e hlookup
        · exact h.ok.saved prev (by simp [hc]) a e (hp ▸ hlookup)
      · exact h.ok.saved c' (by simp [hc, hc']) a e hlookup
    · have hrev : (fun a => (((State.merge_checkpoint prev c).lookup a).map
          (entryView s.db a)).getD (s.accountViews a)) = fun a => ((prev.lookup a).map
          (entryView s.db a)).getD (((c.lookup a).map (entryView s.db a)).getD
            (s.accountViews a)) := by
        funext a
        rw [lookup_merge_checkpoint]
        cases prev.lookup a <;> rfl
      simp only [State.savedLedgers, State.accountViews, unwind] at hrev ⊢
      rw [hrev]

/-- What one saved entry makes of the entry in the cache. -/
def revertedEntry (saved : Option AccountEntry) (cur : Option AccountEntry) :
    Option AccountEntry :=
  match saved, cur with
  | some v, some e => some (e.overwrite_with v)
  | some v, none => some v
  | none, some e => if e.is_dirty then none else some e
  | none, none => none

omit [Keccak] [HashOrder] in
theorem lookup_revert_entry (m : HashMap Address AccountEntry)
    (e : Sigma fun _ : Address => Option AccountEntry) (a : Address) :
    (State.revert_entry m e).lookup a =
      if a = e.1 then revertedEntry e.2 (m.lookup a) else m.lookup a := by
  obtain ⟨b, v⟩ := e
  by_cases hab : a = b
  · subst hab
    simp only [State.revert_entry, if_true]
    rcases v with _ | v <;> rcases hm : m.lookup a with _ | e <;> simp only [revertedEntry]
    · exact hm
    · split
      · exact AList.lookup_erase a m
      · exact hm
    · exact AList.lookup_insert m
    · exact AList.lookup_insert m
  · simp only [State.revert_entry, if_neg hab]
    rcases v with _ | v <;> rcases m.lookup b with _ | e <;> simp only
    · split
      · exact AList.lookup_erase_ne hab
      · rfl
    · exact AList.lookup_insert_ne hab
    · exact AList.lookup_insert_ne hab

omit [Keccak] in
theorem lookup_reverted (c : HashMap Address (Option AccountEntry))
    (m : HashMap Address AccountEntry) (a : Address) :
    (c.drain.foldl State.revert_entry m).lookup a = match c.lookup a with
      | some v => revertedEntry v (m.lookup a)
      | none => m.lookup a := by
  rw [HashMap.lookup_foldl revertedEntry lookup_revert_entry _ c.nodupKeys_drain,
    HashMap.dlookup_drain]
  cases c.lookup a <;> rfl

omit [HashOrder] in
/-- In a state that keeps the invariant, a reverted entry shows what the saved one shows. -/
theorem revertedEntry_spec {owner : Owner} {s : State} (h : s.Ok owner)
    {c : HashMap Address (Option AccountEntry)} (hc : c ∈ s.checkpoints) {a : Address}
    {v : Option AccountEntry} (hv : c.lookup a = some v) :
    entryView s.db a (revertedEntry v (s.cache.lookup a)) = entryView s.db a v ∧
      ∀ e, revertedEntry v (s.cache.lookup a) = some e → EntryOk s.db s.next_ref owner a e := by
  rcases v with _ | v <;> rcases hl : s.cache.lookup a with _ | e
  · exact ⟨rfl, by simp [revertedEntry]⟩
  · -- Saved as absent: a dirty entry is dropped, and one that is not dirty shows the database.
    have heok := h.cached a e hl
    by_cases hd : e.is_dirty = true
    · simp [revertedEntry, hd]
    · refine ⟨?_, ?_⟩
      · simp only [revertedEntry, if_neg hd]
        exact heok.clean (by simpa using hd)
      · simp only [revertedEntry, if_neg hd]
        rintro _ ⟨rfl⟩
        exact heok
  · refine ⟨rfl, ?_⟩
    rintro _ ⟨rfl⟩
    exact h.saved c hc a v hv
  · have hvok := h.saved c hc a v hv
    have hover := AccountEntry.overwrite_with_eq (h.cached a e hl) hvok
    simp only [revertedEntry, hover]
    refine ⟨trivial, ?_⟩
    rintro _ ⟨rfl⟩
    exact hvok

theorem revert_to_checkpoint_spec {s : State} {x : Snapshots Ledger} (h : RepSnapshots db s x) :
    ∃ s', State.revert_to_checkpoint.run s = .ok (.ok (), s') ∧
      RepSnapshots db s' x.reverted := by
  obtain ⟨owner, h⟩ := h
  simp only [State.revert_to_checkpoint, Prog.run_bind, Prog.run_gets, Snapshots.reverted]
  rcases hc : s.checkpoints with _ | ⟨c, cs⟩
  · have hsaved : x.saved = [] := by rw [← h.saved_eq, State.savedLedgers, hc]; rfl
    simp only [hsaved]
    exact ⟨s, rfl, owner, h⟩
  obtain ⟨t, ts, ht, hlen⟩ := totals_cons h.ok hc
  have hcons := savedLedgers_cons hc ht
  rw [h.saved_eq] at hcons
  simp only [Prog.run_bind, Prog.run_gets, ht, hcons]
  refine ⟨_, rfl, owner, ?_⟩
  have hmem : c ∈ s.checkpoints := by simp [hc]
  have hviews : (fun a => entryView s.db a ((c.drain.foldl State.revert_entry s.cache).lookup a)) =
      fun a => ((c.lookup a).map (entryView s.db a)).getD (s.accountViews a) := by
    funext a
    rw [lookup_reverted]
    rcases hv : c.lookup a with _ | v
    · rfl
    · exact (revertedEntry_spec h.ok hmem hv).1
  refine ⟨⟨h.ok.reads, ?_, ?_, hlen⟩, h.db_eq, ?_, ?_⟩
  · intro a e hlookup
    rw [lookup_reverted] at hlookup
    rcases hv : c.lookup a with _ | v <;> rw [hv] at hlookup
    · exact h.ok.cached a e hlookup
    · exact (revertedEntry_spec h.ok hmem hv).2 e hlookup
  · exact fun c' hc' a e he => h.ok.saved c' (by simp [hc, hc']) a e he
  · exact congrArg (fun f => List.zipWith _ (unwind s.db f cs) ts) hviews
  · exact congrArg (fun f => Ledger.mk f t s.db.slots) hviews

/-! ## Commands -/

omit [HashOrder] in
theorem stateOp_spec (o : StateOp) {saved : List Ledger} {s : State} {w : Ledger}
    (h : Rep db saved s w) :
    (∃ p, o.exec s = .error p ∧ o.onLedger w = .error p) ∨
      ∃ s' w', o.exec s = .ok s' ∧ o.onLedger w = .ok w' ∧ Rep db saved s' w' := by
  cases o with
  | new_contract a b n => exact (new_contract_refines a b n db saved).final_rel h
  | init_code a c => exact (init_code_refines a c db saved).final_rel h
  | inc_nonce a n => exact (inc_nonce_refines a n db saved).final_rel h
  | set_nonce a n => exact (set_nonce_refines a n db saved).final_rel h
  | add_balance a v mode n => exact (add_balance_refines a v mode n db saved).final_rel h
  | sub_balance a v mode => exact (sub_balance_refines a v mode db saved).final_rel h
  | transfer_balance a b v mode n =>
    exact (transfer_balance_refines a b v mode n db saved).final_rel h
  | set_storage a k v => exact (set_storage_refines a k v db saved).final_rel h
  | remove_contract a => exact (remove_contract_refines a db saved).final_rel h
  | clean_account a => exact (clean_account_refines a db saved).final_rel h
  | subtract_total_issued v => exact (subtract_total_issued_refines v db saved).final_rel h
  | balance a => exact (balance_refines a db saved).final_rel h
  | nonce a => exact (nonce_refines a db saved).final_rel h
  | code_hash a => exact (code_hash_refines a db saved).final_rel h
  | code a => exact (code_refines a db saved).final_rel h
  | code_size a => exact (code_size_refines a db saved).final_rel h
  | is_contract_with_code a => exact (is_contract_with_code_refines a db saved).final_rel h
  | storage_at a k => exact (storage_at_refines a k db saved).final_rel h
  | «exists» a => exact (exists_refines a db saved).final_rel h
  | exists_and_not_null a => exact (exists_and_not_null_refines a db saved).final_rel h

/-- One command on the state is the command on the snapshots it stands for. -/
theorem execCmd_spec (c : Cmd StateOp) {s : State} {x : Snapshots Ledger}
    (h : RepSnapshots db s x) :
    (∃ p, s.execCmd c = .error p ∧ x.step StateOp.onLedger c = .error p) ∨
      ∃ s' x', s.execCmd c = .ok s' ∧ x.step StateOp.onLedger c = .ok x' ∧
        RepSnapshots db s' x' := by
  cases c with
  | op o =>
    rcases stateOp_spec o h with ⟨p, hs, hw⟩ | ⟨s', w', hs, hw, hrep⟩
    · exact .inl ⟨p, hs, by simp only [Snapshots.step, hw]; rfl⟩
    · exact .inr ⟨s', ⟨w', x.saved⟩, hs, by simp only [Snapshots.step, hw]; rfl, hrep⟩
  | checkpoint =>
    obtain ⟨s', hs, hrep⟩ := checkpoint_spec h
    exact .inr ⟨s', _, by simp only [State.execCmd, Prog.final, hs]; rfl, rfl, hrep⟩
  | discard =>
    obtain ⟨s', hs, hrep⟩ := discard_checkpoint_spec h
    exact .inr ⟨s', _, by simp only [State.execCmd, Prog.final, hs]; rfl, rfl, hrep⟩
  | revert =>
    obtain ⟨s', hs, hrep⟩ := revert_to_checkpoint_spec h
    exact .inr ⟨s', _, by simp only [State.execCmd, Prog.final, hs]; rfl, rfl, hrep⟩

/-- A sequence of commands on the state is the sequence on the snapshots it stands for. -/
theorem execCmds_spec (l : List (Cmd StateOp)) {s : State} {x : Snapshots Ledger}
    (h : RepSnapshots db s x) :
    (∃ p, s.execCmds l = .error p ∧ x.run StateOp.onLedger l = .error p) ∨
      ∃ s' x', s.execCmds l = .ok s' ∧ x.run StateOp.onLedger l = .ok x' ∧
        RepSnapshots db s' x' := by
  induction l generalizing s x with
  | nil => exact .inr ⟨s, x, rfl, rfl, h⟩
  | cons c l ih =>
    rw [State.execCmds, List.foldlM_cons, Snapshots.run_cons]
    rcases execCmd_spec c h with ⟨p, hs, hx⟩ | ⟨s₁, x₁, hs, hx, hrep⟩
    · exact .inl ⟨p, by rw [hs]; rfl, by rw [hx]; rfl⟩
    · rw [hs, hx]
      exact ih hrep

section
omit [HashOrder]

/-- Accounts that differ in the balance and the nonce only have the same content. -/
theorem sameContent_of_rep {db' : StateDb} {saved saved' : List Ledger} {s s' : State}
    {w w' : Ledger} (h : Rep db saved s w) (h' : Rep db' saved' s' w') {a : Address}
    {f : AccountView → AccountView} (hacc : w'.accounts a = (w.accounts a).map f)
    (hf : ∀ v, (f v).code_hash = v.code_hash ∧ (f v).code = v.code ∧ (f v).storage = v.storage) :
    SameContent a s s' := by
  refine ⟨?_, ?_, fun k => ?_, ?_⟩
  · rw [(code_hash_refines a _ _).value_eq h, (code_hash_refines a _ _).value_eq h']
    show Except.ok (Except.ok ((w.accounts a).map AccountView.code_hash)) =
      Except.ok (Except.ok ((w'.accounts a).map AccountView.code_hash))
    rw [hacc]
    rcases w.accounts a with _ | v
    · rfl
    · simp [(hf v).1]
  · rw [(code_refines a _ _).value_eq h, (code_refines a _ _).value_eq h']
    simp only [Ledger.code, Ledger.account_with_code, Ledger.account, Prog.value, Prog.run_bind,
      Prog.run_gets, hacc]
    rcases w.accounts a with _ | v
    · rfl
    · simp only [Option.map_some, (hf v).1, (hf v).2.1]
      by_cases hmissing : (v.code.isNone && v.code_hash != KECCAK_EMPTY) = true
      · simp only [hmissing, if_true]
        rfl
      · simp only [hmissing]
        simp [Except.map, (hf v).2.1]
  · rw [(storage_at_refines a k _ _).value_eq h, (storage_at_refines a k _ _).value_eq h']
    show Except.ok (Except.ok (w.storageOf a k)) = Except.ok (Except.ok (w'.storageOf a k))
    unfold Ledger.storageOf
    rw [hacc]
    rcases w.accounts a with _ | v
    · rfl
    · simp [(hf v).2.2]
  · rw [(exists_refines a _ _).value_eq h, (exists_refines a _ _).value_eq h']
    show Except.ok (Except.ok (w.accounts a).isSome) = Except.ok (Except.ok (w'.accounts a).isSome)
    rw [hacc, Option.isSome_map]

/-- Addresses with the same account read the same. -/
theorem sameReadsAt_of_rep {db' : StateDb} {saved saved' : List Ledger} {s s' : State}
    {w w' : Ledger} (h : Rep db saved s w) (h' : Rep db' saved' s' w') {a : Address}
    (hacc : w'.accounts a = w.accounts a) : SameReadsAt a s s' := by
  have hid : w'.accounts a = (w.accounts a).map id := by rw [hacc, Option.map_id_fun, id]
  refine ⟨sameContent_of_rep h h' hid fun v => ⟨rfl, rfl, rfl⟩, ?_, ?_, ?_⟩
  · rw [(balance_refines a _ _).value_eq h, (balance_refines a _ _).value_eq h']
    show Except.ok (Except.ok (w.balanceOf a)) = Except.ok (Except.ok (w'.balanceOf a))
    unfold Ledger.balanceOf
    rw [hacc]
  · rw [(nonce_refines a _ _).value_eq h, (nonce_refines a _ _).value_eq h']
    show Except.ok (Except.ok (w.nonceOf a)) = Except.ok (Except.ok (w'.nonceOf a))
    unfold Ledger.nonceOf
    rw [hacc]
  · rw [(exists_and_not_null_refines a _ _).value_eq h,
      (exists_and_not_null_refines a _ _).value_eq h']
    show Except.ok (Except.ok ((w.accounts a).any fun v => !v.is_null)) =
      Except.ok (Except.ok ((w'.accounts a).any fun v => !v.is_null))
    rw [hacc]

/-- States that stand for the same ledger read the same. -/
theorem sameReads_of_rep {db' : StateDb} {saved saved' : List Ledger} {s s' : State} {w : Ledger}
    (h : Rep db saved s w) (h' : Rep db' saved' s' w) : SameReads s s' where
  balance a := ((balance_refines a _ _).value_eq h).trans ((balance_refines a _ _).value_eq h').symm
  nonce a := ((nonce_refines a _ _).value_eq h).trans ((nonce_refines a _ _).value_eq h').symm
  code_hash a :=
    ((code_hash_refines a _ _).value_eq h).trans ((code_hash_refines a _ _).value_eq h').symm
  code a := ((code_refines a _ _).value_eq h).trans ((code_refines a _ _).value_eq h').symm
  storage_at a k :=
    ((storage_at_refines a k _ _).value_eq h).trans ((storage_at_refines a k _ _).value_eq h').symm
  «exists» a := ((exists_refines a _ _).value_eq h).trans ((exists_refines a _ _).value_eq h').symm
  exists_and_not_null a := ((exists_and_not_null_refines a _ _).value_eq h).trans
    ((exists_and_not_null_refines a _ _).value_eq h').symm
  total_issued_tokens := by
    obtain ⟨_, h⟩ := h
    obtain ⟨_, h'⟩ := h'
    have hs : s.ledger.total_issued_tokens = s'.ledger.total_issued_tokens := by
      rw [h.ledger_eq, h'.ledger_eq]
    exact hs

end

/-- Checkpoints behave as a stack of full snapshots. In every state reached from `State::new` by
    any commands, and for every block of commands whose own checkpoints are all closed: reverting
    the checkpoint around the block leaves every read as it was, and discarding it makes every
    read, after any further commands (reverts of outer checkpoints among them), what it is when
    the block is run without the checkpoint. -/
theorem checkpoints_are_snapshots (db : StateDb) (pre block : List (Cmd StateOp))
    (hblock : Balanced block) (s : State) (hs : (State.new db).execCmds pre = .ok s) :
    (∀ s', s.execCmds (.checkpoint :: (block ++ [.revert])) = .ok s' → SameReads s' s) ∧
      ∀ post s', s.execCmds (.checkpoint :: (block ++ .discard :: post)) = .ok s' →
        ∃ s'', s.execCmds (block ++ post) = .ok s'' ∧ SameReads s' s'' := by
  have hrep : ∃ x, RepSnapshots db s x := by
    rcases execCmds_spec pre (rep_new db) with ⟨p, hp, -⟩ | ⟨s₁, x, hs₁, -, hx⟩
    · exact absurd (hs.symm.trans hp) (by simp)
    · exact ⟨x, Except.ok.inj (hs₁.symm.trans hs) ▸ hx⟩
  obtain ⟨x, hx⟩ := hrep
  refine ⟨fun s' hs' => ?_, fun post s' hs' => ?_⟩
  · rcases execCmds_spec (.checkpoint :: (block ++ [.revert])) hx with
      ⟨p, hp, -⟩ | ⟨s₁, x₁, hs₁, hrun, hx₁⟩
    · exact absurd (hs'.symm.trans hp) (by simp)
    · obtain rfl := Snapshots.run_revert_block hblock hrun
      obtain rfl := Except.ok.inj (hs₁.symm.trans hs')
      exact sameReads_of_rep hx₁ hx
  · rcases execCmds_spec (.checkpoint :: (block ++ .discard :: post)) hx with
      ⟨p, hp, -⟩ | ⟨s₁, x₁, hs₁, hrun, hx₁⟩
    · exact absurd (hs'.symm.trans hp) (by simp)
    · obtain rfl := Except.ok.inj (hs₁.symm.trans hs')
      rw [Snapshots.run_discard_block hblock] at hrun
      rcases execCmds_spec (block ++ post) hx with ⟨p, -, hp⟩ | ⟨s₂, x₂, hs₂, hrun₂, hx₂⟩
      · exact absurd (hrun.symm.trans hp) (by simp)
      · obtain rfl := Except.ok.inj (hrun.symm.trans hrun₂)
        exact ⟨s₂, hs₂, sameReads_of_rep hx₁ hx₂⟩

end

end

section
attribute [local instance] keccakOfEmpty HashOrder.asListed

/-- A block that writes a slot, removes the contract and creates it again, nested in a discarded
    checkpoint, is undone by the revert around it. -/
theorem checkpoints_are_snapshots_recreate :
    ∃ s s', (State.new StateDb.empty).execCmds
        [.op (.new_contract 7 5 1), .op (.set_storage 7 [1] 3)] = .ok s ∧
      s.execCmds (.checkpoint :: ([.op (.set_storage 7 [1] 4), .checkpoint,
        .op (.remove_contract 7), .op (.new_contract 7 0 1), .discard] ++ [.revert])) = .ok s' ∧
      SameReads s' s := by
  refine ⟨_, _, rfl, rfl, ?_⟩
  have hblock : Balanced ([.op (.set_storage 7 [1] 4), .checkpoint, .op (.remove_contract 7),
      .op (.new_contract 7 0 1), .discard] : List (Cmd StateOp)) :=
    .op (.discard (b := [.op (StateOp.remove_contract 7), .op (StateOp.new_contract 7 0 1)])
      (.op (.op .nil)) .nil)
  exact (checkpoints_are_snapshots .empty [.op (.new_contract 7 5 1), .op (.set_storage 7 [1] 3)] _
    hblock _ rfl).1 _ rfl

end

end CfxEvm
