import CfxEvm.State.Proofs.CommitProofs

/-!
# New contracts start with empty storage

The invariant of a run pairs the record of creations with the ledger, now, at each open checkpoint
and at the last commit: a slot that was not written since the creation is zero in the database and
shows as zero. One step keeps it, if its creation happens where the database holds no slot.
-/

open Lib

namespace CfxEvm

section
/-! ## What the operations do to one slot -/

/-- From `w` to `w'` the stored slots stay, and a slot that is zero both in the database and in
    what is shown stays zero. -/
def SlotStep (a : Address) (k : Bytes) (w w' : Ledger) : Prop :=
  w'.stored = w.stored ∧ (w.stored a k = 0 → w.storageOf a k = 0 → w'.storageOf a k = 0)

instance SlotStep.isPreorder (a : Address) (k : Bytes) : IsPreorder Ledger (SlotStep a k) where
  refl _ := ⟨rfl, fun _ h => h⟩
  trans _ _ _ h h' :=
    ⟨h'.1.trans h.1, fun hs hw => h'.2 (by rw [h.1]; exact hs) (h.2 hs hw)⟩

theorem Ledger.storageOf_setAccount (w : Ledger) (a b : Address) (v : AccountView) (k : Bytes) :
    (w.setAccount b v).storageOf a k = if a = b then v.storage k else w.storageOf a k := by
  by_cases hab : a = b
  · subst hab
    simp [Ledger.storageOf, Ledger.setAccount]
  · simp [Ledger.storageOf, Ledger.setAccount, hab]

theorem SlotStep.setAccount {a b : Address} {k : Bytes} {w : Ledger} {v : AccountView}
    (h : b = a → w.stored a k = 0 → w.storageOf a k = 0 → v.storage k = 0) :
    SlotStep a k w (w.setAccount b v) := by
  refine ⟨rfl, fun hs hw => ?_⟩
  rw [Ledger.storageOf_setAccount]
  split
  · exact h (Eq.symm ‹_›) hs hw
  · exact hw

/-- `f` does not touch the slot. -/
def KeepsSlot (k : Bytes) (f : AccountView → Except Panic AccountView) : Prop :=
  ∀ v v', f v = .ok v' → v'.storage k = v.storage k

theorem write_account_slot {a b : Address} {k : Bytes} {f : AccountView → Except Panic AccountView}
    (hf : b = a → KeepsSlot k f) {w : Ledger} {v : AccountView}
    (hv : b = a → w.stored a k = 0 → w.storageOf a k = 0 → v.storage k = 0) :
    Prog.wp (Ledger.write_account b (f v)) (fun _ => True) (fun _ w' => SlotStep a k w w') w := by
  rcases hfv : f v with p | v'
  · exact trivial
  · refine SlotStep.setAccount fun hb hs hw => ?_
    rw [hf hb v v' hfv]
    exact hv hb hs hw

theorem modify_existing_slot {a b : Address} {k : Bytes}
    {f : AccountView → Except Panic AccountView} (hf : b = a → KeepsSlot k f) :
    Prog.Keeps (SlotStep a k) (Ledger.modify_existing b f) := by
  intro w
  rw [Ledger.modify_existing, Prog.wp_bind, Ledger.account, Prog.wp_gets]
  rcases hv : w.accounts b with _ | v
  · exact refl_of (SlotStep a k) w
  · refine write_account_slot hf fun hb _ hw => ?_
    subst hb
    simpa [Ledger.storageOf, hv] using hw

variable [Keccak]

theorem modify_or_new_slot {a b : Address} {k : Bytes} {nonce : U256}
    {f : AccountView → Except Panic AccountView} (hf : b = a → KeepsSlot k f) :
    Prog.Keeps (SlotStep a k) (Ledger.modify_or_new b nonce f) := by
  intro w
  rw [Ledger.modify_or_new, Prog.wp_bind, Prog.wp_gets]
  refine write_account_slot hf fun hb hs hw => ?_
  subst hb
  rcases hv : w.accounts b with _ | v
  · exact hs
  · simpa [Ledger.storageOf, hv] using hw

section
omit [Keccak]

theorem inc_nonce_keepsSlot (k : Bytes) : KeepsSlot k AccountView.inc_nonce := by
  intro v v' h
  unfold AccountView.inc_nonce at h
  split at h
  · exact Except.ok.inj h ▸ rfl
  · exact absurd h (by simp)

theorem add_balance_keepsSlot (k : Bytes) (x : U256) : KeepsSlot k (AccountView.add_balance x) := by
  intro v v' h
  unfold AccountView.add_balance at h
  split at h
  · exact Except.ok.inj h ▸ rfl
  · exact absurd h (by simp)

theorem sub_balance_keepsSlot (k : Bytes) (x : U256) : KeepsSlot k (AccountView.sub_balance x) := by
  intro v v' h
  unfold AccountView.sub_balance at h
  split at h
  · exact Except.ok.inj h ▸ rfl
  · exact absurd h (by simp)

theorem sub_balance_slot (a : Address) (k : Bytes) (b : Address) (x : U256) (mode : CleanupMode) :
    Prog.Keeps (SlotStep a k) (Ledger.sub_balance b x mode) := by
  refine .bind (.when fun _ => modify_existing_slot fun _ => sub_balance_keepsSlot k x) fun _ => ?_
  cases mode with
  | TrackTouched set => exact .bind (.gets _) fun _ => .pure _
  | ForceCreate => exact .pure _
  | NoEmpty => exact .pure _

end

theorem add_balance_slot (a : Address) (k : Bytes) (b : Address) (x : U256) (mode : CleanupMode)
    (nonce : U256) : Prog.Keeps (SlotStep a k) (Ledger.add_balance b x mode nonce) :=
  .bind (.gets _) fun _ =>
    .bind (.when fun _ => modify_or_new_slot fun _ => add_balance_keepsSlot k x) fun _ => .pure _

theorem account_with_code_slot (a : Address) (k : Bytes) (b : Address) :
    Prog.Keeps (SlotStep a k) (Ledger.account_with_code b) := by
  refine .bind (.gets _) fun o => ?_
  cases o with
  | none => exact .pure _
  | some v => exact .ite (fun _ => .fail _) fun _ => .pure _

/-- Every operation but a write to the slot leaves a zero slot at zero. -/
theorem onLedger_slot (o : StateOp) {w w' : Ledger} (h : o.onLedger w = .ok w') (a : Address)
    (k : Bytes) (ho : ∀ v, o ≠ .set_storage a k v) : SlotStep a k w w' := by
  cases o with
  | new_contract b x n =>
    refine Prog.Keeps.of_final (.update fun w => ?_) h
    refine SlotStep.setAccount fun hb hs _ => ?_
    subst hb
    simp only [AccountView.contract]
    split
    · rfl
    · exact hs
  | init_code b c =>
    refine (modify_existing_slot fun _ v v' hv => ?_).of_final h
    exact Except.ok.inj hv ▸ rfl
  | inc_nonce b n => exact (modify_or_new_slot fun _ => inc_nonce_keepsSlot k).of_final h
  | set_nonce b n =>
    refine (modify_or_new_slot fun _ v v' hv => ?_).of_final h
    exact Except.ok.inj hv ▸ rfl
  | add_balance b x mode n => exact (add_balance_slot a k b x mode n).of_final h
  | sub_balance b x mode => exact (sub_balance_slot a k b x mode).of_final h
  | transfer_balance b c x mode n =>
    exact Prog.Keeps.of_final (.bind (sub_balance_slot a k b x mode) fun mode =>
      add_balance_slot a k c x mode n) h
  | set_storage b l v =>
    refine Prog.Keeps.of_final (.bind (.gets _) fun old => .when fun _ =>
      modify_existing_slot fun hb v₀ v' hv => ?_) h
    have hkl : k ≠ l := fun hkl => ho v (by rw [hb, hkl])
    obtain rfl := Except.ok.inj hv
    simp [AccountView.set_storage, hkl]
  | remove_contract b =>
    exact Prog.Keeps.of_final (R := SlotStep a k)
      (.update fun w => SlotStep.setAccount fun _ _ _ => rfl) h
  | clean_account b =>
    exact Prog.Keeps.of_final (R := SlotStep a k)
      (.update fun w => SlotStep.setAccount fun hb hs _ => hb ▸ hs) h
  | subtract_total_issued v =>
    have hkeep : Prog.Keeps (SlotStep a k) (Ledger.subtract_total_issued v) :=
      .update fun w => ⟨rfl, fun _ hw => hw⟩
    exact hkeep.of_final h
  | balance b => exact Prog.Keeps.of_final (.gets _) h
  | nonce b => exact Prog.Keeps.of_final (.gets _) h
  | code_hash b => exact Prog.Keeps.of_final (.gets _) h
  | code b => exact Prog.Keeps.of_final (.bind (account_with_code_slot a k b) fun _ => .pure _) h
  | code_size b =>
    exact Prog.Keeps.of_final (.bind (account_with_code_slot a k b) fun _ => .pure _) h
  | is_contract_with_code b => exact Prog.Keeps.of_final (.gets _) h
  | storage_at b l => exact Prog.Keeps.of_final (.gets _) h
  | «exists» b => exact Prog.Keeps.of_final (.gets _) h
  | exists_and_not_null b => exact Prog.Keeps.of_final (.gets _) h

/-- No operation changes the stored slots. -/
theorem onLedger_stored (o : StateOp) {w w' : Ledger} (h : o.onLedger w = .ok w') :
    w'.stored = w.stored := by
  -- Any slot that the operation does not write tells.
  obtain ⟨k, hk⟩ : ∃ k, ∀ v, o ≠ .set_storage 0 k v := by
    cases o with
    | set_storage b l v => exact ⟨0 :: l, by simp⟩
    | _ => exact ⟨[], by simp⟩
  exact (onLedger_slot o h 0 k hk).1

/-! ## The invariant of a run -/

/-- The slots of created contracts that were not written since are zero, in the database and in
    what is shown. -/
def Zeroed (g : Written) (w : Ledger) : Prop :=
  ∀ a written, g a = some written → a ≠ STORAGE_INTEREST_STAKING_CONTRACT_ADDRESS ∧
    ∀ k, k ∉ written → w.stored a k = 0 ∧ w.storageOf a k = 0

/-- The invariant of a run, from step to step. -/
def RunInv (s : State) (g : Created) : Prop :=
  (∃ x, RepSnapshots s.db s x ∧ Zeroed g.cur x.cur ∧ List.Forall₂ Zeroed g.saved x.saved) ∧
    Zeroed g.committed ⟨fun _ => none, 0, s.db.slots⟩

theorem storageOf_view {db : StateDb} {a : Address} {k : Bytes} (h : db.slots a k = 0) (t : U256) :
    (Ledger.mk db.view t db.slots).storageOf a k = 0 := by
  rcases hacc : db.accounts a with _ | acc
  · simp [Ledger.storageOf, StateDb.view, hacc]
  · simp [Ledger.storageOf, StateDb.view, hacc, OverlayAccount.view, OverlayAccount.from_loaded,
      OverlayAccount.fresh_storage, h]

/-- Where nothing is cached, zero slots of the database show as zero. -/
theorem Zeroed.of_slots {g : Written} {db : StateDb}
    (h : Zeroed g ⟨fun _ => none, 0, db.slots⟩) (t : U256) :
    Zeroed g ⟨db.view, t, db.slots⟩ := by
  intro a written ha
  obtain ⟨hne, hz⟩ := h a written ha
  exact ⟨hne, fun k hk => ⟨(hz k hk).1, storageOf_view (hz k hk).1 t⟩⟩

theorem Zeroed.op {g : Written} {w w' : Ledger} (hz : Zeroed g w) {o : StateOp}
    (h : o.onLedger w = .ok w')
    (hnew : ∀ a b n, o = .new_contract a b n →
      a ≠ STORAGE_INTEREST_STAKING_CONTRACT_ADDRESS ∧ ∀ k, w.stored a k = 0) :
    Zeroed (Created.note g o) w' := by
  have hstored := onLedger_stored o h
  -- A slot that the record has as unwritten already, and that this operation does not write.
  have hold : ∀ a written k, g a = some written → k ∉ written →
      (∀ v, o ≠ .set_storage a k v) → w'.stored a k = 0 ∧ w'.storageOf a k = 0 := by
    intro a written k ha hk ho
    obtain ⟨hs, hw⟩ := (hz a written ha).2 k hk
    exact ⟨by rw [hstored]; exact hs, (onLedger_slot o h a k ho).2 hs hw⟩
  cases o with
  | new_contract b x n =>
    obtain ⟨hne, hs⟩ := hnew b x n rfl
    intro a written ha
    by_cases hab : a = b
    · subst hab
      refine ⟨hne, fun k _ => ⟨by rw [hstored]; exact hs k, ?_⟩⟩
      obtain rfl := Except.ok.inj h
      rw [Ledger.storageOf_setAccount, if_pos rfl]
      simp only [AccountView.contract]
      split
      · rfl
      · exact hs k
    · rw [Created.note, Function.update_of_ne hab] at ha
      exact ⟨(hz a written ha).1, fun k hk => hold a written k ha hk (by simp)⟩
  | set_storage b l v =>
    intro a written ha
    by_cases hab : a = b
    · subst hab
      rw [Created.note, Function.update_self] at ha
      obtain ⟨old, hold', rfl⟩ := Option.map_eq_some_iff.mp ha
      refine ⟨(hz a old hold').1, fun k hk => ?_⟩
      rw [List.mem_cons, not_or] at hk
      exact hold a old k hold' hk.2 fun v' hv' => hk.1 (StateOp.set_storage.inj hv').2.1.symm
    · rw [Created.note, Function.update_of_ne hab] at ha
      refine ⟨(hz a written ha).1, fun k hk => hold a written k ha hk fun v' hv' => hab ?_⟩
      exact (StateOp.set_storage.inj hv').1.symm
  | _ =>
    exact fun a written ha => ⟨(hz a written ha).1, fun k hk => hold a written k ha hk (by simp)⟩

/-! ## One step, and whole runs -/

theorem add_total_issued_spec {db : StateDb} {s s' : State} {x : Snapshots Ledger} {v : U256}
    (h : RepSnapshots db s x) (hrun : (State.add_total_issued v).final s = .ok s') :
    ∃ t, RepSnapshots db s' ⟨{ x.cur with total_issued_tokens := t }, x.saved⟩ := by
  obtain ⟨owner, h⟩ := h
  have hs' : ∃ t, s' = { s with total_issued_tokens := t } := by
    simp only [State.add_total_issued, Prog.final, Prog.run_bind, Prog.run_gets,
      Prog.assert] at hrun
    by_cases hts : s.world_statistics_checkpoints.isEmpty = true
    · simp only [hts, if_true, Prog.run_pure] at hrun
      rcases hadd : U256.checked_add s.total_issued_tokens v with _ | t
      · simp [hadd, Prog.expect, Except.map] at hrun
      · simp only [hadd, Prog.expect, Prog.run_pure, Prog.run_update] at hrun
        exact ⟨t, (Except.ok.inj hrun).symm⟩
    · simp [hts, Except.map] at hrun
  obtain ⟨t, rfl⟩ := hs'
  refine ⟨t, owner, ⟨h.ok.reads, h.ok.cached, h.ok.saved, h.ok.totals⟩, h.db_eq, h.saved_eq, ?_⟩
  simp only [← h.ledger_eq]
  rfl

theorem RunInv.new (db : StateDb) : RunInv (State.new db) Created.init :=
  ⟨⟨_, rep_new db, fun _ _ ha => absurd ha (by simp [Created.init]), .nil⟩,
    fun _ _ ha => absurd ha (by simp [Created.init])⟩

variable [HashOrder]

/-- A command on the cached state keeps the invariant. -/
theorem RunInv.cmd {s s' : State} {g : Created} (h : RunInv s g) {c : Cmd StateOp}
    (hc : CreatesOnEmpty s (.cmd c)) (hrun : s.execCmd c = .ok s') :
    RunInv s' (g.after (.cmd c)) := by
  obtain ⟨⟨x, hx, hcur, hsaved⟩, hcom⟩ := h
  rcases execCmd_spec c hx with ⟨p, hp, -⟩ | ⟨s₁, x', hs₁, hstep, hx'⟩
  · exact absurd (hrun.symm.trans hp) (by simp)
  obtain rfl := Except.ok.inj (hrun.symm.trans hs₁)
  have hdb : s'.db = s.db := by
    obtain ⟨owner, hx'⟩ := hx'
    exact hx'.db_eq
  have hstored : x.cur.stored = s.db.slots := by
    obtain ⟨owner, hx⟩ := hx
    exact hx.stored_eq
  refine ⟨⟨x', hdb ▸ hx', ?_⟩, ?_⟩
  · cases c with
    | op o =>
      rcases ho : o.onLedger x.cur with p | w'
      · simp only [Snapshots.step, ho] at hstep
        exact absurd hstep (by simp [Except.map])
      · simp only [Snapshots.step, ho] at hstep
        obtain rfl := Except.ok.inj hstep
        refine ⟨hcur.op ho ?_, hsaved⟩
        rintro a b n rfl
        exact ⟨hc.1, fun k => by rw [hstored]; exact hc.2 k⟩
    | checkpoint =>
      obtain rfl := Except.ok.inj hstep
      exact ⟨hcur, .cons hcur hsaved⟩
    | discard =>
      obtain rfl := Except.ok.inj hstep
      refine ⟨hcur, ?_⟩
      simp only [Created.after]
      generalize g.saved = gs, x.saved = ws at hsaved
      cases hsaved with
      | nil => exact .nil
      | cons _ hrest => exact hrest
    | revert =>
      obtain rfl := Except.ok.inj hstep
      simp only [Created.after, Snapshots.reverted]
      cases hsv : x.saved with
      | nil =>
        rw [hsv, List.forall₂_nil_right_iff] at hsaved
        simp only [hsaved]
        exact ⟨hcur, hsv ▸ .nil⟩
      | cons w ws =>
        rw [hsv] at hsaved
        obtain ⟨g₁, gs, h₁, hrest, hgs⟩ := List.forall₂_cons_right_iff.mp hsaved
        simp only [hgs]
        exact ⟨h₁, hrest⟩
  · have hcom' : (g.after (.cmd c)).committed = g.committed := by
      cases c with
      | revert => simp only [Created.after]; split <;> rfl
      | _ => rfl
    rw [hcom', hdb]
    exact hcom

/-- A command of a run leaves a state that stands for a ledger. -/
theorem execStore_rep {db : StateDb} {s s' : State} {x : Snapshots Ledger} {c : StoreCmd}
    (h : RepSnapshots db s x) (hrun : s.execStore c = .ok s') :
    ∃ db' x', RepSnapshots db' s' x' := by
  cases c with
  | cmd c =>
    rcases execCmd_spec c h with ⟨p, hp, -⟩ | ⟨s₁, x', hs₁, -, hx'⟩
    · exact absurd (hrun.symm.trans hp) (by simp)
    · obtain rfl := Except.ok.inj (hrun.symm.trans hs₁)
      exact ⟨db, x', hx'⟩
  | add_total_issued v =>
    obtain ⟨t, hx'⟩ := add_total_issued_spec h hrun
    exact ⟨db, _, hx'⟩
  | commit =>
    obtain ⟨-, -, hcache, hreads, hcs, hts, -⟩ := commit_inv hrun
    exact ⟨s'.db, ⟨_, []⟩, rep_of_empty hcache hcs hts hreads⟩
  | reopen =>
    obtain rfl := Except.ok.inj hrun
    exact ⟨s.db, _, rep_new s.db⟩

/-- Every reachable state stands for a ledger, and so do its open checkpoints. -/
theorem State.Reachable.rep {s : State} (h : s.Reachable) : ∃ db saved w, Rep db saved s w := by
  obtain ⟨db, cmds, created, hrun⟩ := h
  suffices hrep : ∀ (cmds : List StoreCmd) (s₀ : State) (g₀ : Created),
      (∃ db x, RepSnapshots db s₀ x) → runStore cmds (s₀, g₀) = .ok (s, created) →
        ∃ db x, RepSnapshots db s x by
    obtain ⟨db', x, hx⟩ := hrep cmds _ _ ⟨db, _, rep_new db⟩ hrun
    exact ⟨db', x.saved, x.cur, hx⟩
  intro cmds
  induction cmds with
  | nil =>
    intro s₀ g₀ hs₀ hrun
    obtain ⟨rfl, rfl⟩ := Prod.mk.inj (Except.ok.inj hrun)
    exact hs₀
  | cons c cmds ih =>
    intro s₀ g₀ hs₀ hrun
    rw [runStore] at hrun
    rcases hstep : s₀.execStore c with p | s₁ <;> rw [hstep] at hrun
    · exact absurd hrun (by simp [Except.bind])
    · obtain ⟨db₀, x₀, hx₀⟩ := hs₀
      exact ih s₁ _ (execStore_rep hx₀ hstep) hrun

/-- One step of a run. -/
theorem RunInv.step {s s' : State} {g : Created} (h : RunInv s g) {c : StoreCmd}
    (hc : CreatesOnEmpty s c) (hrun : s.execStore c = .ok s') : RunInv s' (g.after c) := by
  cases c with
  | cmd c => exact h.cmd hc hrun
  | add_total_issued v =>
    obtain ⟨⟨x, hx, hcur, hsaved⟩, hcom⟩ := h
    obtain ⟨t, hx'⟩ := add_total_issued_spec hx hrun
    have hdb : s'.db = s.db := by
      obtain ⟨owner, hx'⟩ := hx'
      exact hx'.db_eq
    refine ⟨⟨⟨{ x.cur with total_issued_tokens := t }, x.saved⟩, ?_, hcur, hsaved⟩, ?_⟩
    · rw [hdb]
      exact hx'
    · rw [hdb]
      exact hcom
  | commit =>
    obtain ⟨⟨x, hx, hcur, hsaved⟩, -⟩ := h
    obtain ⟨hcs, -, hcache', hreads', hcs', hts', -⟩ := commit_inv hrun
    have hxs : x.saved = [] := by
      obtain ⟨owner, hx⟩ := hx
      rw [← hx.saved_eq, State.savedLedgers, hcs]
      rfl
    have hslots : Zeroed g.cur ⟨fun _ => none, 0, s'.db.slots⟩ := by
      intro a written ha
      obtain ⟨hne, hz⟩ := hcur a written ha
      refine ⟨hne, fun k hk => ⟨?_, rfl⟩⟩
      have hdb : s.db.slots a k = 0 := by
        obtain ⟨owner, hx⟩ := hx
        rw [← hx.stored_eq]
        exact (hz k hk).1
      exact slots_commit hx hrun hne hdb (hz k hk).2
    rw [hxs, List.forall₂_nil_right_iff] at hsaved
    refine ⟨⟨⟨_, []⟩, rep_of_empty hcache' hcs' hts' hreads', hslots.of_slots _, ?_⟩, hslots⟩
    rw [Created.after, hsaved]
    exact .nil
  | reopen =>
    obtain rfl := Except.ok.inj hrun
    exact ⟨⟨_, rep_new s.db, h.2.of_slots _, .nil⟩, h.2⟩

omit [HashOrder] in
theorem RunInv.startsEmpty {s : State} {g : Created} (h : RunInv s g) : StartsEmpty s g := by
  obtain ⟨⟨x, hx, hcur, -⟩, -⟩ := h
  intro a written ha k hk
  have hread := (storage_at_refines a k _ _).value_eq hx
  rw [hread]
  exact congrArg (fun v => Except.ok (Except.ok v)) ((hcur a written ha).2 k hk).2

/-- Over every run of state operations, checkpoints, commits and reopenings in which contracts are
    only created at addresses without stored slots: the slots of a created contract that were not
    written since read as zero, in the same state and after commits and reopenings. -/
theorem created_contracts_start_empty (db : StateDb) (cmds : List StoreCmd)
    (hcreate : StepsCreateOnEmpty cmds (State.new db)) (s : State) (g : Created)
    (hrun : runStore cmds (State.new db, Created.init) = .ok (s, g)) : StartsEmpty s g := by
  suffices h : ∀ (cmds : List StoreCmd) (s₀ : State) (g₀ : Created), RunInv s₀ g₀ →
      StepsCreateOnEmpty cmds s₀ → runStore cmds (s₀, g₀) = .ok (s, g) → RunInv s g from
    (h cmds _ _ (RunInv.new db) hcreate hrun).startsEmpty
  intro cmds
  induction cmds with
  | nil =>
    intro s₀ g₀ hinv _ hrun
    obtain ⟨rfl, rfl⟩ := Prod.mk.inj (Except.ok.inj hrun)
    exact hinv
  | cons c cmds ih =>
    intro s₀ g₀ hinv hsteps hrun
    rw [runStore] at hrun
    rcases hstep : s₀.execStore c with p | s₁ <;> rw [hstep] at hrun
    · exact absurd hrun (by simp [Except.bind])
    · exact ih s₁ _ (hinv.step hsteps.1 hstep) (hsteps.2 s₁ hstep) hrun

end

section
attribute [local instance] keccakOfEmpty HashOrder.asListed

/-- A contract is created, writes a slot and is committed; the state is reopened and the slot is
    still there. -/
theorem created_contracts_start_empty_committed :
    ∃ s g, runStore [.cmd (.op (.new_contract 7 0 1)), .cmd (.op (.set_storage 7 [1] 5)), .commit,
        .reopen] (State.new .empty, .init) = .ok (s, g) ∧
      g.cur 7 = some [[1]] ∧ StartsEmpty s g := by
  refine ⟨_, _, rfl, rfl, ?_⟩
  exact created_contracts_start_empty .empty [.cmd (.op (.new_contract 7 0 1)),
    .cmd (.op (.set_storage 7 [1] 5)), .commit, .reopen]
    ⟨⟨by decide, fun _ => rfl⟩, fun _ _ => ⟨trivial, fun _ _ => ⟨trivial, fun _ _ =>
      ⟨trivial, fun _ _ => trivial⟩⟩⟩⟩ _ _ rfl

/-- A contract at an ordinary address writes a slot and is committed; it is removed and that is
    committed; a new contract is created there and committed. Reopened, the new contract shows the
    slot of the old one. -/
theorem recreated_contract_shows_old_slot :
    ∃ s g, runStore [.cmd (.op (.new_contract (1 <<< 159) 0 1)),
        .cmd (.op (.set_storage (1 <<< 159) [1] 5)), .commit, .reopen,
        .cmd (.op (.remove_contract (1 <<< 159))), .commit, .reopen,
        .cmd (.op (.new_contract (1 <<< 159) 0 1)), .commit, .reopen]
        (State.new .empty, .init) = .ok (s, g) ∧
      g.cur (1 <<< 159) = some [] ∧ ¬StartsEmpty s g := by
  refine ⟨_, _, rfl, rfl, fun h => ?_⟩
  have hzero := h (1 <<< 159) [] rfl [1] (by simp)
  exact absurd (hzero.symm.trans (show _ = Except.ok (Except.ok 5) from rfl)) (by decide)

end

end CfxEvm
