import CfxEvm.State.Proofs.CreationProofs

/-!
# Proofs: properties that all accounts keep

A property of single accounts that survives each way in which the operations make or change an
account holds of all accounts after every operation. The creation and the removal of contracts are
kept apart: what they ask of the property is stated for one address.
-/

open Lib Lib.Prog

namespace CfxEvm

variable [Keccak] {stored : Address → Bytes → U256} {P : Address → AccountView → Prop}

/-- The property survives the changes of an account, and holds of accounts that come into being
    without code. -/
structure Lasting (stored : Address → Bytes → U256) (P : Address → AccountView → Prop) : Prop where
  basic : ∀ a nonce, P a (.basic 0 nonce (stored a))
  balance : ∀ {a v} balance, P a v → P a { v with balance := balance }
  nonce : ∀ {a v} nonce, P a v → P a { v with nonce := nonce }
  storage : ∀ {a v} storage, P a v → P a { v with storage := storage }
  init_code : ∀ {a v} code, P a v → P a (v.init_code code)

/-- Every account has the property, over the stored slots given. -/
structure Ledger.All (stored : Address → Bytes → U256) (P : Address → AccountView → Prop)
    (w : Ledger) : Prop where
  stored_eq : w.stored = stored
  holds : ∀ a v, w.accounts a = some v → P a v

/-- No account ceases to exist, and if every account has the property before, then also after. -/
structure Ledger.Lasts (stored : Address → Bytes → U256) (P : Address → AccountView → Prop)
    (w w' : Ledger) : Prop where
  grows : ∀ a, w'.accounts a = none → w.accounts a = none
  all : w.All stored P → w'.All stored P

instance : IsPreorder Ledger (Ledger.Lasts stored P) where
  refl _ := ⟨fun _ h => h, fun h => h⟩
  trans _ _ _ h h' := ⟨fun a ha => h.grows a (h'.grows a ha), fun hw => h'.all (h.all hw)⟩

section
omit [Keccak]

theorem Ledger.All.setAccount {w : Ledger} (h : w.All stored P) {a : Address} {v : AccountView}
    (hv : P a v) : (w.setAccount a v).All stored P where
  stored_eq := h.stored_eq
  holds b u hu := by
    by_cases hb : b = a
    · subst hb
      simp only [Ledger.setAccount, Function.update_self, Option.some_inj] at hu
      exact hu ▸ hv
    · simp only [Ledger.setAccount, Function.update_of_ne hb] at hu
      exact h.holds b u hu

/-- Writing an account that has the property if all had it before. -/
theorem Ledger.Lasts.setAccount {w : Ledger} {a : Address} {v : AccountView}
    (hv : w.All stored P → P a v) : Ledger.Lasts stored P w (w.setAccount a v) where
  grows b hb := by
    by_cases hab : b = a
    · subst hab
      simp [Ledger.setAccount] at hb
    · simpa [Ledger.setAccount, hab] using hb
  all hw := hw.setAccount (hv hw)

theorem modify_existing_lasts {a : Address} {f : AccountView → Except Panic AccountView}
    (hf : ∀ v v', f v = .ok v' → P a v → P a v') :
    Keeps (Ledger.Lasts stored P) (Ledger.modify_existing a f) := by
  intro w
  refine wp_bind.mpr (wp_gets.mpr ?_)
  rcases hacc : w.accounts a with _ | v
  · exact refl_of (Ledger.Lasts stored P) w
  show wp (Ledger.write_account a (f v)) _ _ w
  unfold Ledger.write_account
  rcases hfv : f v with p | v'
  · trivial
  · refine .setAccount fun hw => ?_
    have hv : P a v := hw.holds a v hacc
    exact hf v v' hfv hv

end

theorem modify_or_new_lasts (hP : Lasting stored P) {a : Address} {nonce : U256}
    {f : AccountView → Except Panic AccountView} (hf : ∀ v v', f v = .ok v' → P a v → P a v') :
    Keeps (Ledger.Lasts stored P) (Ledger.modify_or_new a nonce f) := by
  intro w
  refine wp_bind.mpr (wp_gets.mpr ?_)
  show wp (Ledger.write_account a (f ((w.accounts a).getD (.basic 0 nonce (w.stored a))))) _ _ w
  unfold Ledger.write_account
  rcases hfv : f ((w.accounts a).getD (.basic 0 nonce (w.stored a))) with p | v'
  · trivial
  · refine .setAccount fun hw => ?_
    have hv : P a ((w.accounts a).getD (.basic 0 nonce (w.stored a))) := by
      rcases hacc : w.accounts a with _ | v
      · rw [Option.getD_none, hw.stored_eq]
        exact hP.basic a nonce
      · exact hw.holds a v hacc
    exact hf _ v' hfv hv

theorem account_with_code_lasts (a : Address) :
    Keeps (Ledger.Lasts stored P) (Ledger.account_with_code a) := by
  refine .bind (.gets _) fun o => ?_
  cases o with
  | none => exact .pure _
  | some v => exact .ite (fun _ => .fail _) fun _ => .pure _

namespace Lasting

variable (hP : Lasting stored P)
include hP

theorem of_inc_nonce (a : Address) (v v' : AccountView) (h : v.inc_nonce = .ok v') (hv : P a v) :
    P a v' := by
  unfold AccountView.inc_nonce at h
  split at h
  · exact Except.ok.inj h ▸ hP.nonce _ hv
  · cases h

theorem of_add_balance (a : Address) (x : U256) (v v' : AccountView) (h : v.add_balance x = .ok v')
    (hv : P a v) : P a v' := by
  unfold AccountView.add_balance at h
  split at h
  · exact Except.ok.inj h ▸ hP.balance _ hv
  · cases h

theorem of_sub_balance (a : Address) (x : U256) (v v' : AccountView) (h : v.sub_balance x = .ok v')
    (hv : P a v) : P a v' := by
  unfold AccountView.sub_balance at h
  split at h
  · exact Except.ok.inj h ▸ hP.balance _ hv
  · cases h

theorem keeps_inc_nonce (a : Address) (nonce : U256) :
    Keeps (Ledger.Lasts stored P) (Ledger.inc_nonce a nonce) :=
  modify_or_new_lasts hP (hP.of_inc_nonce a)

theorem keeps_set_nonce (a : Address) (nonce : U256) :
    Keeps (Ledger.Lasts stored P) (Ledger.set_nonce a nonce) := by
  refine modify_or_new_lasts hP fun v v' h hv => ?_
  exact Except.ok.inj h ▸ hP.nonce _ hv

theorem keeps_sub_balance (a : Address) (x : U256) (mode : CleanupMode) :
    Keeps (Ledger.Lasts stored P) (Ledger.sub_balance a x mode) := by
  refine .bind (.when fun _ => modify_existing_lasts (hP.of_sub_balance a x)) fun _ => ?_
  cases mode with
  | TrackTouched set => exact .bind (.gets _) fun _ => .pure _
  | ForceCreate => exact .pure _
  | NoEmpty => exact .pure _

theorem keeps_add_balance (a : Address) (x : U256) (mode : CleanupMode) (nonce : U256) :
    Keeps (Ledger.Lasts stored P) (Ledger.add_balance a x mode nonce) :=
  .bind (.gets _) fun _ =>
    .bind (.when fun _ => modify_or_new_lasts hP (hP.of_add_balance a x)) fun _ => .pure _

theorem keeps_transfer_balance (a b : Address) (x : U256) (mode : CleanupMode) (nonce : U256) :
    Keeps (Ledger.Lasts stored P) (Ledger.transfer_balance a b x mode nonce) :=
  .bind (hP.keeps_sub_balance a x mode) fun mode => hP.keeps_add_balance b x mode nonce

theorem keeps_init_code (a : Address) (code : Bytes) :
    Keeps (Ledger.Lasts stored P) (Ledger.init_code a code) := by
  refine modify_existing_lasts fun v v' h hv => ?_
  exact Except.ok.inj h ▸ hP.init_code code hv

theorem keeps_set_storage (a : Address) (key : Bytes) (value : U256) :
    Keeps (Ledger.Lasts stored P) (Ledger.set_storage a key value) := by
  refine .bind (.gets _) fun _ => .when fun _ => modify_existing_lasts fun v v' h hv => ?_
  exact Except.ok.inj h ▸ hP.storage _ hv

end Lasting

omit [Keccak] in
theorem subtract_total_issued_lasts (v : U256) :
    Keeps (Ledger.Lasts stored P) (Ledger.subtract_total_issued v) :=
  .update fun _ => ⟨fun _ h => h, fun hw => ⟨hw.stored_eq, hw.holds⟩⟩

/-- A contract is created with the property. -/
theorem new_contract_lasts {a : Address} (ha : ∀ balance nonce invalidated,
      P a (.contract a balance nonce invalidated (stored a))) (balance nonce : U256) :
    Keeps (Ledger.Lasts stored P) (Ledger.new_contract a balance nonce) := by
  refine .update fun w => .setAccount fun hw => ?_
  rw [hw.stored_eq]
  exact ha balance nonce _

theorem remove_contract_lasts {a : Address} (ha : P a .removed) :
    Keeps (Ledger.Lasts stored P) (Ledger.remove_contract a) :=
  .update fun _ => .setAccount fun _ => ha

/-- What an operation that creates or removes a contract asks of the property. -/
def StateOp.Allowed (stored : Address → Bytes → U256) (P : Address → AccountView → Prop) :
    StateOp → Prop
  | .new_contract a _ _ => ∀ balance nonce invalidated,
      P a (.contract a balance nonce invalidated (stored a))
  | .remove_contract a => P a .removed
  | _ => True

/-- Every operation keeps a lasting property. -/
theorem Lasting.onLedger (hP : Lasting stored P) {o : StateOp} (ho : o.Allowed stored P)
    {w w' : Ledger} (h : o.onLedger w = .ok w') : Ledger.Lasts stored P w w' := by
  cases o with
  | new_contract a b n => exact (new_contract_lasts ho b n).of_final h
  | init_code a c => exact (hP.keeps_init_code a c).of_final h
  | inc_nonce a n => exact (hP.keeps_inc_nonce a n).of_final h
  | set_nonce a n => exact (hP.keeps_set_nonce a n).of_final h
  | add_balance a x mode n => exact (hP.keeps_add_balance a x mode n).of_final h
  | sub_balance a x mode => exact (hP.keeps_sub_balance a x mode).of_final h
  | transfer_balance a b x mode n => exact (hP.keeps_transfer_balance a b x mode n).of_final h
  | set_storage a k v => exact (hP.keeps_set_storage a k v).of_final h
  | remove_contract a => exact (remove_contract_lasts ho).of_final h
  | clean_account a =>
    have hkeep : Keeps (Ledger.Lasts stored P) (Ledger.clean_account a) := by
      refine .update fun w => .setAccount fun hw => ?_
      rw [hw.stored_eq]
      exact hP.basic a 0
    exact hkeep.of_final h
  | subtract_total_issued v => exact (subtract_total_issued_lasts v).of_final h
  | balance a => exact Keeps.of_final (.gets _) h
  | nonce a => exact Keeps.of_final (.gets _) h
  | code_hash a => exact Keeps.of_final (.gets _) h
  | code a => exact Keeps.of_final (.bind (account_with_code_lasts a) fun _ => .pure _) h
  | code_size a => exact Keeps.of_final (.bind (account_with_code_lasts a) fun _ => .pure _) h
  | is_contract_with_code a => exact Keeps.of_final (.gets _) h
  | storage_at a k => exact Keeps.of_final (.gets _) h
  | «exists» a => exact Keeps.of_final (.gets _) h
  | exists_and_not_null a => exact Keeps.of_final (.gets _) h

end CfxEvm
