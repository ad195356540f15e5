import CfxEvm.Lib.Transfer
import CfxEvm.State.Proofs.OpsProofs
import CfxEvm.State.Substate

/-!
# Proofs: moving balances

What the operations on balances do to the ledger. An account is debited only if it exists and has
enough; it is credited with a new account if there is none. Modes that force the creation of
accounts are left out: a specification that forbids empty accounts has none of them.
-/

open Lib Lib.Prog

namespace CfxEvm

/-- Accounts are never created by force under the constants of `genesis_spec`. -/
theorem cleanup_mode_ne {spec : Spec} (hspec : spec.GenesisConstants) (t : Substate) :
    cleanup_mode t spec ≠ .ForceCreate := by
  have hdust : spec.kill_dust = .Off := congrArg Spec.kill_dust hspec
  have hempty : spec.no_empty = true := congrArg Spec.no_empty hspec
  have hkill : spec.kill_empty = true := congrArg Spec.kill_empty hspec
  simp [cleanup_mode, hdust, hempty, hkill]

variable [Keccak] {w w₁ w' : Ledger} {a b : Address} {v nonce : U256}

namespace Ledger

section
omit [Keccak]

@[simp] theorem setAccount_same (a : Address) (u : AccountView) (w : Ledger) :
    (w.setAccount a u).accounts a = some u := by
  simp [setAccount]

theorem setAccount_of_ne {a b : Address} (h : b ≠ a) (u : AccountView) (w : Ledger) :
    (w.setAccount a u).accounts b = w.accounts b := by
  simp [setAccount, h]

@[simp] theorem setAccount_total (a : Address) (u : AccountView) (w : Ledger) :
    (w.setAccount a u).total_issued_tokens = w.total_issued_tokens := rfl

@[simp] theorem setAccount_stored (a : Address) (u : AccountView) (w : Ledger) :
    (w.setAccount a u).stored = w.stored := rfl

end

/-- `v` is taken from the balance of `a`. -/
def Debited (a : Address) (v : U256) (w w' : Ledger) : Prop :=
  if v = 0 then w' = w else ∃ u, w.accounts a = some u ∧ v.toNat ≤ u.balance.toNat ∧
    w' = w.setAccount a { u with balance := u.balance - v }

/-- The account that is credited: a new one with the given nonce if there is none. -/
def accountOrNew (w : Ledger) (a : Address) (nonce : U256) : AccountView :=
  (w.accounts a).getD (.basic 0 nonce (w.stored a))

/-- `v` is added to the balance of `a`. -/
def Credited (a : Address) (v nonce : U256) (w w' : Ledger) : Prop :=
  if v = 0 then w' = w else (w.accountOrNew a nonce).balance.toNat + v.toNat < 2 ^ 256 ∧
    w' = w.setAccount a { w.accountOrNew a nonce with
      balance := (w.accountOrNew a nonce).balance + v }

/-- `v` is moved from `a` to `b`. -/
def Moved (a b : Address) (v nonce : U256) (w w' : Ledger) : Prop :=
  ∃ w₁, Debited a v w w₁ ∧ Credited b v nonce w₁ w'

section
omit [Keccak]

theorem track_touched_mode {mode : CleanupMode} (h : mode ≠ .ForceCreate) (a : Address)
    (touched : Bool) : State.track_touched mode a touched ≠ .ForceCreate := by
  cases mode with
  | ForceCreate => exact absurd rfl h
  | NoEmpty => exact h
  | TrackTouched set => cases touched <;> simp [State.track_touched]

/-- What `sub_balance` does first: it takes the amount from the account, if there is something to
    take. -/
theorem wp_debit (a : Address) (v : U256) (w : Ledger) :
    wp (Prog.when (v != 0) (modify_existing a (AccountView.sub_balance v))) (fun _ => True)
      (fun r w' => (r = .ok () → Debited a v w w') ∧
        ∀ e, r = .error e → w' = w ∧ v ≠ 0 ∧ w.accounts a = none) w := by
  refine wp_when (fun hv => ?_) fun hv => ?_
  · have hne : v ≠ 0 := by simpa using hv
    refine wp_bind.mpr (wp_gets.mpr ?_)
    rcases hacc : w.accounts a with _ | u
    · exact ⟨by rintro ⟨⟩, fun _ _ => ⟨rfl, hne, rfl⟩⟩
    · simp only [AccountView.sub_balance, U256.checked_sub]
      by_cases hle : v.toNat ≤ u.balance.toNat
      · simp only [hle, if_true]
        exact wp_update.mpr ⟨fun _ => (if_neg hne).mpr ⟨u, hacc, hle, rfl⟩, by rintro _ ⟨⟩⟩
      · simp only [hle, if_false]
        trivial
  · exact ⟨fun _ => (if_pos (by simpa using hv)).mpr rfl, by rintro _ ⟨⟩⟩

theorem sub_balance_spec {mode : CleanupMode} (hmode : mode ≠ .ForceCreate) (a : Address)
    (v : U256) (w : Ledger) :
    wp (sub_balance a v mode) (fun _ => True) (fun r w' =>
      (∀ mode', r = .ok mode' → mode' ≠ .ForceCreate ∧ Debited a v w w') ∧
      (∀ e, r = .error e → w' = w)) w := by
  refine wp_seq (fun _ w' => Debited a v w w') (wp_post (wp_debit a v w) ?_) fun _ w' hw' => ?_
  · rintro (e | _) w' ⟨hok, herr⟩
    · exact ⟨by rintro _ ⟨⟩, fun _ _ => (herr e rfl).1⟩
    · exact hok rfl
  · cases mode with
    | ForceCreate => exact absurd rfl hmode
    | NoEmpty => exact ⟨by rintro _ ⟨⟩; exact ⟨hmode, hw'⟩, by rintro _ ⟨⟩⟩
    | TrackTouched set =>
      refine wp_bind.mpr (wp_gets.mpr ⟨?_, by rintro _ ⟨⟩⟩)
      rintro _ ⟨⟩
      exact ⟨track_touched_mode hmode a _, hw'⟩

end

theorem add_balance_spec {mode : CleanupMode} (hmode : mode ≠ .ForceCreate) (a : Address)
    (v nonce : U256) (w : Ledger) :
    wp (add_balance a v mode nonce) (fun _ => True) (fun r w' =>
      ∃ mode', r = .ok mode' ∧ mode' ≠ .ForceCreate ∧ Credited a v nonce w w') w := by
  have hforce : (mode == .ForceCreate) = false := by simpa using hmode
  refine wp_bind.mpr (wp_gets.mpr (wp_bind.mpr (wp_when (fun hv => ?_) fun hv => ?_)))
  · refine wp_bind.mpr (wp_gets.mpr ?_)
    show wp (write_account a ((w.accountOrNew a nonce).add_balance v)) _ _ w
    simp only [AccountView.add_balance, U256.checked_add]
    by_cases hlt : (w.accountOrNew a nonce).balance.toNat + v.toNat < 2 ^ 256
    · simp only [hlt, if_true]
      have hne : v ≠ 0 := by simpa [hforce] using hv
      exact wp_update.mpr
        ⟨_, rfl, track_touched_mode hmode a _, (if_neg hne).mpr ⟨hlt, rfl⟩⟩
    · simp only [hlt, if_false]
      trivial
  · have hzero : v = 0 := by simpa [hforce] using hv
    exact ⟨_, rfl, track_touched_mode hmode a _, (if_pos hzero).mpr rfl⟩

theorem transfer_balance_spec {mode : CleanupMode} (hmode : mode ≠ .ForceCreate) (a b : Address)
    (v nonce : U256) (w : Ledger) :
    wp (transfer_balance a b v mode nonce) (fun _ => True) (fun r w' =>
      (∀ mode', r = .ok mode' → Moved a b v nonce w w') ∧ (∀ e, r = .error e → w' = w)) w := by
  refine wp_bind.mpr (wp_post (sub_balance_spec hmode a v w) ?_)
  rintro (e | mode₁) w₁ ⟨hok, herr⟩
  · exact ⟨by rintro _ ⟨⟩, fun _ _ => herr e rfl⟩
  · obtain ⟨hmode₁, hdebited⟩ := hok mode₁ rfl
    refine wp_post (add_balance_spec hmode₁ b v nonce w₁) ?_
    rintro r w' ⟨mode', rfl, -, hcredited⟩
    exact ⟨fun _ _ => ⟨w₁, hdebited, hcredited⟩, by rintro _ ⟨⟩⟩

/-- Moving nothing changes nothing. -/
theorem Moved.zero (h : Moved a b 0 nonce w w') : w' = w := by
  obtain ⟨w₁, hdebited, hcredited⟩ := h
  rw [Debited, if_pos rfl] at hdebited
  rw [Credited, if_pos rfl] at hcredited
  exact hcredited.trans hdebited

/-- Moving a value from an address to itself changes nothing. -/
theorem Moved.self (h : Moved a a v nonce w w') : w' = w := by
  by_cases hv : v = 0
  · subst hv
    exact h.zero
  obtain ⟨w₁, hdebited, hcredited⟩ := h
  rw [Debited, if_neg hv] at hdebited
  obtain ⟨u, hu, hle, rfl⟩ := hdebited
  rw [Credited, if_neg hv] at hcredited
  obtain ⟨-, rfl⟩ := hcredited
  simp only [accountOrNew, setAccount_same, Option.getD_some, setAccount_setAccount,
    BitVec.sub_add_cancel]
  exact setAccount_self hu

end Ledger

/-! ## Balances -/

instance : Finite Address :=
  .of_injective (fun a : Address => a.toFin) fun _ _ h => BitVec.eq_of_toFin_eq h

noncomputable instance : Fintype Address := .ofFinite Address

/-- What every address holds. -/
def Ledger.balances (w : Ledger) (a : Address) : ℕ := (w.balanceOf a).toNat

/-- What all addresses hold together. -/
noncomputable def Ledger.totalBalance (w : Ledger) : ℕ := ∑ a, w.balances a

/-- What the state reads as the balance of every address. -/
def State.balances (s : State) (a : Address) : ℕ :=
  match (State.balance a).value s with
  | .ok (.ok balance) => balance.toNat
  | _ => 0

/-- The sum of the balances that the state reads. -/
noncomputable def State.totalBalance (s : State) : ℕ := ∑ a, s.balances a

theorem State.balances_eq {db : StateDb} {saved : List Ledger} {s : State} (h : Rep db saved s w) :
    s.balances = w.balances := by
  funext a
  unfold State.balances
  rw [(balance_refines a db saved).value_eq h]
  rfl

theorem State.totalBalance_eq {db : StateDb} {saved : List Ledger} {s : State}
    (h : Rep db saved s w) : s.totalBalance = w.totalBalance := by
  unfold State.totalBalance
  rw [State.balances_eq h]
  rfl

section
omit [Keccak]

theorem Ledger.balances_setAccount (w : Ledger) (a : Address) (u : AccountView) :
    (w.setAccount a u).balances = Function.update w.balances a u.balance.toNat := by
  funext c
  by_cases hc : c = a
  · subst hc
    simp [Ledger.balances, Ledger.balanceOf]
  · simp [Ledger.balances, Ledger.balanceOf, Ledger.setAccount_of_ne hc, hc]

theorem Ledger.balances_of_account {u : AccountView} (h : w.accounts a = some u) :
    w.balances a = u.balance.toNat := by
  simp [Ledger.balances, Ledger.balanceOf, h]

/-- An account that is written with the balance it has. -/
theorem Ledger.balances_setAccount_self {u : AccountView} (h : u.balance.toNat = w.balances a) :
    (w.setAccount a u).balances = w.balances := by
  rw [balances_setAccount, h, Function.update_eq_self]

end

theorem Ledger.balance_accountOrNew (w : Ledger) (a : Address) (nonce : U256) :
    (w.accountOrNew a nonce).balance.toNat = w.balances a := by
  unfold accountOrNew balances balanceOf
  cases w.accounts a <;> rfl

omit [Keccak] in
theorem Ledger.Debited.balances (h : Debited a v w w') :
    v.toNat ≤ w.balances a ∧
      w'.balances = Function.update w.balances a (w.balances a - v.toNat) := by
  unfold Debited at h
  split at h
  · rename_i hv
    subst hv h
    simp
  · obtain ⟨u, hu, hle, rfl⟩ := h
    rw [balances_of_account hu, balances_setAccount]
    exact ⟨hle, by rw [BitVec.toNat_sub_of_le (BitVec.le_def.mpr hle)]⟩

theorem Ledger.Credited.balances (h : Credited a v nonce w w') :
    w'.balances = Function.update w.balances a (w.balances a + v.toNat) := by
  unfold Credited at h
  split at h
  · rename_i hv
    subst hv h
    simp
  · obtain ⟨hlt, rfl⟩ := h
    rw [balances_setAccount, ← balance_accountOrNew w a nonce, BitVec.toNat_add,
      Nat.mod_eq_of_lt hlt]

/-- Moving a value is a transfer. -/
theorem Ledger.Moved.transfer (h : Moved a b v nonce w w') : Transfer w.balances w'.balances := by
  obtain ⟨w₁, hdebited, hcredited⟩ := h
  obtain ⟨hle, h₁⟩ := hdebited.balances
  refine ⟨a, b, v.toNat, hle, ?_⟩
  rw [hcredited.balances, h₁]
  rfl

/-! ## Whatever the mode -/

namespace Ledger

/-- `v` arrives at `a`; an account may come into being even if `v` is zero. -/
def Received (a : Address) (v nonce : U256) (w w' : Ledger) : Prop :=
  (v = 0 ∧ w' = w) ∨ ((w.accountOrNew a nonce).balance.toNat + v.toNat < 2 ^ 256 ∧
    w' = w.setAccount a { w.accountOrNew a nonce with
      balance := (w.accountOrNew a nonce).balance + v })

/-- `v` goes from `a` to `b`. -/
def Sent (a b : Address) (v nonce : U256) (w w' : Ledger) : Prop :=
  ∃ w₁, Debited a v w w₁ ∧ Received b v nonce w₁ w'

omit [Keccak] in
/-- A debit fails only if there is no account that could be debited. -/
theorem sub_balance_debits (a : Address) (v : U256) (mode : CleanupMode) (w : Ledger) :
    wp (sub_balance a v mode) (fun _ => True) (fun r w' =>
      (∀ mode', r = .ok mode' → Debited a v w w') ∧
      (∀ e, r = .error e → w' = w ∧ v ≠ 0 ∧ w.accounts a = none)) w := by
  refine wp_seq (fun _ w' => Debited a v w w') (wp_post (wp_debit a v w) ?_) fun _ w' hw' => ?_
  · rintro (e | _) w' ⟨hok, herr⟩
    · exact ⟨by rintro _ ⟨⟩, fun _ _ => herr e rfl⟩
    · exact hok rfl
  · have hok : ∀ mode' : CleanupMode, (∀ m, (.ok mode' : Except DbError CleanupMode) = .ok m →
        Debited a v w w') ∧ ∀ e, (.ok mode' : Except DbError CleanupMode) = .error e →
          w' = w ∧ v ≠ 0 ∧ w.accounts a = none :=
      fun _ => ⟨fun _ _ => hw', by rintro _ ⟨⟩⟩
    cases mode with
    | ForceCreate => exact hok _
    | NoEmpty => exact hok _
    | TrackTouched set => exact wp_bind.mpr (wp_gets.mpr (hok _))

theorem add_balance_received (a : Address) (v nonce : U256) (mode : CleanupMode) (w : Ledger) :
    wp (add_balance a v mode nonce) (fun _ => True) (fun r w' =>
      ∃ mode', r = .ok mode' ∧ Received a v nonce w w') w := by
  refine wp_bind.mpr (wp_gets.mpr (wp_bind.mpr (wp_when (fun _ => ?_) fun hv => ?_)))
  · refine wp_bind.mpr (wp_gets.mpr ?_)
    show wp (write_account a ((w.accountOrNew a nonce).add_balance v)) _ _ w
    simp only [AccountView.add_balance, U256.checked_add]
    by_cases hlt : (w.accountOrNew a nonce).balance.toNat + v.toNat < 2 ^ 256
    · simp only [hlt, if_true]
      exact wp_update.mpr ⟨_, rfl, .inr ⟨hlt, rfl⟩⟩
    · simp only [hlt, if_false]
      trivial
  · have hzero : v = 0 := by
      rw [Bool.or_eq_false_iff] at hv
      simpa using hv.1
    exact ⟨_, rfl, .inl ⟨hzero, rfl⟩⟩

theorem transfer_balance_sent (a b : Address) (v nonce : U256) (mode : CleanupMode) (w : Ledger) :
    wp (transfer_balance a b v mode nonce) (fun _ => True) (fun r w' =>
      (∀ mode', r = .ok mode' → Sent a b v nonce w w') ∧
      (∀ e, r = .error e → w' = w ∧ v ≠ 0 ∧ w.accounts a = none)) w := by
  refine wp_bind.mpr (wp_post (sub_balance_debits a v mode w) ?_)
  rintro (e | mode₁) w₁ ⟨hok, herr⟩
  · exact ⟨by rintro _ ⟨⟩, fun _ _ => herr e rfl⟩
  · refine wp_post (add_balance_received b v nonce mode₁ w₁) ?_
    rintro r w' ⟨mode', rfl, hreceived⟩
    exact ⟨fun _ _ => ⟨w₁, hok mode₁ rfl, hreceived⟩, by rintro _ ⟨⟩⟩

/-- Counting the nonce up makes an account if there is none. -/
theorem inc_nonce_spec (a : Address) (nonce : U256) (w : Ledger) :
    wp (inc_nonce a nonce) (fun _ => True) (fun r w' => r = .ok () ∧
      (w.accountOrNew a nonce).nonce.toNat + 1 < 2 ^ 256 ∧
      w' = w.setAccount a { w.accountOrNew a nonce with
        nonce := (w.accountOrNew a nonce).nonce + 1 }) w := by
  refine wp_bind.mpr (wp_gets.mpr ?_)
  show wp (write_account a (w.accountOrNew a nonce).inc_nonce) _ _ w
  simp only [AccountView.inc_nonce, U256.checked_add]
  by_cases hlt : (w.accountOrNew a nonce).nonce.toNat + (1 : U256).toNat < 2 ^ 256
  · simp only [hlt, if_true]
    exact ⟨rfl, hlt, rfl⟩
  · simp only [hlt, if_false]
    trivial

/-- Counting a nonce up leaves the balances alone. -/
theorem balances_bump (w : Ledger) (a : Address) (nonce n : U256) :
    (w.setAccount a { w.accountOrNew a nonce with nonce := n }).balances = w.balances :=
  balances_setAccount_self (w.balance_accountOrNew a nonce)

theorem Received.balances (h : Received a v nonce w w') :
    w'.balances = Function.update w.balances a (w.balances a + v.toNat) := by
  rcases h with ⟨rfl, rfl⟩ | ⟨hlt, rfl⟩
  · simp
  · rw [balances_setAccount, ← balance_accountOrNew w a nonce, BitVec.toNat_add,
      Nat.mod_eq_of_lt hlt]

/-- Sending a value is a transfer. -/
theorem Sent.balances (h : Sent a b v nonce w w') :
    v.toNat ≤ w.balances a ∧ w'.balances = move w.balances a b v.toNat := by
  obtain ⟨w₁, hdebited, hreceived⟩ := h
  obtain ⟨hle, h₁⟩ := hdebited.balances
  refine ⟨hle, ?_⟩
  rw [hreceived.balances, h₁]
  rfl

end Ledger

/-! ## Without a panic -/

omit [Keccak] in
theorem Ledger.sub_balance_returns {a : Address} {v : U256} (h : v.toNat ≤ w.balances a)
    (mode : CleanupMode) :
    wp (Ledger.sub_balance a v mode) (fun _ => False) (fun _ _ => True) w := by
  refine wp_bind.mpr (wp_post (Q := fun _ _ => True) ?_ ?_)
  · refine wp_when (fun _ => wp_bind.mpr (wp_gets.mpr ?_)) fun _ => trivial
    rcases hu : w.accounts a with _ | u
    · trivial
    · rw [Ledger.balances_of_account hu] at h
      have hsome : ∃ balance, U256.checked_sub u.balance v = some balance := by
        rcases hsub : U256.checked_sub u.balance v with _ | balance
        · exact absurd (U256.checked_sub_eq_none.mp hsub) (not_lt.mpr h)
        · exact ⟨balance, rfl⟩
      obtain ⟨balance, hsub⟩ := hsome
      simp only [AccountView.sub_balance, hsub]
      trivial
  · rintro (e | _) w' -
    · trivial
    · cases mode <;> trivial

theorem Ledger.add_balance_returns {a : Address} {v : U256}
    (h : w.balances a + v.toNat < 2 ^ 256) (mode : CleanupMode) (nonce : U256) :
    wp (Ledger.add_balance a v mode nonce) (fun _ => False) (fun _ _ => True) w := by
  refine wp_bind.mpr (wp_gets.mpr (wp_bind.mpr (wp_post (Q := fun _ _ => True) ?_ ?_)))
  · refine wp_when (fun _ => wp_bind.mpr (wp_gets.mpr ?_)) fun _ => trivial
    have hbalance := w.balance_accountOrNew a nonce
    unfold Ledger.accountOrNew at hbalance
    have hsome : ∃ balance, U256.checked_add
        ((w.accounts a).getD (.basic 0 nonce (w.stored a))).balance v = some balance := by
      rcases hadd : U256.checked_add _ v with _ | balance
      · have := U256.checked_add_eq_none.mp hadd
        omega
      · exact ⟨balance, rfl⟩
    obtain ⟨balance, hadd⟩ := hsome
    simp only [AccountView.add_balance, hadd]
    trivial
  · rintro (e | _) w' -
    · trivial
    · trivial

/-- A transfer between two accounts that have the room for it does not panic. -/
theorem Ledger.transfer_balance_returns {mode : CleanupMode} (hmode : mode ≠ .ForceCreate)
    (hle : v.toNat ≤ w.balances a) (hlt : a ≠ b → w.balances b + v.toNat < 2 ^ 256) (nonce : U256) :
    wp (Ledger.transfer_balance a b v mode nonce) (fun _ => False) (fun _ _ => True) w := by
  refine wp_bind.mpr (wp_post (wp_and (Ledger.sub_balance_returns hle mode)
    (Ledger.sub_balance_spec hmode a v w)) ?_)
  rintro (e | mode') w₁ ⟨-, hok, -⟩
  · trivial
  obtain ⟨-, hdebited⟩ := hok mode' rfl
  refine Ledger.add_balance_returns ?_ mode' nonce
  rw [hdebited.balances.2]
  by_cases hab : b = a
  · subst hab
    have hbound : w.balances b < 2 ^ 256 := (w.balanceOf b).isLt
    rw [Function.update_self]
    omega
  · rw [Function.update_of_ne hab]
    exact hlt (Ne.symm hab)

end CfxEvm
