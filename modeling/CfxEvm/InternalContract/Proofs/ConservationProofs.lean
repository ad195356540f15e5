import CfxEvm.InternalContract.Proofs.DeployProofs
import CfxEvm.State.Proofs.BalanceProofs

/-!
# Proofs: tokens in the cross-space contract

The functions of the cross-space contract move balances and do nothing else to them. The one
exception is the deployment of the registry, which replaces the account at a fixed address by one
without a balance.
-/

open Lib Lib.Prog

namespace CfxEvm

/-! ## The effect -/

/-- Balances change by transfers alone. -/
def Effect.transfers : Effect where
  ledger w w' := Transfers w.balances w'.balances
  substate _ := True
  refl _ := .refl
  trans := .trans
  new := trivial
  accrue _ _ := trivial
  touched _ _ := trivial

section
variable [Keccak] {g : Globals} {ctx : FrameContext} {params : ActionParams} {input : Bytes}
  {f : SolidityFunction}

/-- Counting a nonce up leaves the balances alone. -/
theorem inc_nonce_balances (a : Address) (nonce : U256) (w : Ledger) :
    wp (Ledger.inc_nonce a nonce) (fun _ => True) (fun _ w' => w'.balances = w.balances) w := by
  refine wp_bind.mpr (wp_gets.mpr ?_)
  show wp (Ledger.write_account a (w.accountOrNew a nonce).inc_nonce) _ _ w
  unfold AccountView.inc_nonce
  cases U256.checked_add (w.accountOrNew a nonce).nonce 1 with
  | none => trivial
  | some n => exact Ledger.balances_setAccount_self (Ledger.balance_accountOrNew w a nonce)

theorem functions_transfers (hspec : g.spec.GenesisConstants) :
    Effect.transfers.AllowsFunctions g where
  transfer from_ to_ v t w := by
    refine wp_post (Ledger.transfer_balance_spec (cleanup_mode_ne hspec t) from_ to_ v _ w) ?_
    rintro (e | mode) w' ⟨hok, herr⟩
    · rw [herr e rfl]
      exact .refl
    · exact .single (hok mode rfl).transfer
  inc_nonce a w := by
    refine wp_post (inc_nonce_balances a _ w) fun r w' h => ?_
    show Transfers w.balances w'.balances
    rw [h]
  log _ _ := trivial

/-- Every function but the deployment moves balances only. -/
theorem exec_transfers (hspec : g.spec.GenesisConstants) (hasks : Asks g params f input)
    (hf : f ≠ .DeployEip1820) :
    Keeps Effect.transfers.On (InternalContract.exec g ctx .CrossSpaceCall params) := by
  refine .ite (fun _ => ?_) fun _ => .fail _
  unfold InternalContract.execute
  rw [hasks]
  exact (functions_transfers hspec).functionsKeep.execute ctx (fun h => absurd h hf) input params

/-! ## Calls of the cross-space contract -/

/-- When a call of the cross-space contract returns or traps, the sum of the balances is as before,
    and every balance is what transfers made of it. -/
def ConservesTokens (g : Globals) (ctx : FrameContext) (params : ActionParams) (h : Host State) :
    Prop :=
  ∀ r h', (InternalContract.exec g ctx .CrossSpaceCall params).run h = .ok (r, h') →
    h'.state.totalBalance = h.state.totalBalance ∧ Transfers h.state.balances h'.state.balances

omit [Keccak] in
/-- The deployment loses what the address of the registry held. -/
theorem totalBalance_of_update {w w' : Ledger} {a : Address}
    (h : w'.balanceOf = Function.update w.balanceOf a 0) :
    w'.totalBalance + w.balances a = w.totalBalance := by
  have hupdate : w'.balances = Function.update w.balances a 0 := by
    funext c
    by_cases hc : c = a
    · subst hc
      simp [Ledger.balances, h]
    · simp [Ledger.balances, h, hc]
  have hsum := sum_update_add w.balances a 0
  rw [← hupdate] at hsum
  unfold Ledger.totalBalance
  omega

variable [HashOrder]

/-- The functions of the cross-space contract neither mint nor lose tokens, unless the registry is
    deployed at an address that holds a balance. -/
theorem cross_space_conserves_iff (hspec : g.spec.GenesisConstants) {h : Host State}
    (hs : State.Reachable h.state) (hasks : Asks g params f input) :
    ConservesTokens g ctx params h ↔
      ¬(Deploys g params f h.state ∧ h.state.balances eip_1820.ADDRESS ≠ 0) := by
  obtain ⟨db, saved, w, hrep⟩ := hs.rep
  constructor
  · rintro hconserves ⟨hd, hne⟩
    have hdeploy : wp (InternalContract.exec g ctx .CrossSpaceCall params) _ _ h :=
      deploys_spec hrep hasks hd
    obtain ⟨r, h', hrun, -, w', hrep', hw'⟩ := exists_run_of_wp hdeploy
    have htotal := (hconserves r h' hrun).1
    rw [State.totalBalance_eq hrep, State.totalBalance_eq hrep'] at htotal
    rw [State.balances_eq hrep] at hne
    have hlost := totalBalance_of_update hw'
    omega
  · intro hnot r h' hrun
    suffices htransfers : Transfers h.state.balances h'.state.balances from
      ⟨htransfers.sum_eq, htransfers⟩
    rw [State.balances_eq hrep]
    by_cases hf : f = .DeployEip1820
    · subst hf
      by_cases hd : Deploys g params .DeployEip1820 h.state
      · obtain ⟨-, w', hrep', hw'⟩ := wp_of_run (deploys_spec hrep hasks hd) hrun
        have hzero : w.balanceOf eip_1820.ADDRESS = 0 := by
          rw [State.balances_eq hrep] at hnot
          exact BitVec.eq_of_toNat_eq (not_not.mp fun hne => hnot ⟨hd, hne⟩)
        rw [← hzero, Function.update_eq_self] at hw'
        rw [State.balances_eq hrep', show w'.balances = w.balances by
          funext a; simp only [Ledger.balances, hw']]
      · rw [State.balances_eq (wp_of_run (not_deploys_spec hrep hasks hd) hrun).2]
    · obtain ⟨w', hrep', hw'⟩ := ((exec_transfers hspec hasks hf).of_run hrun).state db saved w hrep
      rw [State.balances_eq hrep']
      exact hw'

end

section
attribute [local instance] keccakOfRegistry HashOrder.asListed

/-- The deployment in a frame that may write. -/
def deployFrame : FrameContext := { deployContext with static_flag := false }

/-- The registry is deployed at an address that nothing was sent to. -/
theorem deploy_on_empty_conserves :
    ConservesTokens crossSpaceMachine deployFrame deployCall (freshHost (.new .empty)) := by
  have hasks : Asks crossSpaceMachine deployCall .DeployEip1820 [] := rfl
  refine (cross_space_conserves_iff (by decide) ⟨.empty, [], _, rfl⟩ hasks).mpr ?_
  rintro ⟨-, hne⟩
  exact hne rfl

/-- Five tokens were sent to the address of the registry before. -/
def fundRegistry : List StoreCmd :=
  [.cmd (.op (.add_balance eip_1820.ADDRESS 5 .NoEmpty 0))]

/-- The deployment of the registry loses five tokens that were sent to its address before. -/
theorem deploy_loses_balance :
    ∃ s record, runStore fundRegistry (.new .empty, .init) = .ok (s, record) ∧
      s.balances eip_1820.ADDRESS = 5 ∧ Asks crossSpaceMachine deployCall .DeployEip1820 [] ∧
      (∃ r h', (InternalContract.exec crossSpaceMachine deployFrame .CrossSpaceCall deployCall).run
        (freshHost s) = .ok (.ok r, h') ∧ h'.state.totalBalance + 5 = s.totalBalance) ∧
      ¬ConservesTokens crossSpaceMachine deployFrame deployCall (freshHost s) := by
  obtain ⟨s, record, hrun, hbalance, hcode⟩ : ∃ s record,
      runStore fundRegistry (.new .empty, .init) = .ok (s, record) ∧
      s.balances eip_1820.ADDRESS = 5 ∧
      (State.is_contract_with_code eip_1820.ADDRESS).value s = .ok (.ok false) :=
    ⟨_, _, rfl, rfl, rfl⟩
  have hd : Deploys crossSpaceMachine deployCall .DeployEip1820 s :=
    ⟨rfl, rfl, rfl, by decide, hcode⟩
  obtain ⟨db, saved, w, hrep⟩ := State.Reachable.rep ⟨.empty, _, _, hrun⟩
  have hasks : Asks crossSpaceMachine deployCall .DeployEip1820 [] := rfl
  have hdeploy : wp (InternalContract.exec crossSpaceMachine deployFrame .CrossSpaceCall deployCall)
      _ _ (freshHost s) := deploys_spec hrep hasks hd
  obtain ⟨r, h', hexec, ⟨gas, data, rfl⟩, w', hrep', hw'⟩ := exists_run_of_wp hdeploy
  have hlost := totalBalance_of_update hw'
  rw [← State.balances_eq hrep, hbalance, ← State.totalBalance_eq hrep,
    ← State.totalBalance_eq hrep'] at hlost
  refine ⟨s, record, hrun, hbalance, rfl, ⟨_, h', hexec, hlost⟩, fun hconserves => ?_⟩
  have htotal : h'.state.totalBalance = s.totalBalance := (hconserves _ h' hexec).1
  omega

end

end CfxEvm
