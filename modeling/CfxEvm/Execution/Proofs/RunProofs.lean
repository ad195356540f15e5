import CfxEvm.Execution.Proofs.TransactProofs
import CfxEvm.Execution.Runs
import CfxEvm.Frame.Proofs.SiteProofs

/-!
# Proofs: the frames of a transaction

What is known along the run of the top frame of a transaction is known when it is settled.
-/

open Lib Lib.Prog

namespace CfxEvm

variable [Keccak] [HashOrder] {g : Globals} {tx : Transaction} {options : TransactOptions}
  {db : StateDb} {saved : List Ledger} {w w₁ w' : Ledger} {t t₁ t' : TxState} {substate : Substate}
  {observer : MultiObservers} {base : ℕ} {frame : CallCreateFrame} {s : FrameStack}
  {r : Except VmError FrameReturn} {outcome : ExecutionOutcome}

namespace TXExecutor

section
omit [HashOrder]

/-- What the sender has left pays for the value. -/
theorem Prechecked.funds
    (h : Prechecked g tx options w (.Pass frame substate observer base) w₁) :
    tx.value.toNat ≤ w₁.balances tx.sender := by
  cases h with
  | @pass frame mode base cost _ hcash hcost =>
    rw [Ledger.charged, Ledger.balances_setAccount, Function.update_self]
    have hbalance := w.balance_accountOrNew tx.sender g.spec.account_start_nonce
    rw [BitVec.toNat_sub_of_le (BitVec.le_def.mpr (by omega))]
    omega

/-- The top frame is asked for as any other. -/
theorem Prechecked.entersAs
    (h : Prechecked g tx options w (.Pass frame substate observer base) w₁) {S : Sites}
    {I : FrameStack → Prop} (hS : S.Lawful g I) (hw : S.holds w₁) : S.EntersAs g w₁ frame := by
  have hfunds := h.funds
  cases h with
  | @pass frame mode base cost hnonce hcash hcost hbase hbump hframe =>
    cases hframe with
    | create => exact .create 0 false ⟨rfl, fun _ _ h => (nomatch h), ⟨_, rfl, hfunds⟩, rfl⟩
    | @call address code_hash haction hhash =>
      refine .call (a := 0) 0 false ⟨fun _ => rfl, fun hw _ _ hh hc => ?_, .inl rfl, ?_, _, rfl⟩
        fun _ c hc => hS.found hw hc
      · exact hw.hashed (hhash.symm.trans hh) hc
      rintro _ ⟨⟩
      exact hfunds

theorem Prechecked.substate_eq
    (h : Prechecked g tx options w (.Pass frame substate observer base) w₁) :
    ∃ mode, substate = Substate.new.set_touched mode := by
  cases h with
  | pass => exact ⟨_, rfl⟩

/-- The frame of a transaction begins with an empty substate. -/
theorem Prechecked.frame_substate
    (h : Prechecked g tx options w (.Pass frame substate observer base) w₁) :
    frame.substate = .new := by
  cases h with
  | @pass frame mode base cost hnonce hcash hcost hbase hbump hframe => cases hframe <;> rfl

end

/-- What is known along the run of the top frame is known when the transaction is settled. -/
theorem FramesRun.followed {α : Type} {C : Course α} {I : FrameStack → Prop}
    {saved : List α} {a₀ : α}
    (h : FramesRun g t₁ substate observer base frame s r) (hC : C.Kept g I)
    (hI : ∀ s₁, Rounds (FrameStack.step g)
      (.new t₁.state t₁.shared_cache substate observer base frame) s₁ → I s₁)
    (hstands : C.stands saved ⟨t₁.state, .new, .new, observer, t₁.shared_cache⟩ a₀)
    (henter : C.entering frame a₀) :
    s.tx_substate = substate ∧ ∃ a, C.stands saved s.host a ∧ C.grows a₀ a ∧
      (frame_applied r = false → a = a₀ ∧ returnedSubstate r = none) ∧
      ∀ t, returnedSubstate r = some t → C.handed t := by
  have hstart : C.Follows saved a₀ [] substate
      (.new t₁.state t₁.shared_cache substate observer base frame) :=
    Course.follows_enter
      (s := .new t₁.state t₁.shared_cache substate observer base frame) rfl hstands henter
  have hend := hstart.inside hC
    (fun s₁ hs₁ => hI s₁ (Relation.ReflTransGen.mono (fun _ _ hnext => hnext.2) _ _ hs₁))
    (inside_of_rounds h.rounds)
  obtain ⟨T, vs, a, hby⟩ := hend
  exact ⟨hby.tx_substate, Course.Follows.returned ⟨T, vs, a, hby⟩ (by rw [h.stack]) h.phase⟩

/-- Where code runs as the sites allow, the frames of a transaction have the effect. -/
theorem FramesRun.effect {S : Sites} {I : FrameStack → Prop}
    (h : FramesRun g t₁ substate observer base frame s r) (hS : S.Lawful g I)
    (hpre : Prechecked g tx options w (.Pass frame substate observer base) w₁)
    (hrep : Rep db saved t₁.state w₁) (hw : S.holds w₁)
    (hI : ∀ s₁, Rounds (FrameStack.step g)
      (.new t₁.state t₁.shared_cache substate observer base frame) s₁ → I s₁) :
    ∃ w₂, Rep db saved s.host.state w₂ ∧ S.effect.ledger w₁ w₂ ∧
      (frame_applied r = false → w₂ = w₁) ∧
      S.effect.substate (s.process_return r).substate := by
  have hnew : S.effect.substate frame.substate := hpre.frame_substate ▸ S.effect.new
  obtain ⟨htx, w₂, hrep₂, hgrows, hunapplied, hhanded⟩ := h.followed (hS.kept db) hI hrep
    ⟨hw, hnew, hpre.entersAs hS hw⟩
  refine ⟨w₂, hrep₂, hgrows, fun hr => (hunapplied hr).1, Effect.accrue_substate ?_ hhanded⟩
  obtain ⟨mode, rfl⟩ := hpre.substate_eq
  rw [htx]
  exact S.effect.touched mode S.effect.new

/-- Whatever the frames do, they close their checkpoints; what is not applied leaves the ledger. -/
theorem FramesRun.rep (h : FramesRun g t₁ substate observer base frame s r)
    (hrep : Rep db saved t₁.state w₁) :
    ∃ w₂, Rep db saved s.host.state w₂ ∧ s.tx_substate = substate ∧
      (frame_applied r = false → w₂ = w₁ ∧ returnedSubstate r = none) := by
  have hstart : Tracks Effect.any db saved w₁ [] substate
      (.new t₁.state t₁.shared_cache substate observer base frame) :=
    tracks_enter (s := .new t₁.state t₁.shared_cache substate observer base frame) rfl hrep trivial
  have hend := hstart.inside (fun s₁ _ => permits_any s₁) (inside_of_rounds h.rounds)
  obtain ⟨-, htx, -, hnone, w₂, hrep₂, -, hw₂⟩ := hend.returned (by rw [h.stack]) h.phase
  exact ⟨w₂, hrep₂, htx, fun hr => ⟨hw₂ hr, hnone hr⟩⟩

/-- A transaction leaves the open checkpoints as they are. -/
theorem transact_rep {fuel : ℕ} (hrep : Rep db saved t.state w)
    (hrun : (transact g tx fuel options).run t = .ok (.ok (some outcome), t')) :
    ∃ w', Rep db saved t'.state w' := by
  rcases transact_inv hrep hrun with ⟨w', -, -, hrep'⟩ |
    ⟨frame, substate, observer, base, w₁, t₁, s, r, -, -, hrep₁, hexec⟩
  · exact ⟨w', hrep'⟩
  · obtain ⟨w₂, hrep₂, -⟩ := hexec.rep hrep₁
    obtain ⟨-, -, -, w', hrep', -⟩ := hexec.settled hrep₂
    exact ⟨w', hrep'⟩

end TXExecutor

end CfxEvm
