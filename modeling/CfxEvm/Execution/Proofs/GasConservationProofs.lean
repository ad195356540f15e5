import CfxEvm.Execution.Executor
import CfxEvm.Frame.Proofs.TerminationProofs

/-!
# Proofs: gas of a transaction

The top frame is given the gas of the transaction less what the transaction costs before it runs,
and hands back at most that.
-/

open Lib Lib.Prog

namespace CfxEvm

section
variable [Keccak] {g : Globals} {tx : Transaction}

namespace TXExecutor

/-- The top frame is given at most the gas of the transaction. -/
theorem top_frame_gas (options : TransactOptions) :
    Yields (fun pre => ∀ frame substate observer base, pre = .Pass frame substate observer base →
        frame.status.gas ≤ tx.gas.toNat) (transact_preprocessing g tx options) := by
  refine .seq fun nonce => .ite (fun _ => .pure (by simp)) fun _ => .ite (fun _ => .pure (by simp))
    fun _ => .seq fun base_gas_required => .ite (fun _ => .seq fun _ => .pure (by simp))
      fun hbase =>
    .seq fun balance => .seq fun total_cost => .ite (fun _ => ?_) fun _ => ?_
  · exact .seq fun _ => .seq fun _ => .ite (fun _ => .pure (by simp)) fun _ => .seq fun _ =>
      .seq fun _ => .pure (by simp)
  · refine .seq fun _ => .seq fun _ => .seq fun _ => .bind
      (P := fun init_gas => init_gas.toNat ≤ tx.gas.toNat) (.expect fun init_gas hinit => ?_)
      fun init_gas hgas => .bind (P := fun frame => frame.status.gas ≤ tx.gas.toNat) ?_
      fun frame hframe => .pure ?_
    · have hsum := U256.checked_sub_eq_some.mp hinit
      omega
    · unfold top_frame
      cases tx.action with
      | Create => exact .pure hgas
      | Call address => exact .seq fun _ => .seq fun _ => .pure hgas
    · rintro _ _ _ _ ⟨⟩
      exact hframe

variable [HashOrder]

/-- The frames hand back at most what the top frame was given. -/
theorem run_frames_gas (hspec : g.spec.GenesisConstants) {fuel : Nat} {substate : Substate}
    {observer : MultiObservers} {base : Nat} {frame : CallCreateFrame} {output : FrameStackOutput}
    {t t' : TxState}
    (hrun : (run_frames g fuel substate observer base frame).run t = .ok (.ok (some output), t')) :
    (gas_left output.result).toNat ≤ frame.status.gas := by
  obtain ⟨s', hexec, -⟩ := run_zoom_eq_ok.mp hrun
  obtain ⟨r, hrounds, hphase, hstack, rfl⟩ := rounds_of_exec hexec
  have hfits : (FrameStack.new t.state t.shared_cache substate observer base frame).GasFits :=
    ⟨trivial, trivial⟩
  have hle := (FrameStack.gas_le_of_rounds hspec hfits hrounds).2
  simp only [FrameStack.gas, hphase, hstack, Phase.gas, FrameStack.new, List.map_nil, List.sum_nil,
    Nat.add_zero] at hle
  cases r with
  | error e => exact Nat.zero_le _
  | ok r => exact hle

end TXExecutor

variable [HashOrder]

open FrameStack in
/-- Gas is never created. In every run of a stack of frames no round adds to the gas that all live
    frames hold; every frame hands back at most the gas that it was given, and to the interpreter
    that called it strictly less than the call or creation deducted. So the gas that comes back can
    be counted in the type of the one that takes it up, also when it is added to what is there or
    when a call or creation does not take place, and what is left at the end is not more than the
    gas of the transaction. -/
theorem gas_is_never_created (hspec : g.spec.GenesisConstants) :
    (∀ s s', Reachable g s → Next (FrameStack.step g) s s' → s'.gas ≤ s.gas) ∧
    (∀ s frame params r s', Reachable g s → s.phase = .Enter frame →
      frame.status = .Input params → FrameRun g s r s' → result_gas r ≤ params.gas.toNat) ∧
    (∀ s frame c (i : Interpreter c) kind caller s₁ s₂ r s', Reachable g s →
      s.phase = .Execute frame (.Interpreter c i) → Next (FrameStack.step g) s s₁ →
      s₁.phase = .LastRes (.SubCallCreate kind caller) → Next (FrameStack.step g) s₁ s₂ →
      FrameRun g s₂ r s' → ∃ i' : Interpreter c,
        (caller.status = .ResumeCall (.Interpreter c i') ∨
          caller.status = .ResumeCreate (.Interpreter c i')) ∧ result_gas r < i.gas - i'.gas) ∧
    (∀ s r parent rest, Reachable g s → s.phase = .LastRes (.Return r) →
      s.frame_stack = parent :: rest → parent.resume r ≠ .error .gas_left_cannot_be_greater) ∧
    (∀ s frame c (i : Interpreter c) m₀ gas p, Reachable g s →
      s.phase = .Execute frame (.Interpreter c i) → i.gasometer = some m₀ →
      (Interpreter.next_result g frame.context).run (i, s.host) = .ok (.ok (.UnusedGas gas), p) →
      ∃ m sum, p.1.gasometer = some m ∧ Cost.checked_add m.current_gas gas = some sum ∧
        (i.resume_result = none → m.current_gas.toNat + gas.toNat < i.gas)) ∧
    (∀ tx options t frame substate observer base t₁ fuel output t₂,
      (TXExecutor.transact_preprocessing g tx options).run t =
        .ok (.ok (.Pass frame substate observer base), t₁) →
      (TXExecutor.run_frames g fuel substate observer base frame).run t₁ =
        .ok (.ok (some output), t₂) →
      ∃ gas_used, U256.checked_sub tx.gas (TXExecutor.gas_left output.result) = some gas_used) := by
  refine ⟨?_, ?_, ?_, ?_, ?_, ?_⟩
  · intro s s' hs hnext
    exact (gas_le_of_rounds hspec (gasFits_of_reachable hspec hs) (.single hnext)).2
  · intro s frame params r s' hs hphase hstatus hrun
    have hle := hrun.gas_le hspec (gasFits_of_reachable hspec hs)
    simpa only [hphase, Phase.gas, hstatus, FrameStatus.gas] using hle
  · intro s frame c i kind caller s₁ s₂ r s' hs hphase htrap hphase₁ hcall hrun
    have hfits := gasFits_of_reachable hspec hs
    have hcost := subframe_cost hspec hfits hphase htrap hphase₁ hcall hrun
    have hprice := two_le_base_price hspec kind
    obtain ⟨i', hstatus, hpending⟩ := interpreter_caller hspec hfits hphase htrap hphase₁
    refine ⟨i', hstatus, ?_⟩
    have hkept : caller.status.gas = i'.gas := by
      rcases hstatus with h | h <;> rw [h] <;> rfl
    simp only [Exec.gas] at hcost
    omega
  · intro s r parent rest hs hphase hstack
    have hwaiting := (gasFits_of_reachable hspec hs).2
    rw [hphase, hstack] at hwaiting
    exact resume_fits hwaiting.1
  · intro s frame c i m₀ gas p hs hphase hm₀ hrun
    have hfits := (gasFits_of_reachable hspec hs).1
    rw [hphase] at hfits
    exact unused_gas_fits hspec hfits hm₀ hrun
  · intro tx options t frame substate observer base t₁ fuel output t₂ hpre hrun
    have hle : (TXExecutor.gas_left output.result).toNat ≤ tx.gas.toNat :=
      (TXExecutor.run_frames_gas hspec hrun).trans
        ((TXExecutor.top_frame_gas options).of_run hpre _ _ _ _ rfl)
    exact ⟨_, if_pos hle⟩

end

section
attribute [local instance] keccakOfEmpty HashOrder.asListed

/-- A call with value, from before the frame is asked for until its result is taken up. -/
theorem paying_run :
    ∃ s frame i s₁ kind caller s₂ r s' s₃ frame₃ i₃, s.Reachable bareMachine ∧
      s.phase = .Execute frame (.Interpreter .usize i) ∧ i.gas = 199979 ∧
      Next (FrameStack.step bareMachine) s s₁ ∧ s₁.phase = .LastRes (.SubCallCreate kind caller) ∧
      Next (FrameStack.step bareMachine) s₁ s₂ ∧ FrameStack.FrameRun bareMachine s₂ r s' ∧
      result_gas r = 2400 ∧ Next (FrameStack.step bareMachine) s' s₃ ∧
      s₃.phase = .Execute frame₃ (.Interpreter .usize i₃) ∧ i₃.gasometer.isSome ∧
      i₃.pending = 2400 := by
  have hruns : ((FrameStack.after bareMachine 8 payingStack).any fun s =>
      s.phase.interprets (fun i => i.gas = 199979) && (FrameStack.after bareMachine 1 s).any
        fun s₁ =>
        s₁.phase.calls && (FrameStack.after bareMachine 1 s₁).any fun s₂ =>
          (FrameStack.run_frame bareMachine s₂.frame_stack.length 2 s₂).any fun result =>
            result_gas result.1 = 2400 && (FrameStack.after bareMachine 1 result.2).any fun s₃ =>
              s₃.phase.interprets fun i => i.gasometer.isSome && i.pending = 2400) = true := by
    decide +kernel
  simp only [Option.any_eq_true, Bool.and_eq_true, decide_eq_true_iff] at hruns
  obtain ⟨s, hs, hinterprets, s₁, h₁, hcalls, s₂, h₂, ⟨r, s'⟩, hrun, hgas, s₃, h₃,
    hpending⟩ := hruns
  obtain ⟨frame, i, hphase, hi⟩ := Phase.exists_of_interprets hinterprets
  obtain ⟨kind, caller, hcall⟩ := Phase.exists_of_calls hcalls
  obtain ⟨frame₃, i₃, hphase₃, hi₃⟩ := Phase.exists_of_interprets hpending
  obtain ⟨hsome, hpending⟩ := Bool.and_eq_true_iff.mp hi₃
  exact ⟨s, frame, i, s₁, kind, caller, s₂, r, s', s₃, frame₃, i₃,
    ⟨_, payingStack_initial, rounds_of_after hs⟩, hphase, of_decide_eq_true hi,
      next_of_after h₁, hcall,
    next_of_after h₂, frameRun_of_run_frame hrun, hgas, next_of_after h₃, hphase₃, hsome,
    of_decide_eq_true hpending⟩

/-- A call with value hands back less than it deducted, and the caller can count it. -/
theorem transfer_gives_back_its_gas :
    ∃ s frame i kind caller s₁ s₂ r s' s₃ frame₃ i₃ m₀, FrameStack.Reachable bareMachine s ∧
      s.phase = .Execute frame (.Interpreter .usize i) ∧ i.gas = 199979 ∧
      Next (FrameStack.step bareMachine) s s₁ ∧ s₁.phase = .LastRes (.SubCallCreate kind caller) ∧
      Next (FrameStack.step bareMachine) s₁ s₂ ∧ FrameStack.FrameRun bareMachine s₂ r s' ∧
      result_gas r = 2400 ∧
      (∃ i' : Interpreter .usize, (caller.status = .ResumeCall (.Interpreter .usize i') ∨
        caller.status = .ResumeCreate (.Interpreter .usize i')) ∧ result_gas r < i.gas - i'.gas) ∧
      Next (FrameStack.step bareMachine) s' s₃ ∧
      s₃.phase = .Execute frame₃ (.Interpreter .usize i₃) ∧ i₃.gasometer = some m₀ ∧
      ∃ gas p m sum, (Interpreter.next_result bareMachine frame₃.context).run (i₃, s₃.host) =
          .ok (.ok (.UnusedGas gas), p) ∧ gas.toNat = 2400 ∧ p.1.gasometer = some m ∧
        Cost.checked_add m.current_gas gas = some sum := by
  obtain ⟨s, frame, i, s₁, kind, caller, s₂, r, s', s₃, frame₃, i₃, hs, hphase, hgas, h₁, hcall, h₂,
    hrun, hresult, h₃, hphase₃, hsome, hpending⟩ := paying_run
  obtain ⟨m₀, hm₀⟩ := Option.isSome_iff_exists.mp hsome
  obtain ⟨-, -, hsubframe, -, hunused, -⟩ :=
    gas_is_never_created (g := bareMachine) (by decide)
  have hs₃ : s₃.Reachable bareMachine :=
    ((((hs.rounds (.single h₁)).rounds (.single h₂)).inside hrun.1).rounds (.single h₃))
  obtain ⟨gas, hresume, htoNat⟩ : ∃ gas, i₃.resume_result = some (.UnusedGas gas) ∧
      gas.toNat = 2400 := by
    unfold Interpreter.pending at hpending
    split at hpending
    · exact ⟨_, ‹_›, hpending⟩
    · cases hpending
  have hnext : (Interpreter.next_result bareMachine frame₃.context).run (i₃, s₃.host) =
      .ok (.ok (.UnusedGas gas), ({ i₃ with resume_result := none }, s₃.host)) := by
    unfold Interpreter.next_result
    rw [run_bind, run_gets, hresume]
    rfl
  obtain ⟨m, sum, hm, hsum, -⟩ := hunused s₃ frame₃ _ i₃ m₀ gas _ hs₃ hphase₃ hm₀ hnext
  exact ⟨s, frame, i, kind, caller, s₁, s₂, r, s', s₃, frame₃, i₃, m₀, hs, hphase, hgas,
    h₁, hcall, h₂,
    hrun, hresult, hsubframe s frame _ i kind caller s₁ s₂ r s' hs hphase h₁ hcall h₂ hrun,
      h₃, hphase₃,
    hm₀, gas, _, m, sum, hnext, htoNat, hm, hsum⟩

end

end CfxEvm
