import CfxEvm.Frame.Proofs.StackGasProofs

/-!
# Proofs: every execution ends

The measure of the stack bounds the rounds of `FrameStack::exec`, and the gas of an interpreter
bounds the steps of `Interpreter::exec`.
-/

open Lib Lib.Prog

namespace CfxEvm

/-! ## The loop of an interpreter -/

namespace Interpreter

variable [Keccak] {g : Globals} {ctx : FrameContext} {c : CostType}

/-- What every step makes smaller: the gas, or whether there is a result to take up. -/
def measure (i : Interpreter c) : Nat :=
  i.gas + i.pending + if i.resume_result.isSome then 1 else 0

theorem round_measure (hspec : g.spec.GenesisConstants) {p p' : Interpreter c × Host State}
    (hres : p.1.Resumable) (hnext : Next (round g ctx) p p') :
    p'.1.Resumable ∧ p'.1.measure < p.1.measure := by
  obtain ⟨result, p₁, hstep, hrest⟩ := run_bind_eq_ok.mp hnext
  have hgas := wp_of_run (step_gas hspec hres p.2) hstep result rfl
  cases result with
  | Continue =>
    cases hrest
    obtain ⟨hle, hnone⟩ := hgas
    refine ⟨.inl hnone, ?_⟩
    have hpending : p'.1.pending = 0 := by simp only [pending, hnone]
    have hcost : p.1.step_cost + (if p.1.resume_result.isSome then 1 else 0) = 1 := by
      unfold step_cost
      cases p.1.resume_result <;> rfl
    have hlast : (if p'.1.resume_result.isSome then 1 else 0) = 0 := by simp [hnone]
    simp only [measure]
    omega
  | Stopped => cases hrest
  | Done value => cases hrest
  | Trap trap => cases hrest

/-- As many steps as the interpreter has gas, and one to take up a result, are enough. -/
theorem exec_ends (hspec : g.spec.GenesisConstants) {i : Interpreter c} (hres : i.Resumable)
    {h : Host State} {fuel : Nat} (hfuel : i.gas + i.pending + 1 < fuel)
    (p : Interpreter c × Host State) : (exec g ctx fuel).run (i, h) ≠ .ok (.ok none, p) := by
  have hmeasure : i.measure < fuel := by
    unfold measure
    split <;> omega
  exact loop_ends (I := fun p : Interpreter c × Host State => p.1.Resumable)
    (μ := fun p => p.1.measure) (fun p p' hp => round_measure hspec hp) (s := (i, h)) hres hmeasure

end Interpreter

/-! ## The loop of the stack -/

namespace FrameStack

variable [Keccak] [HashOrder] {g : Globals} {s s' : FrameStack}

theorem round_measure (hspec : g.spec.GenesisConstants) (s s' : FrameStack) (hfits : s.GasFits)
    (hnext : Next (step g) s s') : s'.GasFits ∧ s'.measure < s.measure := by
  have hstep := gasStep_of_round hspec hfits (round_of_next hnext)
  exact ⟨hstep.fits, hstep.measure_lt⟩

/-- What an instruction costs is never given back. -/
theorem instruction_cost (hspec : g.spec.GenesisConstants) (hfits : s.GasFits)
    {frame frame' : CallCreateFrame} {c : CostType} {i : Interpreter c} {exec' : Exec}
    (hphase : s.phase = .Execute frame (.Interpreter c i)) (hi : i.resume_result = none)
    (hnext : Next (step g) s s') (hphase' : s'.phase = .Execute frame' exec') {s'' : FrameStack}
    (hrun : Rounds (step g) s' s'') : s''.gas + 1 ≤ s.gas := by
  have hstep := gasStep_of_round hspec hfits (round_of_next hnext)
  have hcost : round_cost g.spec s s' = 1 := by
    simp [round_cost, hphase, hphase', Exec.cost, Interpreter.step_cost, hi]
  have hle := hstep.gas_le
  have hle' := (gas_le_of_rounds hspec hstep.fits hrun).2
  omega

/-- A trap leaves its caller with less by its base price and the gas that is passed on. -/
theorem trap_cost (hspec : g.spec.GenesisConstants) (hfits : s.GasFits)
    {frame caller : CallCreateFrame} {exec : Exec} {kind : TrapKind}
    (hphase : s.phase = .Execute frame exec) (hnext : Next (step g) s s')
    (hphase' : s'.phase = .LastRes (.SubCallCreate kind caller)) :
    caller.status.gas + kind.params.gas.toNat + kind.base_price g.spec ≤ exec.gas := by
  have hle := (gasStep_of_round hspec hfits (round_of_next hnext)).gas_le
  have hstack : s'.frame_stack = s.frame_stack := by
    cases round_of_next hnext with
    | enter h => exact absurd (hphase.symm.trans h) (by simp)
    | go_on h => rfl
    | returns h => rfl
    | traps h => rfl
    | calls h => exact absurd (hphase.symm.trans h) (by simp)
    | resumes h => exact absurd (hphase.symm.trans h) (by simp)
  simp only [gas, round_cost, hphase, hphase', hstack, Phase.gas] at hle
  omega

/-- The frame that a trap enters is given the gas of the trap. -/
theorem gas_of_trap {kind : TrapKind} {caller : CallCreateFrame}
    (hphase : s.phase = .LastRes (.SubCallCreate kind caller)) (hnext : Next (step g) s s') :
    s'.phase.gas = kind.params.gas.toNat := by
  cases round_of_next hnext with
  | enter h => exact absurd (hphase.symm.trans h) (by simp)
  | go_on h => exact absurd (hphase.symm.trans h) (by simp)
  | returns h => exact absurd (hphase.symm.trans h) (by simp)
  | traps h => exact absurd (hphase.symm.trans h) (by simp)
  | calls h =>
    cases hphase.symm.trans h
    cases kind <;> rfl
  | resumes h => exact absurd (hphase.symm.trans h) (by simp)

/-- What a call or creation costs its caller: the frame that it enters hands back at most the gas
    that it was given. -/
theorem subframe_cost (hspec : g.spec.GenesisConstants) (hfits : s.GasFits)
    {frame caller : CallCreateFrame} {exec : Exec} {kind : TrapKind} {s₁ s₂ : FrameStack}
    {r : Except VmError FrameReturn} (hphase : s.phase = .Execute frame exec)
    (htrap : Next (step g) s s₁) (hphase₁ : s₁.phase = .LastRes (.SubCallCreate kind caller))
    (hcall : Next (step g) s₁ s₂) (hrun : FrameRun g s₂ r s') :
    caller.status.gas + result_gas r + kind.base_price g.spec ≤ exec.gas := by
  have hfits₁ := (gasStep_of_round hspec hfits (round_of_next htrap)).fits
  have hfits₂ := (gasStep_of_round hspec hfits₁ (round_of_next hcall)).fits
  have hgiven := gas_of_trap hphase₁ hcall
  have hback := hrun.gas_le hspec hfits₂
  have hcost := trap_cost hspec hfits hphase htrap hphase₁
  omega

end FrameStack

open FrameStack in
/-- Execution ends. From every stack that is reached, as many rounds as its measure says are enough
    for the loop of `FrameStack::exec` to come to a result, an error or a panic; the loop of
    `Interpreter::exec` in it ends within as many steps as there is gas, and one. No sequence of
    rounds comes back to the stack that it began with. An instruction after which the interpreter
    goes on costs gas that no later round gives back, and a call or creation costs its caller the
    base price whatever the frame that it enters hands back. -/
theorem execution_terminates [Keccak] [HashOrder] {g : Globals} (hspec : g.spec.GenesisConstants)
    {s : FrameStack} (hs : s.Reachable g) :
    (∀ fuel s', s.measure < fuel → (FrameStack.exec g fuel).run s ≠ .ok (.ok none, s')) ∧
    (∀ frame c (i : Interpreter c), s.phase = .Execute frame (.Interpreter c i) →
      ∀ fuel p, i.gas + i.pending + 1 < fuel →
        (Interpreter.exec g frame.context fuel).run (i, s.host) ≠ .ok (.ok none, p)) ∧
    (∀ s', Relation.TransGen (Next (FrameStack.step g)) s s' → s' ≠ s) ∧
    (∀ frame frame' c (i : Interpreter c) exec' s',
      s.phase = .Execute frame (.Interpreter c i) → i.resume_result = none →
      Next (FrameStack.step g) s s' → s'.phase = .Execute frame' exec' →
      ∀ s'', Rounds (FrameStack.step g) s' s'' → s''.gas + 1 ≤ s.gas) ∧
    (∀ frame exec kind caller s₁ s₂ r s', s.phase = .Execute frame exec →
      Next (FrameStack.step g) s s₁ → s₁.phase = .LastRes (.SubCallCreate kind caller) →
      Next (FrameStack.step g) s₁ s₂ → FrameRun g s₂ r s' →
      caller.status.gas + result_gas r + kind.base_price g.spec ≤ exec.gas) := by
  have hfits := gasFits_of_reachable hspec hs
  refine ⟨?_, ?_, ?_, ?_, ?_⟩
  · intro fuel s' hfuel
    exact loop_ends (I := GasFits) (round_measure hspec) hfits hfuel
  · intro frame c i hphase fuel p hfuel
    have hexec := hfits.1
    rw [hphase] at hexec
    exact Interpreter.exec_ends hspec hexec.1 hfuel p
  · rintro s' hrun rfl
    have hlt := (measure_lt_of_rounds (I := GasFits) (round_measure hspec) hfits hrun).2
    omega
  · intro frame frame' c i exec' s' hphase hi hnext hphase' s'' hrun
    exact instruction_cost hspec hfits hphase hi hnext hphase' hrun
  · intro frame exec kind caller s₁ s₂ r s' hphase htrap hphase₁ hcall hrun
    exact subframe_cost hspec hfits hphase htrap hphase₁ hcall hrun

section
attribute [local instance] keccakOfEmpty HashOrder.asListed

/-- A call of code that jumps to its own beginning: `JUMPDEST`, `PUSH1 0`, `JUMP`. -/
def jumpInPlace : ActionParams where
  code_address := 1
  code_hash := none
  address := 1
  sender := 7
  original_sender := 7
  gas := 100
  gas_price := 0
  value := .Transfer 0
  code := some [0x5b, 0x60, 0x00, 0x56]
  data := some []
  call_type := .Call
  create_type := .None
  params_type := .Separate

/-- A hundred units of gas end it. -/
theorem jump_in_place_ends :
    ∃ state, State.Reachable state ∧ ∀ s', (FrameStack.exec bareMachine 604).run
      (.new state (.new 0) .new .with_no_tracing 0
        (.new_call_raw bareMachine jumpInPlace 0 false)) ≠
        .ok (.ok none, s') := by
  refine ⟨.new .empty, ⟨.empty, [], _, rfl⟩, fun s' => ?_⟩
  have hs : FrameStack.Reachable bareMachine (.new (.new .empty) (.new 0) .new .with_no_tracing 0
      (.new_call_raw bareMachine jumpInPlace 0 false)) :=
    ⟨_, .call _ _ _ _ _ jumpInPlace ⟨.empty, [], _, rfl⟩ rfl, .refl⟩
  exact (execution_terminates (by decide) hs).1 604 s' (Nat.lt_succ_self 603)

end

end CfxEvm
