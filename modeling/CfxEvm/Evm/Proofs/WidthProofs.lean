import CfxEvm.Evm.Proofs.PanicProofs
import CfxEvm.Evm.Proofs.PricingProofs
import CfxEvm.State.Proofs.CreationProofs

/-!
# Proofs: the two widths of the gasometer

The narrow gasometer refuses what cannot be paid and nothing else, up to the memory that outgrows
its width. The wide one computes the size of the memory as a `usize` before the price is compared
with the gas, and panics where it is none.
-/

open Lib Lib.Prog

namespace CfxEvm

namespace Gasometer

/-- The step is refused, for the requirements or for the gas that they cost. -/
def Refused {c : CostType} (m : Gasometer c) (r : Except VmError (InstructionRequirements c)) :
    Prop :=
  r = .error .OutOfGas ∨ ∃ req, r = .ok req ∧ m.verify_gas req.gas_cost = .error .OutOfGas

section
variable {c : CostType} {g : Globals} {ctx : FrameContext} {h : Host State}
  {instruction : Instruction} {stack : List U256} {size : Nat}

theorem verify_gas_refuses (m : Gasometer c) (gas_cost : Cost c) :
    m.verify_gas gas_cost = .error .OutOfGas ↔ m.current_gas.toNat < gas_cost.toNat := by
  unfold verify_gas
  split
  · exact ⟨fun _ => ‹_›, fun _ => rfl⟩
  · exact ⟨fun h => (nomatch h), fun h => absurd h ‹_›⟩

variable [Keccak]

/-- When the requirements are met, the memory is paid for again. -/
theorem MemoryPaid.grown {m : Gasometer c} {req : InstructionRequirements c} {w : Ledger} {n : Nat}
    (hpaid : MemoryPaid g.spec m size) (hwords : wordsNeeded instruction stack < 2 ^ 59)
    (hexact : Exact req (trueRequirements g ctx w instruction stack n size)) :
    MemoryPaid g.spec { m with current_mem_gas := req.memory_total_gas }
      (max size req.memory_required_size) := by
  have hsize : req.memory_required_size = wordsNeeded instruction stack * 32 :=
    hexact.memory_required_size
  have hold := hpaid.words
  have hsmall := hpaid.small
  refine ⟨by omega, by omega, ?_⟩
  rw [hsize]
  exact hexact.memory_total_gas

variable [HashOrder]

/-- The narrow gasometer is exact. The requirements of an instruction are found; if they are, they
    are those over unbounded numbers; and the step is refused just if the price over unbounded
    numbers exceeds the gas, or the memory grows to so many words that their square is not below
    `2 ^ 64`. -/
theorem narrow_gasometer_is_exact (hspec : g.spec.GenesisConstants) {m : Gasometer .usize}
    (hpaid : MemoryPaid g.spec m size) (hargs : instruction.info.args ≤ stack.length)
    (hstate : h.state.Reachable) :
    ∃ r h', (m.requirements g ctx instruction stack size).run h = .ok (r, h') ∧
      (∀ e, r = .error e → e = .OutOfGas) ∧
      (∀ req, r = .ok req → Exact req
        (trueRequirements g ctx h.state.ledger instruction stack m.current_gas.toNat size)) ∧
      (m.Refused r ↔ m.current_gas.toNat <
          (trueRequirements g ctx h.state.ledger instruction stack m.current_gas.toNat
            size).gas_cost ∨
        Outgrows .usize instruction stack size) := by
  obtain ⟨db, saved, w, hrep⟩ := hstate.rep
  have hledger : h.state.ledger = w := by
    obtain ⟨owner, hrep⟩ := hrep
    exact hrep.ledger_eq
  rw [hledger]
  obtain ⟨r, h', hrun, hfound⟩ := exists_run_of_wp (wp_mono
    (requirements_spec ctx hspec hpaid hargs hrep) (fun _ hpanic => (nomatch hpanic.1))
    fun _ _ hfound => hfound)
  refine ⟨r, h', hrun, fun e he => (hfound.error e he).1, fun req hreq =>
    (hfound.exact req hreq).1, ?_⟩
  cases r with
  | error e =>
    obtain ⟨rfl, hcause⟩ := hfound.error e rfl
    exact ⟨fun _ => hcause.imp_left fun hcost => hcost.2, fun _ => .inl rfl⟩
  | ok req =>
    obtain ⟨hexact, -, hnot⟩ := hfound.exact req rfl
    rw [← hexact.gas_cost, ← verify_gas_refuses]
    constructor
    · rintro (⟨⟨⟩⟩ | ⟨_, ⟨⟩, hrefuses⟩)
      exact .inl hrefuses
    · rintro (hrefuses | houtgrows)
      · exact .inr ⟨req, rfl, hrefuses⟩
      · exact absurd houtgrows hnot

/-- The wide gasometer completes, with the requirements or out of gas, just if the memory that is
    needed has less than `2 ^ 59` words, or at least `2 ^ 128`. -/
theorem wide_gasometer_completes_iff (hspec : g.spec.GenesisConstants) {m : Gasometer .U256}
    (hpaid : MemoryPaid g.spec m size) (hargs : instruction.info.args ≤ stack.length)
    (hstate : h.state.Reachable) :
    (∃ r h', (m.requirements g ctx instruction stack size).run h = .ok (r, h') ∧
      ∀ e, r = .error e → e = .OutOfGas) ↔
    wordsNeeded instruction stack < 2 ^ 59 ∨ 2 ^ 128 ≤ wordsNeeded instruction stack := by
  obtain ⟨db, saved, w, hrep⟩ := hstate.rep
  have hspec' := requirements_spec ctx hspec hpaid hargs hrep
  constructor
  · rintro ⟨r, h', hrun, -⟩
    have hfound := wp_of_run hspec' hrun
    cases r with
    | error e =>
      rcases (hfound.error e rfl).2 with ⟨hsmall, -⟩ | ⟨-, hlarge⟩
      · exact .inl hsmall
      · exact .inr hlarge
    | ok req => exact .inl (hfound.exact req rfl).2.1
  · intro hwords
    obtain ⟨r, h', hrun, hfound⟩ := exists_run_of_wp
      (wp_mono hspec' (fun _ hpanic => by omega) fun _ _ hfound => hfound)
    exact ⟨r, h', hrun, fun e he => (hfound.error e he).1⟩

end

end Gasometer

section
attribute [local instance] keccakOfEmpty HashOrder.asListed

/-- A gasometer whose memory has so many words, all paid for. -/
def grownGasometer (gas words : Nat) : Gasometer .usize :=
  ⟨BitVec.ofNat 64 gas, BitVec.ofNat 64 (memGas .genesis_spec (words * 32))⟩

/-- A load at the start of an empty memory is priced exactly, and refused for too little gas. -/
theorem load_in_empty_memory_refused :
    ∃ r h', ((grownGasometer 5 0).requirements bareMachine creatingContext .MLOAD [0] 0).run
        emptyHost = .ok (r, h') ∧ (grownGasometer 5 0).Refused r := by
  have hspec : bareMachine.spec.GenesisConstants := by decide
  have hpaid : Gasometer.MemoryPaid bareMachine.spec (grownGasometer 5 0) 0 := ⟨rfl, by decide, rfl⟩
  have hargs : Instruction.MLOAD.info.args ≤ [(0 : U256)].length := by decide
  have hstate : emptyHost.state.Reachable := ⟨.empty, [], _, rfl⟩
  obtain ⟨r, h', hrun, -, -, hrefused⟩ := Gasometer.narrow_gasometer_is_exact hspec hpaid hargs
    hstate
  refine ⟨r, h', hrun, hrefused.mpr (.inl ?_)⟩
  decide +kernel

/-- Growing a memory of `2 ^ 32 - 1` words by one word is refused, although its price is there. -/
theorem growth_to_largest_square_refused :
    (grownGasometer (2 ^ 54) (2 ^ 32 - 1)).current_gas.toNat < 2 ^ 55 ∧
      Gasometer.MemoryPaid bareMachine.spec (grownGasometer (2 ^ 54) (2 ^ 32 - 1))
        ((2 ^ 32 - 1) * 32) ∧
      ((grownGasometer (2 ^ 54) (2 ^ 32 - 1)).requirements bareMachine creatingContext .MLOAD
        [BitVec.ofNat 256 (2 ^ 37 - 32)] ((2 ^ 32 - 1) * 32)).value emptyHost =
          .ok (.error .OutOfGas) ∧
      ¬(grownGasometer (2 ^ 54) (2 ^ 32 - 1)).current_gas.toNat <
        (trueRequirements bareMachine creatingContext emptyHost.state.ledger .MLOAD
          [BitVec.ofNat 256 (2 ^ 37 - 32)] (2 ^ 54) ((2 ^ 32 - 1) * 32)).gas_cost := by
  refine ⟨by decide, ⟨by decide, by decide, by decide⟩, ?_, by decide +kernel⟩
  have hrefused : ((grownGasometer (2 ^ 54) (2 ^ 32 - 1)).requirements bareMachine
      creatingContext .MLOAD [BitVec.ofNat 256 (2 ^ 37 - 32)] ((2 ^ 32 - 1) * 32)).refuses emptyHost
      (fun e => e = .OutOfGas) = true := by decide +kernel
  obtain ⟨e, h', hrun, he⟩ := exists_of_refuses hrefused
  obtain rfl := of_decide_eq_true he
  exact value_eq_ok.mpr ⟨h', hrun⟩

/-- The wide gasometer prices a load at the start of the memory. -/
theorem wide_load_completes :
    ∃ r h', ((Gasometer.new (c := .U256) (BitVec.ofNat 256 (2 ^ 64))).requirements bareMachine
        creatingContext .MLOAD [0] 0).run emptyHost = .ok (r, h') ∧
      ∀ e, r = .error e → e = .OutOfGas :=
  (Gasometer.wide_gasometer_completes_iff (by decide) ⟨rfl, by decide, rfl⟩ (by decide)
    ⟨.empty, [], _, rfl⟩).mpr (.inl (by decide))

/-- The wide gasometer panics on a load behind the addresses of a `usize`. -/
theorem wide_load_panics :
    Gasometer.MemoryPaid bareMachine.spec (.new (c := .U256) (BitVec.ofNat 256 (2 ^ 64))) 0 ∧
      ¬∃ r h', ((Gasometer.new (c := .U256) (BitVec.ofNat 256 (2 ^ 64))).requirements bareMachine
        creatingContext .MLOAD [BitVec.ofNat 256 (2 ^ 64)] 0).run emptyHost = .ok (r, h') := by
  refine ⟨⟨rfl, by decide, rfl⟩, ?_⟩
  rintro ⟨r, h', hrun⟩
  have hpanics : (match ((Gasometer.new (c := .U256) (BitVec.ofNat 256 (2 ^ 64))).requirements
        bareMachine creatingContext .MLOAD [BitVec.ofNat 256 (2 ^ 64)] 0).run emptyHost with
      | .ok _ => false
      | .error _ => true) = true := by decide +kernel
  rw [hrun] at hpanics
  cases hpanics

end

end CfxEvm
