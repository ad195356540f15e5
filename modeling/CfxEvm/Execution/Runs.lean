import CfxEvm.Execution.Executor
import CfxEvm.Frame.Runs

/-!
# Runs of transactions

The stacks of frames that are reached while a transaction is executed, and what is done with a state
over time: transactions are executed on it, and it is committed.
-/

open Lib Lib.Prog

namespace CfxEvm

variable [Keccak] [HashOrder]

/-- A stack that is reached while the transaction is executed on `t`. -/
def TXExecutor.Executing (g : Globals) (tx : Transaction) (options : TransactOptions) (t : TxState)
    (s : FrameStack) : Prop :=
  ∃ frame substate observer base t₁,
    (transact_preprocessing g tx options).run t =
      .ok (.ok (.Pass frame substate observer base), t₁) ∧
    Rounds (FrameStack.step g) (.new t₁.state t₁.shared_cache substate observer base frame) s

/-- A contract is about to be made at `a`: a frame that creates it is entered, or the registry is
    deployed there. -/
def FrameStack.MakesContractAt (g : Globals) (a : Address) (s : FrameStack) : Prop :=
  (∃ frame, s.phase = .Enter frame ∧ frame.create_address = some a) ∨
    ∃ frame internal params, s.phase = .Execute frame (.InternalContractExec internal params) ∧
      internal.Deploys g params ∧ a = eip_1820.ADDRESS

/-- If a frame that creates a contract is about to be entered, the contract has another address than
    its creator: the hash that the address is taken from did not come back to the creator. -/
def FrameStack.CreatesElsewhere (s : FrameStack) : Prop :=
  ∀ frame params, s.phase = .Enter frame → frame.status = .Input params →
    frame.create_address = some params.address → params.address ≠ params.sender

/-- A transaction is executed, in stacks with `I` only, or the state is committed. -/
inductive TxStep (I : Globals → FrameStack → Prop) (t t' : TxState) : Prop
  | transact {g : Globals} {tx : Transaction} {fuel : Nat} {options : TransactOptions}
      {outcome : ExecutionOutcome}
      (hrun : (TXExecutor.transact g tx fuel options).run t = .ok (.ok (some outcome), t'))
      (hstacks : ∀ s, TXExecutor.Executing g tx options t s → I g s) : TxStep I t t'
  | commit {s : State} (hrun : State.commit.final t.state = .ok s)
      (ht : t' = { t with state := s }) : TxStep I t t'

/-- Transactions and commits, one after another. -/
abbrev TxSteps (I : Globals → FrameStack → Prop) : TxState → TxState → Prop :=
  Relation.ReflTransGen (TxStep I)

/-- A transaction that pays for its gas is executed, in stacks that create contracts elsewhere than
    at their creators only, or the state is committed. -/
inductive PaidStep (t t' : TxState) : Prop
  | transact {g : Globals} {tx : Transaction} {fuel : Nat} {options : TransactOptions}
      {outcome : ExecutionOutcome}
      (hrun : (TXExecutor.transact g tx fuel options).run t = .ok (.ok (some outcome), t'))
      (hcharge : options.check_settings.charge_gas = true)
      (hstacks : ∀ s, TXExecutor.Executing g tx options t s → s.CreatesElsewhere) : PaidStep t t'
  | commit {s : State} (hrun : State.commit.final t.state = .ok s)
      (ht : t' = { t with state := s }) : PaidStep t t'

/-- Such transactions and commits, one after another. -/
abbrev PaidSteps : TxState → TxState → Prop := Relation.ReflTransGen PaidStep

/-- Transactions are executed one after another, each in an environment of its own and with the
    given settings, in stacks with `I` only; the outcomes are listed. -/
inductive TxBatch (settings : TransactCheckSettings) (I : FrameStack → Prop) :
    List (Globals × Transaction) → TxState → List ExecutionOutcome → TxState → Prop
  | nil (t : TxState) : TxBatch settings I [] t [] t
  | cons {g : Globals} {tx : Transaction} {fuel : Nat} {options : TransactOptions}
      {outcome : ExecutionOutcome} {t t₁ t' : TxState} {txs : List (Globals × Transaction)}
      {outcomes : List ExecutionOutcome} (hsettings : options.check_settings = settings)
      (hrun : (TXExecutor.transact g tx fuel options).run t = .ok (.ok (some outcome), t₁))
      (hstacks : ∀ s, TXExecutor.Executing g tx options t s → I s)
      (h : TxBatch settings I txs t₁ outcomes t') :
      TxBatch settings I ((g, tx) :: txs) t (outcome :: outcomes) t'

end CfxEvm
