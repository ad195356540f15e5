import CfxEvm.Execution.Proofs.OwnJumpProofs
import CfxEvm.Execution.Proofs.ReplayProofs
import CfxEvm.Execution.Proofs.RunProofs
import CfxEvm.Frame.Proofs.JournalProofs

/-!
# Proofs: what survives of a transaction

The logs and the new contracts that a transaction reports, and the contracts that it destroys, are
those of the frames that were applied, together with all frames around them.
-/

open Lib Lib.Prog Lib.Journal

namespace CfxEvm

section
variable [Keccak] [HashOrder] {g : Globals} {tx : Transaction} {options : TransactOptions}
  {t t₁ t' : TxState} {substate : Substate} {observer : MultiObservers} {base : ℕ}
  {frame : CallCreateFrame}

theorem FrameStack.exists_chronicle {s₀ s : FrameStack} (h : Rounds (FrameStack.step g) s₀ s) :
    ∃ l, FrameStack.Chronicle g s₀ l s := by
  induction h with
  | refl => exact ⟨[], .start⟩
  | tail _ hnext ih =>
    obtain ⟨l, hl⟩ := ih
    exact ⟨_, hl.next hnext⟩

omit [HashOrder] in
/-- Contracts are removed one after another, in any order. -/
theorem Ledger.accounts_foldl_killed (l : List Address) (w : Ledger) (a : Address) :
    (l.foldl Ledger.killed w).accounts a = if a ∈ l then some .removed else w.accounts a := by
  induction l generalizing w with
  | nil => rfl
  | cons b l ih =>
    rw [List.foldl_cons, ih]
    by_cases hmem : a ∈ l
    · simp [hmem]
    · by_cases hab : a = b
      · subst hab
        simp [hmem, Ledger.killed, Ledger.setAccount]
      · simp [hmem, hab, Ledger.killed, Ledger.setAccount]

/-- The run of the frames with all that happened in it, and what is left of it in the outcome. -/
structure TellsSurvivors (g : Globals) (tx : Transaction) (s₀ s : FrameStack)
    (l : List (Mark Happening))
    (calls : Bracket.Forest (Mark.kind (α := Happening))) (executed : Executed) (t' : TxState) :
    Prop where
  chronicle : FrameStack.Chronicle g s₀ l s
  /-- The run has come to its end: the top frame has its result, and no frame waits. -/
  returned : ∃ r, s.phase = .LastRes (.Return r)
  finished : s.frame_stack = []
  rounds : ∀ {l₁ s₁ s₂}, FrameStack.Chronicle g s₀ l₁ s₁ → Next (FrameStack.step g) s₁ s₂ →
    FrameStack.RoundLeaves g s₁ s₂
  flatten : calls.flatten = l
  logs : executed.logs = (survivors calls).filterMap Happening.log?
  contracts_created : executed.contracts_created = (survivors calls).filterMap Happening.created?
  /-- The ledger when the frames have been run, when the gas is refunded, and in the end. -/
  destroyed : ∃ db saved w refund w₁ w', Rep db saved s.host.state w ∧
    Ledger.Received tx.sender refund g.spec.account_start_nonce w w₁ ∧ Rep db saved t'.state w' ∧
    ∀ a, w'.accounts a = if .suicide a ∈ survivors calls then some .removed else w₁.accounts a

namespace TXExecutor

/-- Every outcome reports the logs and the contracts of the substate that is settled. -/
theorem Concluded.records_eq {s : FrameStack} {r : Except VmError FrameReturn} {refunded : U256}
    {executed executed' : Executed} {w w₁ w' : Ledger} {outcome : ExecutionOutcome}
    (hsubstate : s.tx_substate.Lists [])
    (h : Concluded tx executed (s.process_return r).result outcome)
    (hsettled : Settled g tx (s.process_return r) w refunded executed w₁ w')
    (houtcome : outcome = .Finished executed' ∨
      ∃ error, outcome = .ExecutionErrorBumpNonce error executed') :
    executed'.logs = (s.process_return r).substate.logs ∧
      executed'.contracts_created = (s.process_return r).substate.contracts_created := by
  generalize hresult : (s.process_return r).result = result at h
  cases h with
  | failed exception =>
    cases r with
    | ok r => cases hresult
    | error e =>
      rcases houtcome with h | ⟨_, h⟩ <;> cases h
      exact ⟨hsubstate.logs.symm, hsubstate.contracts_created.symm⟩
  | applied =>
    rcases houtcome with h | ⟨_, h⟩ <;> cases h
    exact ⟨hsettled.logs, hsettled.contracts_created⟩
  | reverted =>
    rcases houtcome with h | ⟨_, h⟩ <;> cases h
    exact ⟨hsettled.logs, hsettled.contracts_created⟩

/-- A transaction reports what survives of its call tree. The run of the frames is a forest of calls
    within each other; the logs that are reported, the new contracts and the contracts that are
    destroyed are just those of the frames that were applied, with all frames around them: each
    once, in the order in which they were left in the substates. What is left there in a round is
    due to the code that runs in it, and a new contract is listed once, when its frame is closed and
    applied. -/
theorem outcome_tells_survivors (hstate : t.state.Reachable)
    (hpre : (transact_preprocessing g tx options).run t =
      .ok (.ok (.Pass frame substate observer base), t₁))
    {fuel : ℕ} {outcome : ExecutionOutcome} {executed : Executed}
    (hrun : (transact g tx fuel options).run t = .ok (.ok (some outcome), t'))
    (houtcome : outcome = .Finished executed ∨
      ∃ error, outcome = .ExecutionErrorBumpNonce error executed) :
    ∃ s l calls, TellsSurvivors g tx (.new t₁.state t₁.shared_cache substate observer base frame) s
      l calls
      executed t' := by
  obtain ⟨db, saved, w, hrep⟩ := hstate.rep
  rcases transact_inv hrep hrun with ⟨w', hfail, -⟩ |
    ⟨frame', substate', observer', base', w₁, t₁', s, r, hpass, hchecked, hrep₁, hexec⟩
  · rw [hpre] at hfail
    cases hfail
  rw [hpre] at hpass
  cases hpass
  obtain ⟨w₂, hrep₂, htx, -⟩ := hexec.rep hrep₁
  obtain ⟨refunded, executed', w₃, w', hrep', hsettled, hconcluded⟩ := hexec.settled hrep₂
  obtain ⟨l, hl⟩ := FrameStack.exists_chronicle hexec.rounds
  have htx_substate : s.tx_substate.Lists [] := by
    obtain ⟨mode, hmode⟩ := hchecked.substate_eq
    rw [htx, hmode]
    exact Substate.lists_new.unchanged (Substate.grows_set_touched _ _ mode)
  obtain ⟨calls, hcalls, hsurvivors⟩ :=
    hl.survivors rfl hchecked.frame_substate rfl hexec.phase hexec.stack
  have hlists : (s.process_return r).substate.Lists (survivors calls) := hsurvivors htx_substate
  obtain ⟨hlogs, hcreated⟩ := Concluded.records_eq htx_substate hconcluded hsettled houtcome
  refine ⟨s, l, calls, hl, ⟨r, hexec.phase⟩, hexec.stack, fun _ hnext =>
    FrameStack.roundLeaves (round_of_next hnext), hcalls,
    hlogs.trans hlists.logs, hcreated.trans hlists.contracts_created,
    db, saved, w₂, _, w₃, w', hrep₂, hsettled.refund, hrep', fun a => ?_⟩
  have hmem : a ∈ HashOrder.iter (s.process_return r).substate.suicides ↔
      .suicide a ∈ survivors calls :=
    (HashOrder.iter_perm _).mem_iff.trans (hlists.suicides a)
  rw [hsettled.kills, Ledger.accounts_foldl_killed]
  simp only [hmem]

end TXExecutor

end

/-- A hash function that agrees with Keccak-256 on the empty string and on the codes `loggingCaller`
    and `loggingFailure`, for runs on fixed inputs that hash nothing else. -/
@[reducible] def keccakOfLogging : Keccak :=
  ⟨fun bytes => if bytes.length = 0 then
      0xc5d2460186f7233c927e7db2dcc703c0e500b653ca82273b7bfad8045d85a470
    else if bytes.length = 6 then 0xfbbc7610910636e94f7ef8f43dbc91e2e0b05826fc11d797d62ba34d52065224
    else 0x2c119e3878c12e845646d7338977260466b4a8af8bcc0f589f039511fd9ff351⟩

section
attribute [local instance] keccakOfLogging HashOrder.asListed

/-- `LOG0` of nothing, and no instruction then. -/
def loggingFailure : Bytes := [0x60, 0, 0x60, 0, 0xa0, 0xfe]

/-- `LOG0` of nothing, a call of the address 8 and `STOP`. -/
def loggingCaller : Bytes :=
  [0x60, 0, 0x60, 0, 0xa0, 0x60, 0, 0x60, 0, 0x60, 0, 0x60, 0, 0x60, 0, 0x60, 8, 0x61, 0xff,
    0xff, 0xf1, 0]

def loggingContracts : StateDb :=
  { (StateDb.empty.set_account 9 ⟨0, 1, keccak loggingCaller⟩).set_account 8 ⟨0, 1,
    keccak loggingFailure⟩ with
    codes := fun a => if a = 9 then some ⟨loggingCaller⟩
      else if a = 8 then some ⟨loggingFailure⟩ else none }

/-- The log of a frame that fails does not survive. -/
theorem log_of_failure_is_dropped :
    ∃ s₀ s l calls executed t',
      TellsSurvivors bareMachine { stopCall with gas := 200000 } s₀ s l calls executed t' ∧
      executed.logs = [⟨9, [], []⟩] := by
  have hruns : (TXExecutor.transact bareMachine { stopCall with gas := 200000 } 40 untraced).returns
      ⟨.new loggingContracts, .new 100⟩ (fun outcome _ => ExecutionOutcome.finished (fun executed =>
        executed.logs = [⟨9, [], []⟩]) outcome) = true := by
    decide +kernel
  have hpasses : (TXExecutor.transact_preprocessing bareMachine { stopCall with gas := 200000 }
    untraced).returns
      ⟨.new loggingContracts, .new 100⟩ (fun result _ => result.passes fun _ _ _ _ => true) =
          true := by
    decide +kernel
  have hstate : (State.new loggingContracts).Reachable := ⟨loggingContracts, [], _, rfl⟩
  obtain ⟨outcome, t', hrun, hfinished⟩ := exists_of_returns hruns
  obtain ⟨executed, rfl, hlogs⟩ := ExecutionOutcome.exists_of_finished hfinished
  obtain ⟨result, t₁, hpre, hresult⟩ := exists_of_returns hpasses
  obtain ⟨frame, substate, observer, base, rfl, -⟩ := PreCheckResult.exists_of_passes hresult
  obtain ⟨s, l, calls, htells⟩ := TXExecutor.outcome_tells_survivors
    (t := ⟨.new loggingContracts, .new 100⟩) hstate hpre hrun (.inl rfl)
  exact ⟨_, s, l, calls, executed, t', htells, of_decide_eq_true hlogs⟩

end

end CfxEvm
