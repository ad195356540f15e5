import CfxEvm.Execution.Proofs.RunProofs
import CfxEvm.Frame.Proofs.TraceProofs

/-!
# Proofs: the trace of a transaction

The trace begins with the charge for the gas, then comes what the frames have recorded, and at the
end the refund and the removal of the destroyed contracts.
-/

open Lib Lib.Prog

namespace CfxEvm

section
variable [Keccak]

/-! ## The removal of the contracts -/

/-- What is recorded while contracts are removed one after another. -/
def killTransfers : List Address → Ledger → List InternalTransfer
  | [], _ => []
  | a :: l, w => ⟨.Balance a, .MintBurn, w.balanceOf a⟩ :: killTransfers l (w.killed a)

theorem killsObserved_eq (l : List Address) (w : Ledger) (o : MultiObservers) :
    killsObserved l w o = o.shown (killTransfers l w) := by
  induction l generalizing w o with
  | nil => rfl
  | cons a l ih => exact ih (w.killed a) _

/-- What is recorded after the frames: nothing if the transaction could not be paid, else the refund
    and what the destroyed contracts held. -/
inductive Settlement (sender : Address) : List InternalTransfer → Prop
  | none : Settlement sender []
  | refund (value : U256) (kills : List (Address × U256)) :
      Settlement sender (⟨.GasPayment, .Balance sender, value⟩ ::
        kills.map fun (a, v) => ⟨.Balance a, .MintBurn, v⟩)

theorem settlement_kills (sender : Address) (value : U256) (l : List Address) (w : Ledger) :
    Settlement sender (⟨.GasPayment, .Balance sender, value⟩ :: killTransfers l w) := by
  have hkills : ∃ kills : List (Address × U256),
      killTransfers l w = kills.map fun (a, v) => ⟨.Balance a, .MintBurn, v⟩ := by
    induction l generalizing w with
    | nil => exact ⟨[], rfl⟩
    | cons a l ih =>
      obtain ⟨kills, hkills⟩ := ih (w.killed a)
      exact ⟨(a, w.balanceOf a) :: kills, congrArg _ hkills⟩
  obtain ⟨kills, hkills⟩ := hkills
  rw [hkills]
  exact .refund value kills

variable [HashOrder] {g : Globals} {tx : Transaction} {options : TransactOptions}
  {t t' : TxState}

/-! ## The frames around an entry -/

/-- A frame of the transaction with the result `r` has recorded the entry `i`, or was around it when
    it was recorded. -/
def Encloses (g : Globals) (tx : Transaction) (options : TransactOptions) (t : TxState) (i : ℕ)
    (r : Except VmError FrameReturn) : Prop :=
  ∃ frame s s', TXExecutor.Executing g tx options t s ∧ s.phase = .Enter frame ∧
    FrameStack.FrameRun g s r s' ∧ s.traced ≤ i ∧ i < s'.traced

/-- What the trace of a transaction tells. -/
structure TraceTells (g : Globals) (tx : Transaction) (options : TransactOptions) (t : TxState)
    (entries : List ExecTrace) : Prop where
  /-- An entry is valid just if the frames around it, its own included, were applied. -/
  valid : ∀ i e, entries[i]? = some e →
    (e.valid = true ↔ ∀ r, Encloses g tx options t i r → frame_applied r = true)
  /-- The transfers of the transaction itself are valid, and no frame is around them. -/
  transfers : ∃ cost inner settlement,
    entries = InternalTransfer.entry ⟨.Balance tx.sender, .GasPayment, cost⟩ :: inner ++
      settlement.map InternalTransfer.entry ∧ Settlement tx.sender settlement ∧
    ∀ i r, Encloses g tx options t i r → 1 ≤ i ∧ i < 1 + inner.length
  /-- Each frame has its action, what was recorded in it, and a result of its kind. -/
  bracketed : Marked true entries
  /-- What was recorded first comes first. -/
  order : ∀ s, TXExecutor.Executing g tx options t s →
    s.recordedActions <+: entries.map ExecTrace.action

/-- While the frames run, each result that is recorded has a checkpoint to close. -/
def ClosesCheckpoints (g : Globals) (tx : Transaction) (options : TransactOptions) (t : TxState) :
    Prop :=
  ∀ s frame exec result h₁ fin h₂ substate h₃, TXExecutor.Executing g tx options t s →
    s.phase = .Execute frame exec →
    (exec.step g frame.context).run s.host = .ok (.ok (.Output (.Return result)), h₁) →
    (finalize g frame.context result).run h₁ = .ok (fin, h₂) →
    (frame.close (applied fin)).run h₂ = .ok (.ok substate, h₃) → h₃.observer.CheckpointOpen

namespace TXExecutor

omit [HashOrder] in
/-- What the tracer has recorded when the frames begin to run. -/
theorem Prechecked.observer_eq {w w₁ : Ledger} {frame : CallCreateFrame} {substate : Substate}
    {observer : MultiObservers} {base : ℕ}
    (h : Prechecked g tx options w (.Pass frame substate observer base) w₁) :
    ∃ cost, observer = options.observer.shown [⟨.Balance tx.sender, .GasPayment, cost⟩] := by
  cases h with
  | @pass frame mode base cost => exact ⟨cost, rfl⟩

variable {cost : U256} {t₁ : TxState} {substate : Substate} {observer : MultiObservers} {base n : ℕ}
  {frame : CallCreateFrame} {s : FrameStack}

/-- The log while the frames of a transaction run. -/
theorem traced_of_charged (htracer : options.observer.tracer = some .default)
    (hobserver : observer = options.observer.shown [⟨.Balance tx.sender, .GasPayment, cost⟩])
    (hsteps : Steps (FrameStack.step g)
      n (.new t₁.state t₁.shared_cache substate observer base frame) s) :
    ∃ base' parts, FrameStack.Traced g
      (.new t₁.state t₁.shared_cache substate observer base frame) n base' parts s := by
  obtain ⟨t₀, ht₀, hlog₀⟩ := MultiObservers.log_shown htracer .default
    [⟨.Balance tx.sender, .GasPayment, cost⟩]
  rw [← hobserver] at ht₀
  refine FrameStack.traced_of_steps ht₀ hlog₀ (Marked.nil.transfers [_]) ?_ rfl hsteps
  exact FrameStack.valid_transfers [_]

/-- The stacks that are reached while the transaction is executed are those reached from the
    first. -/
theorem executing_iff
    (hpre : (transact_preprocessing g tx options).run t =
      .ok (.ok (.Pass frame substate observer base), t₁)) (s : FrameStack) :
    Executing g tx options t s ↔ Rounds (FrameStack.step g)
      (.new t₁.state t₁.shared_cache substate observer base frame) s := by
  constructor
  · rintro ⟨frame', substate', observer', base', t₁', hpre', hrounds⟩
    rw [hpre] at hpre'
    cases hpre'
    exact hrounds
  · exact fun hrounds => ⟨frame, substate, observer, base, t₁, hpre, hrounds⟩

/-- When the frames have come to their end, those around an entry are those that cover it. -/
theorem encloses_iff
    (hpre : (transact_preprocessing g tx options).run t =
      .ok (.ok (.Pass frame substate observer base), t₁))
    (hsteps : Steps (FrameStack.step g) n
      (.new t₁.state t₁.shared_cache substate observer base frame) s)
    (hlast : ∀ s', ¬Next (FrameStack.step g) s s') (i : ℕ) (r : Except VmError FrameReturn) :
    Encloses g tx options t i r ↔
      FrameStack.Covers g (.new t₁.state t₁.shared_cache substate observer base frame) n i r := by
  constructor
  · rintro ⟨frame', s₁, s₂, hexecuting, hphase, ⟨hinside, hlen, hret⟩, hle, hlt⟩
    obtain ⟨m, hm⟩ := ((executing_iff hpre s₁).mp hexecuting).steps
    obtain ⟨k, hk⟩ := FrameStack.within_of_inside hinside
    exact ⟨_, m, k, s₁, s₂, hsteps.le_of_last hlast (hm.trans hk.steps),
      ⟨hm, ⟨frame', hphase⟩, rfl, hk⟩, hlen, hret, hle, hlt⟩
  · rintro ⟨d, m, k, s₁, s₂, -, hentered, hlen, hret, hle, hlt⟩
    obtain ⟨frame', hphase⟩ := hentered.phase
    obtain rfl := hentered.depth
    exact ⟨frame', s₁, s₂, (executing_iff hpre s₁).mpr hentered.reached.rounds, hphase,
      ⟨hentered.within.inside, hlen, hret⟩, hle, hlt⟩

theorem recordsMore_of_rounds {s₁ s₂ : FrameStack} (h : Rounds (FrameStack.step g) s₁ s₂) :
    s₁.recordedActions <+: s₂.recordedActions := by
  induction h with
  | refl => exact List.prefix_rfl
  | tail _ hnext ih => exact ih.trans (recordsMore_of_round (round_of_next hnext))

theorem no_next_of_returned {r : Except VmError FrameReturn}
    (hphase : s.phase = .LastRes (.Return r))
    (hstack : s.frame_stack = []) (s' : FrameStack) : ¬Next (FrameStack.step g) s s' := by
  intro hnext
  cases round_of_next hnext with
  | enter hp => simp [hphase] at hp
  | go_on hp => simp [hphase] at hp
  | returns hp => simp [hphase] at hp
  | traps hp => simp [hphase] at hp
  | calls hp => simp [hphase] at hp
  | resumes _ hs => simp [hstack] at hs

omit [Keccak] [HashOrder] in
/-- What has been recorded before the frames begin to run is the charge. -/
theorem actions_of_charged (htracer : options.observer.tracer = some .default)
    (hobserver : observer = options.observer.shown [⟨.Balance tx.sender, .GasPayment, cost⟩]) :
    (FrameStack.new t₁.state t₁.shared_cache substate observer base frame).recordedActions =
      [.InternalTransferAction (.Balance tx.sender) .GasPayment cost] := by
  show observer.actions = _
  rw [hobserver, MultiObservers.actions]
  show ((options.observer.tracer.map _).map _).getD [] = _
  rw [htracer]
  rfl

/-- The stacks that are reached are on the way to the last one. -/
theorem actions_of_executing
    (hpre : (transact_preprocessing g tx options).run t =
      .ok (.ok (.Pass frame substate observer base), t₁))
    (hsteps : Steps (FrameStack.step g) n
      (.new t₁.state t₁.shared_cache substate observer base frame) s)
    (hlast : ∀ s', ¬Next (FrameStack.step g) s s') {s₁ : FrameStack}
    (hs₁ : Executing g tx options t s₁) : s₁.recordedActions <+: s.recordedActions := by
  obtain ⟨m, hm⟩ := ((executing_iff hpre s₁).mp hs₁).steps
  obtain ⟨k, rfl⟩ := Nat.exists_eq_add_of_le (hsteps.le_of_last hlast hm)
  obtain ⟨s₁', hm', hk⟩ := hsteps.split
  obtain rfl := hm.unique hm'
  exact recordsMore_of_rounds hk.rounds

/-- What the tracer has recorded when the frames of a transaction have come to their end. -/
structure Recorded (g : Globals) (tx : Transaction) (options : TransactOptions) (t : TxState)
    (s : FrameStack) (entries : List ExecTrace) : Prop where
  log : ∃ tracer, s.host.observer.tracer = some tracer ∧ tracer.Log entries []
  marked : Marked true entries
  order : ∀ s₁, Executing g tx options t s₁ → s₁.recordedActions <+: entries.map ExecTrace.action
  spans : ∀ i r, Encloses g tx options t i r → 1 ≤ i ∧ i < entries.length
  valid : ∀ l, (∀ e ∈ l, e.valid = true) → ∀ i e, (entries ++ l)[i]? = some e →
    (e.valid = true ↔ ∀ r, Encloses g tx options t i r → frame_applied r = true)

theorem recorded_of_executes {outcome : ExecutionOutcome} {r : Except VmError FrameReturn}
    (htracer : options.observer.tracer = some .default)
    (hpre : (transact_preprocessing g tx options).run t =
      .ok (.ok (.Pass frame substate observer base), t₁))
    (hobserver : observer = options.observer.shown [⟨.Balance tx.sender, .GasPayment, cost⟩])
    (hexec : Executes g tx t₁ substate observer base frame s r outcome t') :
    ∃ entries, Recorded g tx options t s entries := by
  obtain ⟨n, hsteps⟩ := hexec.rounds.steps
  have hlast := no_next_of_returned (g := g) hexec.phase hexec.stack
  obtain ⟨entries, parts, htraced⟩ := traced_of_charged htracer hobserver hsteps
  -- No frame is live, so that all parts are closed.
  have hnil : parts = [] := by
    have hopened := htraced.opened
    rw [FrameStack.live, hexec.phase, hexec.stack] at hopened
    cases parts with
    | nil => rfl
    | cons part parts => exact hopened.elim
  subst hnil
  obtain ⟨tracer, ht, hlog⟩ := htraced.log
  have hactions : s.recordedActions = entries.map ExecTrace.action := by
    rw [FrameStack.recordedActions, MultiObservers.actions, ht]
    exact hlog.traces
  refine ⟨entries, ⟨tracer, ht, hlog⟩, htraced.marked, fun s₁ hs₁ => ?_, fun i r hr => ?_,
    fun l hl i e he => ?_⟩
  · rw [← hactions]
    exact actions_of_executing hpre hsteps hlast hs₁
  · have hcovers := (encloses_iff hpre hsteps hlast i r).mp hr
    refine ⟨?_, htraced.marks.covered i r hcovers⟩
    obtain ⟨d, m, k, s₁, s₂, -, hentered, -, -, hle, -⟩ := hcovers
    have hmore := (recordsMore_of_rounds hentered.reached.rounds).length_le
    rw [actions_of_charged htracer hobserver] at hmore
    exact hmore.trans hle
  · simp only [encloses_iff hpre hsteps hlast]
    exact (htraced.marks.append hl).valid i e he

/-- The first entry is the charge. -/
theorem Recorded.charged {entries : List ExecTrace} (h : Recorded g tx options t s entries)
    (htracer : options.observer.tracer = some .default)
    (hpre : (transact_preprocessing g tx options).run t =
      .ok (.ok (.Pass frame substate observer base), t₁))
    (hobserver : observer = options.observer.shown [⟨.Balance tx.sender, .GasPayment, cost⟩]) :
    ∃ inner, entries = InternalTransfer.entry ⟨.Balance tx.sender, .GasPayment, cost⟩ :: inner := by
  have hstart := h.order _ ((executing_iff hpre _).mpr .refl)
  rw [actions_of_charged htracer hobserver] at hstart
  rcases entries with _ | ⟨e, inner⟩
  · exact absurd hstart.length_le (by simp)
  · obtain ⟨haction, -⟩ := List.cons_prefix_cons.mp hstart
    have hfirst : e.valid = true := by
      refine (h.valid [] (fun _ he => (nomatch he)) 0 e rfl).mpr fun r hr => ?_
      exact absurd (h.spans 0 r hr).1 (by decide)
    refine ⟨inner, congrArg (· :: inner) ?_⟩
    obtain ⟨action, valid⟩ := e
    cases haction
    cases hfirst
    rfl

/-- After the frames the refund and the removal of the contracts are recorded. -/
theorem Recorded.tells {entries : List ExecTrace} {settlement : List InternalTransfer}
    (h : Recorded g tx options t s entries) (hsettlement : Settlement tx.sender settlement)
    (htracer : options.observer.tracer = some .default)
    (hpre : (transact_preprocessing g tx options).run t =
      .ok (.ok (.Pass frame substate observer base), t₁))
    (hobserver : observer = options.observer.shown [⟨.Balance tx.sender, .GasPayment, cost⟩]) :
    TraceTells g tx options t (s.host.observer.shown settlement).drain := by
  obtain ⟨tracer, ht, hlog⟩ := h.log
  obtain ⟨tracer', ht', hlog'⟩ := MultiObservers.log_shown ht hlog settlement
  have hdrain : (s.host.observer.shown settlement).drain =
      entries ++ settlement.map InternalTransfer.entry := by
    rw [MultiObservers.drain, ht']
    exact hlog'.drain
  obtain ⟨inner, hentries⟩ := h.charged htracer hpre hobserver
  rw [hdrain]
  refine ⟨h.valid _ (FrameStack.valid_transfers settlement), ?_, h.marked.transfers settlement,
    fun s₁ hs₁ => ?_⟩
  · refine ⟨cost, inner, settlement, by rw [hentries], hsettlement, fun i r hr => ?_⟩
    have hspans := h.spans i r hr
    rw [hentries, List.length_cons, Nat.add_comm] at hspans
    exact hspans
  · rw [List.map_append]
    exact (h.order s₁ hs₁).trans (List.prefix_append _ _)

/-- A transaction that cannot be paid is charged, and no frame is run. -/
theorem tells_of_unpaid {outcome : ExecutionOutcome}
    (htracer : options.observer.tracer = some .default)
    (hpre : (transact_preprocessing g tx options).run t = .ok (.ok (.Fail outcome), t'))
    (cost : U256) :
    TraceTells g tx options t (options.observer.trace_internal_transfer (.Balance tx.sender)
      .GasPayment cost).drain := by
  have hnone : ∀ s, ¬Executing g tx options t s := by
    rintro s ⟨frame, substate, observer, base, t₁, hpass, -⟩
    rw [hpre] at hpass
    cases hpass
  have hdrain : (options.observer.trace_internal_transfer (.Balance tx.sender) .GasPayment
    cost).drain =
      [InternalTransfer.entry ⟨.Balance tx.sender, .GasPayment, cost⟩] := by
    rw [MultiObservers.drain, MultiObservers.trace_internal_transfer, htracer]
    rfl
  have hencloses : ∀ i r, ¬Encloses g tx options t i r := by
    rintro i r ⟨frame, s, s', hs, -⟩
    exact hnone s hs
  rw [hdrain]
  refine ⟨fun i e he => ?_, ⟨cost, [], [], rfl, .none, fun i r hr => absurd hr (hencloses i r)⟩,
    Marked.nil.transfers [_], fun s hs => absurd hs (hnone s)⟩
  refine iff_of_true ?_ fun r hr => absurd hr (hencloses i r)
  exact FrameStack.valid_transfers [_] e (List.mem_of_getElem? he)

omit [Keccak] [HashOrder] in
/-- The trace in the outcome is the one that was drained. -/
theorem Concluded.trace_eq {executed executed' : Executed} {outcome : ExecutionOutcome}
    {result : Except VmError FinalizationResult} (h : Concluded tx executed result outcome)
    (houtcome : outcome = .Finished executed' ∨
      ∃ error, outcome = .ExecutionErrorBumpNonce error executed') :
    executed'.trace = executed.trace := by
  cases h <;> rcases houtcome with h | ⟨_, h⟩ <;> cases h <;> rfl

theorem closesCheckpoints {db : StateDb} {saved : List Ledger} {w : Ledger}
    (htracer : options.observer.tracer = some .default) (hrep : Rep db saved t.state w) :
    ClosesCheckpoints g tx options t := by
  rintro s frame exec result h₁ fin h₂ substate h₃ ⟨top, substate₀, observer, base, t₁,
    hpre, hrounds⟩
    hphase hrun hfin hclose
  obtain ⟨w₁, -, hok, -⟩ := wp_of_run (transact_preprocessing_spec hrep) hpre
  obtain ⟨cost, hobserver⟩ := (hok _ rfl).observer_eq
  obtain ⟨n, hsteps⟩ := hrounds.steps
  obtain ⟨entries, parts, htraced⟩ := traced_of_charged htracer hobserver hsteps
  exact htraced.checkpointOpen hphase hrun hfin hclose

/-- The trace of a transaction tells what was applied. Its entries are in the order in which they
    were recorded, and actions and results are bracketed; an entry is valid just if all frames
    around it were applied, and the transfers of the transaction itself are always valid. Whenever
    the result of a frame is recorded, there is a checkpoint to close. -/
theorem trace_tells_what_was_applied (hstate : t.state.Reachable)
    (htracer : options.observer.tracer = some .default) :
    (∀ fuel outcome t' executed,
      (transact g tx fuel options).run t = .ok (.ok (some outcome), t') →
      (outcome = .Finished executed ∨ ∃ error, outcome = .ExecutionErrorBumpNonce error executed) →
      TraceTells g tx options t executed.trace) ∧
    ClosesCheckpoints g tx options t := by
  obtain ⟨db, saved, w, hrep⟩ := hstate.rep
  refine ⟨fun fuel outcome t' executed hrun houtcome => ?_, closesCheckpoints htracer hrep⟩
  rcases transact_inv hrep hrun with ⟨w', hpre, hchecked, -⟩ |
    ⟨frame, substate, observer, base, w₁, t₁, s, r, hpre, hchecked, hrep₁, hexec⟩
  · cases hchecked with
    | old_nonce => rcases houtcome with h | ⟨_, h⟩ <;> cases h
    | base_gas => rcases houtcome with h | ⟨_, h⟩ <;> cases h
    | reconsider => rcases houtcome with h | ⟨_, h⟩ <;> cases h
    | @not_enough_cash cost =>
      rcases houtcome with h | ⟨_, h⟩ <;> cases h
      exact tells_of_unpaid htracer hpre cost
  · obtain ⟨cost, hobserver⟩ := hchecked.observer_eq
    obtain ⟨w₂, hrep₂, -⟩ := hexec.rep hrep₁
    obtain ⟨refunded, settled, w₃, w', -, hsettled, hconcluded⟩ := hexec.settled hrep₂
    obtain ⟨entries, hrecorded⟩ := recorded_of_executes htracer hpre hobserver hexec
    rw [hconcluded.trace_eq houtcome, hsettled.trace, killsObserved_eq]
    exact hrecorded.tells (settlement_kills _ _ _ _) htracer hpre hobserver

end TXExecutor

end

/-- A hash function that agrees with Keccak-256 on the empty string, on the code `0xfe` and on what
    the first contract address of the sender 7 is made from, for runs on fixed inputs that hash
    nothing else. -/
@[reducible] def keccakOfCreation : Keccak :=
  ⟨fun bytes => if bytes.length = 0 then
      0xc5d2460186f7233c927e7db2dcc703c0e500b653ca82273b7bfad8045d85a470
    else if bytes.length = 1 then 0xbcc90f2d6dada5b18e155c17a1c0a55920aae94f39857d39d0d8ed07ae8f228b
    else 0x732b9606b0a66ff7d8685fe219ce7f43ac7dc33671410195d62df671bd9f99e8⟩

section
attribute [local instance] keccakOfCreation HashOrder.asListed

/-- A creation whose code is no instruction. -/
def brokenCreation : Transaction where
  sender := 7
  nonce := 0
  gas := 100000
  gas_price := 0
  data := [0xfe]
  action := .Create
  value := 0

def tracing : TransactOptions := ⟨.with_tracing, ⟨true, false⟩⟩

/-- In the trace of a creation that fails only the transfers of the transaction are valid. -/
theorem broken_creation_is_not_valid :
    ∃ error executed t', (TXExecutor.transact bareMachine brokenCreation 4 tracing).run
        ⟨.new .empty, .new 0⟩ = .ok (.ok (some (.ExecutionErrorBumpNonce error executed)), t') ∧
      executed.trace.map ExecTrace.valid = [true, false, false, true] ∧
      TraceTells bareMachine brokenCreation tracing ⟨.new .empty, .new 0⟩ executed.trace := by
  have hruns : (TXExecutor.transact bareMachine brokenCreation 4 tracing).returns
      ⟨.new .empty, .new 0⟩ (fun outcome _ => ExecutionOutcome.bumped
        (fun executed => executed.trace.map ExecTrace.valid = [true, false, false, true]) outcome) =
      true := by decide +kernel
  have hstate : (State.new .empty).Reachable := ⟨.empty, [], _, rfl⟩
  obtain ⟨outcome, t', hrun, hbumped⟩ := exists_of_returns hruns
  obtain ⟨error, executed, rfl, hvalid⟩ := ExecutionOutcome.exists_of_bumped hbumped
  have htells := (@TXExecutor.trace_tells_what_was_applied _ _ bareMachine brokenCreation tracing
    ⟨.new .empty, .new 0⟩ hstate rfl).1 4 _ t' executed hrun (.inr ⟨error, rfl⟩)
  exact ⟨error, executed, t', hrun, of_decide_eq_true hvalid, htells⟩

end

end CfxEvm
