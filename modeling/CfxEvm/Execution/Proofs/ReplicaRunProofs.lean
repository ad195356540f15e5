import CfxEvm.Execution.Proofs.HashOrderProofs
import CfxEvm.Execution.Proofs.OwnJumpProofs
import CfxEvm.Execution.Proofs.TokenConservationProofs
import CfxEvm.Execution.Runs
import CfxEvm.Frame.Proofs.ReplicaProofs

/-!
# Proofs: replicas agree

Two processes with the same ledger execute the same transactions. Whatever they keep in their
caches, in whatever order they go through their hash maps, and whoever observes the execution, they
come to the same outcomes and to the same ledger.
-/

open Lib Lib.Prog

namespace CfxEvm

section

/-! ## What the observers add -/

/-- The part of what was executed that is not due to an observer. -/
def Executed.unobserved (e : Executed) : Executed :=
    { e with trace := [], estimated_gas_limit := none }

def ExecutionOutcome.unobserved : ExecutionOutcome → ExecutionOutcome
  | .NotExecutedDrop error => .NotExecutedDrop error
  | .NotExecutedToReconsiderPacking error => .NotExecutedToReconsiderPacking error
  | .ExecutionErrorBumpNonce error executed => .ExecutionErrorBumpNonce error executed.unobserved
  | .Finished executed => .Finished executed.unobserved

/-- The outcomes are the same but for what the observers add. -/
def ExecutionOutcome.SameUnobserved (o o' : ExecutionOutcome) : Prop := o.unobserved = o'.unobserved

variable [Keccak] {codeOf : H256 → Bytes} {db db' : StateDb} {E : Panic → Prop} {g : Globals}
  {tx : Transaction}

/-- The states show the same ledger, and the caches of jump destinations are faithful. -/
structure TxState.Replicas (codeOf : H256 → Bytes) (db db' : StateDb) (t t' : TxState) : Prop where
  state : State.Replicas db db' t.state t'.state
  cache : t.shared_cache.Faithful codeOf
  cache' : t'.shared_cache.Faithful codeOf

/-- The checks come to the same; nothing is said about the observers. -/
inductive PreCheckResult.Replicas : PreCheckResult → PreCheckResult → Prop
  | pass (frame : CallCreateFrame) (substate : Substate) (observer observer' : MultiObservers)
    (base : ℕ) :
    Replicas (.Pass frame substate observer base) (.Pass frame substate observer' base)
  | fail {outcome outcome' : ExecutionOutcome} (h : outcome.SameUnobserved outcome') :
    Replicas (.Fail outcome) (.Fail outcome')

namespace TXExecutor

theorem onState_blind {α : Type} {x : StateM α} {y : LedgerM α} (h : StateRefines x y) :
    Blind E (TxState.Replicas codeOf db db') (onState x) :=
  Alike.zoom h.blind (fun _ _ hr => hr.state) fun _ _ _ _ hr hs => { hr with state := hs }

/-! ## Checks -/

theorem top_frame_blind (nonce init_gas : U256) :
    Blind E (TxState.Replicas codeOf db db') (top_frame g tx nonce init_gas) := by
  unfold top_frame
  cases tx.action with
  | Create => exact .pure rfl
  | Call address =>
    exact .seq (onState_blind (code_refines _)) fun _ =>
      .seq (onState_blind (code_hash_refines _)) fun _ =>
      .pure rfl

section
variable {options options' : TransactOptions}
  (hsettings : options.check_settings = options'.check_settings)
include hsettings

theorem not_enough_cash_alike (gas_cost sender_balance total_cost : U512) :
    Alike E (TxState.Replicas codeOf db db') PreCheckResult.Replicas
      (not_enough_cash g tx options gas_cost sender_balance total_cost)
      (not_enough_cash g tx options' gas_cost sender_balance total_cost) := by
  unfold not_enough_cash
  rw [hsettings]
  refine .seq (.expect _ _) fun _ => .seq (onState_blind (exists_refines _)) fun _ =>
    .ite (fun _ => .pure (.fail rfl)) fun _ => ?_
  exact .seq (onState_blind (inc_nonce_refines _ _)) fun _ =>
    .seq (onState_blind (sub_balance_refines _ _ _)) fun _ => .pure (.fail rfl)

omit hsettings in
theorem charge_alike (nonce : U256) (base_gas_required : ℕ) (gas_cost : U512) :
    Alike E (TxState.Replicas codeOf db db') PreCheckResult.Replicas
      (charge g tx options nonce base_gas_required gas_cost)
      (charge g tx options' nonce base_gas_required gas_cost) :=
  .seq (onState_blind (inc_nonce_refines _ _)) fun _ => .seq (.expect _ _) fun _ =>
    .seq (onState_blind (sub_balance_refines _ _ _)) fun _ => .seq (.expect _ _) fun _ =>
    .seq (top_frame_blind _ _) fun _ => .pure (.pass _ _ _ _ _)

theorem transact_preprocessing_alike :
    Alike E (TxState.Replicas codeOf db db') PreCheckResult.Replicas
      (transact_preprocessing g tx options)
      (transact_preprocessing g tx options') := by
  have hcost : gas_cost tx options = gas_cost tx options' := by
    unfold gas_cost
    rw [hsettings]
  unfold transact_preprocessing
  rw [hcost]
  refine .seq (onState_blind (nonce_refines _)) fun nonce =>
    .ite (fun _ => .pure (.fail rfl)) fun _ =>
    .ite (fun _ => .pure (.fail rfl)) fun _ => .seq (.expect _ _) fun base =>
    .ite (fun _ => .seq (.expect _ _) fun _ => .pure (.fail rfl)) fun _ =>
    .seq (onState_blind (balance_refines _)) fun balance => .seq (.expect _ _) fun total_cost =>
    .ite (fun _ => not_enough_cash_alike hsettings _ _ _) fun _ => charge_alike _ _ _

end

/-! ## Settlement -/

/-- Destroyed contracts leave the cache of jump destinations alone. -/
theorem kills_shared_cache (l : List Address) (observer : MultiObservers) :
    Keeps (fun t t' : TxState => t'.shared_cache = t.shared_cache) (l.foldlM kill observer) := by
  have : IsPreorder TxState fun t t' : TxState => t'.shared_cache = t.shared_cache :=
    { refl := fun _ => rfl, trans := fun _ _ _ h h' => h'.trans h }
  have hstate : ∀ {α : Type} (x : StateM α),
      Keeps (fun t t' : TxState => t'.shared_cache = t.shared_cache) (onState x) := fun x =>
    .zoom (R := fun _ _ => True) (fun _ => wp_intro (fun _ _ => trivial) fun _ _ _ => trivial)
      fun _ _ _ => rfl
  induction l generalizing observer with
  | nil => exact .pure _
  | cons a l ih =>
    rw [List.foldlM_cons]
    refine .bind ?_ fun observer => ih observer
    exact .bind (hstate _) fun _ => .bind (hstate _) fun _ => .bind (hstate _) fun _ => .pure _

/-- Destroyed contracts may be removed in any order. -/
theorem kill_process_alike (O O' : HashOrder) (suicides : List Address)
    (observer observer' : MultiObservers) :
    Alike E (TxState.Replicas codeOf db db') (fun _ _ => True) (@kill_process _ O suicides observer)
      (@kill_process _ O' suicides observer') := by
  rintro t t' ⟨⟨saved, w, hrep, hrep'⟩, hcache, hcache'⟩
  have hperm : (@HashOrder.iter O _ suicides).Perm (@HashOrder.iter O' _ suicides) :=
    (O.iter_perm suicides).trans (O'.iter_perm suicides).symm
  obtain ⟨r, t₁, hrun, hrep₁, rfl⟩ := exists_run_of_wp
    (kills_spec (@HashOrder.iter O _ suicides) observer hrep)
  obtain ⟨r', t₁', hrun', hrep₁', rfl⟩ := exists_run_of_wp
    (kills_spec (@HashOrder.iter O' _ suicides) observer' hrep')
  have hsame := (kills_shared_cache _ observer).of_run hrun
  have hsame' := (kills_shared_cache _ observer').of_run hrun'
  unfold kill_process
  rw [hrun, hrun']
  refine .returns (.ok trivial) ⟨⟨saved, _, hrep₁, ?_⟩, ?_, ?_⟩
  · rw [Ledger.kills_perm hperm]
    exact hrep₁'
  · rw [hsame]
    exact hcache
  · rw [hsame']
    exact hcache'

theorem outcome_alike (result : Except VmError FinalizationResult) {executed executed' : Executed}
    (h : executed.unobserved = executed'.unobserved) :
    Alike E (TxState.Replicas codeOf db db') ExecutionOutcome.SameUnobserved
      (outcome tx result executed)
      (outcome tx result executed') := by
  unfold outcome
  split
  · exact .fail _
  · exact .pure rfl
  · exact .ite (fun _ => .pure (congrArg ExecutionOutcome.Finished h)) fun _ =>
      .pure (congrArg (ExecutionOutcome.ExecutionErrorBumpNonce _) h)

omit [Keccak] in
/-- An estimate that overflows is a panic of the observer. -/
theorem estimate_still (output : FrameStackOutput) (t : TxState) :
    wp (estimate output) ObserverPanic (fun r t' => t' = t ∧ ∃ limit, r = .ok limit) t := by
  unfold estimate
  cases output.observer.gas_man with
  | none => exact ⟨rfl, _, rfl⟩
  | some m => exact wp_bind.mpr (wp_expect (fun _ => trivial) fun _ _ => ⟨rfl, _, rfl⟩)

theorem transact_postprocessing_alike (O O' : HashOrder) {output output' : FrameStackOutput}
    (h : output.Replicas output') :
    Alike ObserverPanic (TxState.Replicas codeOf db db') ExecutionOutcome.SameUnobserved
      (@transact_postprocessing _ g tx O output) (@transact_postprocessing _ g tx O' output') := by
  obtain ⟨result, substate, observer, base⟩ := output
  obtain ⟨_, _, observer', _⟩ := output'
  obtain ⟨rfl, rfl, rfl⟩ := h
  have hbytes : Blind ObserverPanic (TxState.Replicas codeOf db db') (output_bytes result) := by
    unfold output_bytes
    cases result with
    | error e => exact .pure rfl
    | ok res => exact .expect _ _
  have hestimate : Alike ObserverPanic (TxState.Replicas codeOf db db') (fun _ _ => True)
      (estimate ⟨result, substate, observer, base⟩)
      (estimate ⟨result, substate, observer', base⟩) :=
    .of_still (estimate_still _) (estimate_still _)
  have hsettle : Blind ObserverPanic (TxState.Replicas codeOf db db')
      (settle tx (gas_left result)) :=
    .seq (.expect _ _) fun _ => .seq (.expect _ _) fun _ => .seq (.expect _ _) fun _ =>
      .ite (fun _ => .seq (.expect _ _) fun _ => .pure rfl) fun _ => .pure rfl
  refine .seq hbytes fun bytes => hestimate.bind fun limit limit' _ => .seq hsettle fun settled =>
    .seq (onState_blind (add_balance_refines _ _ _ _)) fun mode => ?_
  exact (kill_process_alike O O' _ _ _).bind fun _ _ _ => outcome_alike _ rfl

/-! ## Whole transactions -/

section
variable {options options' : TransactOptions} {t t' : TxState}

/-- So do the frames of a transaction. -/
theorem run_frames_alike (O O' : HashOrder) (hr : t.Replicas codeOf db db' t') (substate : Substate)
    (observer observer' : MultiObservers) (base : ℕ) (frame : CallCreateFrame)
    (hnamed : ∀ s, Rounds (@FrameStack.step _ O g)
      (.new t.state t.shared_cache substate observer base frame) s → s.Named codeOf) (fuel : ℕ) :
    OutcomeAlike ObserverPanic (TxState.Replicas codeOf db db')
      (OptionRel FrameStackOutput.Replicas)
      ((@run_frames _ g O fuel substate observer base frame).run t)
      ((@run_frames _ g O' fuel substate observer' base frame).run t') := by
  have hhosts : Host.Replicas codeOf db db' ⟨t.state, .new, .new, observer, t.shared_cache⟩
      ⟨t'.state, .new, .new, observer', t'.shared_cache⟩ :=
        ⟨hr.state, rfl, rfl, hr.cache, hr.cache'⟩
  have hloop := Alike.loop (fun s s' hr hs => round_alike O O' hr hs) fuel
    (.new t.state t.shared_cache substate observer base frame)
    (.new t'.state t'.shared_cache substate observer' base frame) ⟨hhosts, rfl, rfl,
      rfl, rfl⟩ hnamed
  unfold run at hloop
  unfold run run_frames FrameStack.exec Prog.zoom
  dsimp only
  generalize loop (@FrameStack.step _ O g) fuel _ = o,
    loop (@FrameStack.step _ O' g) fuel _ = o' at hloop
  cases hloop with
  | panic p => exact .panic p
  | left h o => exact .left h _
  | right h o => exact .right h _
  | returns h hs => exact .returns h ⟨hs.host.state, hs.host.cache, hs.host.cache'⟩

/-- A transaction ends in the same way on replicas, unless an observer panics. -/
theorem transact_alike (O O' : HashOrder)
    (hsettings : options.check_settings = options'.check_settings)
    (hr : t.Replicas codeOf db db' t')
    (hnamed : ∀ s, @Executing _ O g tx options t s → s.Named codeOf) (fuel : ℕ) :
    OutcomeAlike ObserverPanic (TxState.Replicas codeOf db db')
      (OptionRel ExecutionOutcome.SameUnobserved)
      ((@transact _ g tx O fuel options).run t) ((@transact _ g tx O' fuel options').run t') := by
  have hpre : Alike ObserverPanic (TxState.Replicas codeOf db db') PreCheckResult.Replicas
      (transact_preprocessing g tx options) (transact_preprocessing g tx options') :=
    transact_preprocessing_alike hsettings
  have hpre := hpre t t' hr
  have hnamed : ∀ frame substate observer base t₁,
      (transact_preprocessing g tx options).run t =
        .ok (.ok (.Pass frame substate observer base), t₁) →
      ∀ s, Rounds (@FrameStack.step _ O g)
        (.new t₁.state t₁.shared_cache substate observer base frame) s →
        s.Named codeOf :=
    fun frame substate observer base t₁ hrun s hs =>
      hnamed s ⟨frame, substate, observer, base, t₁, hrun, hs⟩
  unfold transact
  rw [run_bind, run_bind]
  generalize (transact_preprocessing g tx options).run t = o,
    (transact_preprocessing g tx options').run t' = o' at hpre hnamed
  cases hpre with
  | panic p => exact .panic p
  | left h o => exact .left h _
  | right h o => exact .right h _
  | @returns r r' t₁ t₁' h hr₁ =>
    cases h with
    | error e => exact .returns (.error e) hr₁
    | ok h =>
      cases h with
      | fail h => exact .returns (.ok (.some h)) hr₁
      | pass frame substate observer observer' base =>
        have hframes := run_frames_alike O O' hr₁ substate observer observer' base frame
          (hnamed frame substate observer base t₁ rfl) fuel
        dsimp only
        rw [run_bind, run_bind]
        generalize (@run_frames _ g O fuel substate observer base frame).run t₁ = o,
          (@run_frames _ g O' fuel substate observer' base frame).run t₁' = o' at hframes
        cases hframes with
        | panic p => exact .panic p
        | left h o => exact .left h _
        | right h o => exact .right h _
        | @returns r r' t₂ t₂' h hr₂ =>
          cases h with
          | error e => exact .returns (.error e) hr₂
          | ok h =>
            cases h with
            | none => exact .returns (.ok .none) hr₂
            | some h =>
              exact ((transact_postprocessing_alike O O' h).bind fun _ _ h =>
                .pure (.some h)) _ _ hr₂

/-- More rounds than needed change nothing. -/
theorem run_transact_of_le {_ : HashOrder} {fuel fuel' : ℕ} {outcome : ExecutionOutcome}
    (h : (transact g tx fuel options).run t = .ok (.ok (some outcome), t')) (hle : fuel ≤ fuel') :
    (transact g tx fuel' options).run t = .ok (.ok (some outcome), t') := by
  obtain ⟨result, t₁, hpre, hrest⟩ := run_bind_eq_ok.mp h
  refine run_bind_eq_ok.mpr ⟨result, t₁, hpre, ?_⟩
  cases result with
  | Fail outcome => exact hrest
  | Pass frame substate observer base =>
    obtain ⟨output, t₂, hframes, hrest⟩ := run_bind_eq_ok.mp hrest
    cases output with
    | none => cases hrest
    | some output =>
      refine run_bind_eq_ok.mpr ⟨some output, t₂, ?_, hrest⟩
      obtain ⟨s, hloop, rfl⟩ := run_zoom_eq_ok.mp hframes
      exact run_zoom_eq_ok.mpr ⟨s, run_loop_of_le hloop hle, rfl⟩

/-- What the first transaction of a batch did. -/
theorem batch_cons {_ : HashOrder} {settings : TransactCheckSettings} {I : FrameStack → Prop}
    {txs : List (Globals × Transaction)} {u : TxState} {outcomes : List ExecutionOutcome}
    (hbatch : TxBatch settings I ((g, tx) :: txs) t outcomes u) :
    ∃ (fuel : ℕ) (options : TransactOptions) (outcome : ExecutionOutcome) (t₁ : TxState)
      (rest : List ExecutionOutcome), outcomes = outcome :: rest ∧
        options.check_settings = settings ∧
        (transact g tx fuel options).run t = .ok (.ok (some outcome), t₁) ∧
          TxBatch settings I txs t₁ rest u := by
  cases hbatch with
  | cons hsettings hrun _ h => exact ⟨_, _, _, _, _, rfl, hsettings, hrun, h⟩

/-- A batch of transactions leads replicas to replicas. -/
theorem batch_alike {O O' : HashOrder} {settings : TransactCheckSettings}
    {txs : List (Globals × Transaction)}
    {u u' : TxState} {outcomes outcomes' : List ExecutionOutcome} (hr : t.Replicas codeOf db db' t')
    (hbatch : @TxBatch _ O settings (FrameStack.Named codeOf) txs t outcomes u)
    (hbatch' : @TxBatch _ O' settings (fun _ => True) txs t' outcomes' u') :
    outcomes.map ExecutionOutcome.unobserved = outcomes'.map ExecutionOutcome.unobserved ∧
      u.Replicas codeOf db db' u' := by
  induction hbatch generalizing t' outcomes' with
  | nil =>
    cases hbatch'
    exact ⟨rfl, hr⟩
  | @cons g tx fuel options outcome t t₁ u txs outcomes hsettings hrun hnamed _ ih =>
    obtain ⟨fuel', options', outcome', t₁', outcomes', rfl, hsettings', hrun', hbatch'⟩ :=
      batch_cons hbatch'
    have halike := transact_alike O O' (hsettings.trans hsettings'.symm) hr hnamed (max fuel fuel')
    obtain ⟨hsame, hr₁⟩ := halike.returned (run_transact_of_le hrun (le_max_left _ _))
      (run_transact_of_le hrun' (le_max_right _ _))
    cases hsame with
    | ok hsame =>
      cases hsame with
      | some hsame =>
        obtain ⟨houtcomes, hu⟩ := ih hr₁ hbatch'
        refine ⟨?_, hu⟩
        rw [List.map_cons, List.map_cons, houtcomes]
        exact congrArg (· :: _) hsame

end

end TXExecutor

end

/-- A hash function that agrees with Keccak-256 on the empty string and on the code
    `jumpOverInvalid`, for runs that hash nothing else. -/
@[reducible] def keccakOfJump : Keccak :=
  ⟨fun bytes => if bytes.isEmpty then
      0xc5d2460186f7233c927e7db2dcc703c0e500b653ca82273b7bfad8045d85a470
    else 0xe852d5b1f0c8d9d265464deb3714fa277dd53bb0d39d0b254810b1faa263fb9a⟩

section
attribute [local instance] keccakOfJump HashOrder.asListed

/-- `PUSH1 4`, `JUMP`, no instruction, `JUMPDEST` and `STOP`. -/
def jumpOverInvalid : Bytes := [0x60, 4, 0x56, 0xfe, 0x5b, 0]

/-- The codes of the hashes: there is this one only. -/
def jumpCodes (hash : H256) : Bytes := if hash = keccak jumpOverInvalid then jumpOverInvalid else []

def jumpContract : StateDb :=
  { StateDb.empty.set_account 9 ⟨0, 1, keccak jumpOverInvalid⟩ with
    codes := fun a => if a = 9 then some ⟨jumpOverInvalid⟩ else none }

/-- A cache that holds the jump destinations of the code. -/
def warmJumps : SharedCache :=
  ((SharedCache.new 10000).jump_and_sub_destinations (some (keccak jumpOverInvalid))
    jumpOverInvalid).2

theorem warmJumps_faithful : warmJumps.Faithful jumpCodes := by
  have hempty : (SharedCache.new 10000).Faithful jumpCodes := fun _ h =>
    (List.not_mem_nil h).elim
  refine (hempty.destinations ?_).2
  rintro hash ⟨⟩
  exact if_pos rfl

/-- What runs has no hash, or the hash of its code. -/
def Exec.runsNamed : Exec → Bool
  | .Interpreter _ i => i.params.code_hash.all fun hash => jumpCodes hash = i.code
  | _ => true

def FrameStack.runsNamed (s : FrameStack) : Bool :=
  match s.phase with
  | .Execute _ exec => exec.runsNamed
  | _ => true

theorem FrameStack.named_of_runsNamed {s : FrameStack} (h : s.runsNamed = true) :
    s.Named jumpCodes := by
  intro frame exec hphase
  unfold runsNamed at h
  rw [hphase] at h
  cases exec with
  | Interpreter c i =>
    intro hash hhash
    have h : i.params.code_hash.all (fun hash => jumpCodes hash = i.code) = true := h
    rw [hhash] at h
    exact of_decide_eq_true h
  | _ => trivial

/-- Every stack of the call of the contract runs the code under its hash. -/
theorem stopCall_named (s : FrameStack)
    (hs : TXExecutor.Executing bareMachine stopCall untraced ⟨.new jumpContract, .new 100⟩ s) :
    s.Named jumpCodes := by
  have hruns : (TXExecutor.transact_preprocessing bareMachine stopCall untraced).returns
      ⟨.new jumpContract, .new 100⟩ (fun result t₁ =>
        result.passes fun frame substate observer base =>
        FrameStack.always bareMachine FrameStack.runsNamed 20
          (.new t₁.state t₁.shared_cache substate observer base frame)) = true := by
    decide +kernel
  obtain ⟨frame, substate, observer, base, t₁, hpre, hrounds⟩ := hs
  obtain ⟨result, t₁', hpre', hpasses⟩ := exists_of_returns hruns
  rw [hpre] at hpre'
  cases hpre'
  exact FrameStack.named_of_runsNamed (of_always hpasses hrounds)

end

end CfxEvm
