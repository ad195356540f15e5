import CfxEvm.Execution.Proofs.RunProofs
import CfxEvm.Frame.Proofs.CodeHashProofs

/-!
# Proofs: the jump destinations of a transaction

The cache of jump destinations outlives the transactions, and they may be executed on different
states. Where each of these states keeps its codes in order, no frame of any transaction is given
the hash of a code that is not its own, and none is ever given the destinations of another code by
the cache.
-/

open Lib Lib.Prog

namespace CfxEvm

section
variable [Keccak] [HashOrder] {g : Globals} {tx : Transaction} {options : TransactOptions}

/-- Code integrity: where a hash is read, the code that is read is there and has this hash. An
    account without code reads as one with the empty code. -/
def State.CodeIntegrity (s : State) : Prop :=
  ∀ a hash, (State.code_hash a).value s = .ok (.ok (some hash)) →
    ∃ code, (State.code a).value s = .ok (.ok code) ∧ keccak (code.getD []) = hash

/-- The cache of a process that has executed transactions, or parts of them, on states with code
    integrity. -/
inductive SharedCache.Used (max_size : Nat) : SharedCache → Prop
  | new : Used max_size (.new max_size)
  | executed {cache : SharedCache} {state : State} {g : Globals} {tx : Transaction}
      {options : TransactOptions} {s : FrameStack} (h : Used max_size cache)
      (hstate : state.Reachable) (hcodes : state.CodeIntegrity)
      (hs : TXExecutor.Executing g tx options ⟨state, cache⟩ s) :
      Used max_size s.host.shared_cache

/-- Every frame has the hash of its own code, or none, and jumps are checked against the
    destinations of a code with this hash. -/
structure FrameStack.RunsOwnCode (s : FrameStack) : Prop where
  entering : ∀ frame params, s.phase = .Enter frame → frame.status = .Input params → params.Hashed
  running : ∀ frame c i, s.phase = .Execute frame (.Interpreter c i) → i.OwnCode
  asking : ∀ kind caller, s.phase = .LastRes (.SubCallCreate kind caller) → caller.status.OwnCode
  waiting : ∀ frame ∈ s.frame_stack, frame.status.OwnCode
  jumps : ∀ frame c i, s.phase = .Execute frame (.Interpreter c i) → ∀ dests p,
    Interpreter.jump_destinations.run (i, s.host) = .ok (.ok dests, p) →
      ∃ code, keccak code = keccak i.code ∧
        dests = (SharedCache.find_jump_and_sub_destinations code).jump_destination
  subroutines : ∀ frame c i, s.phase = .Execute frame (.Interpreter c i) → ∀ dests p,
    Interpreter.subroutine_destinations.run (i, s.host) = .ok (.ok dests, p) →
      ∃ code, keccak code = keccak i.code ∧
        dests = (SharedCache.find_jump_and_sub_destinations code).sub_entrypoint

omit [HashOrder] in
/-- The accounts of a state with code integrity show the codes of their hashes. -/
theorem State.CodeIntegrity.coded {db : StateDb} {saved : List Ledger} {s : State} {w : Ledger}
    (h : s.CodeIntegrity) (hrep : Rep db saved s w) : w.Coded := by
  intro a v hv
  have hhash : (State.code_hash a).value s = .ok (.ok (some v.code_hash)) := by
    rw [(code_hash_refines a db saved).value_eq hrep]
    show Except.ok (Except.ok ((w.accounts a).map AccountView.code_hash)) = _
    rw [hv]
    rfl
  obtain ⟨code, hcode, hkeccak⟩ := h a _ hhash
  rw [(code_refines a db saved).value_eq hrep] at hcode
  obtain ⟨w', hrun⟩ := value_eq_ok.mp hcode
  have hread : code = w.codeOf a :=
    (wp_of_run (Ledger.code_spec a w) hrun).2.1 code rfl
  unfold Ledger.codeOf at hread
  rw [hv] at hread
  have hread : code = v.code.map CodeInfo.code := hread
  constructor
  · intro hne
    rcases hc : v.code with _ | c
    · rw [hread, hc] at hkeccak
      exact absurd hkeccak.symm hne
    · rw [hread, hc] at hkeccak
      exact ⟨c, rfl, hkeccak⟩
  · intro c hc
    rw [hread, hc] at hkeccak
    exact hkeccak

omit [HashOrder] in
theorem State.codeIntegrity_of_coded {db : StateDb} {saved : List Ledger} {s : State} {w : Ledger}
    (hrep : Rep db saved s w) (h : w.Coded) : s.CodeIntegrity := by
  intro a hash hhash
  rw [(code_hash_refines a db saved).value_eq hrep] at hhash
  have hhash : (w.accounts a).map AccountView.code_hash = some hash :=
    Except.ok.inj (Except.ok.inj hhash)
  obtain ⟨v, hv, rfl⟩ := Option.map_eq_some_iff.mp hhash
  refine ⟨_, value_code hrep fun u hu => (h a u hu).code, ?_⟩
  rw [hv]
  show keccak ((v.code.map CodeInfo.code).getD []) = v.code_hash
  rcases hc : v.code with _ | c
  · by_cases hne : v.code_hash = KECCAK_EMPTY
    · exact hne.symm
    · obtain ⟨c, hc', -⟩ := (h a v hv).code hne
      exact absurd (hc.symm.trans hc') (by simp)
  · exact (h a v hv).hash c hc

namespace TXExecutor

omit [HashOrder] in
/-- The checks leave the cache alone. -/
theorem transact_preprocessing_cache :
    Keeps (fun t t' : TxState => t'.shared_cache = t.shared_cache)
      (transact_preprocessing g tx options) := by
  have : IsPreorder TxState fun t t' : TxState => t'.shared_cache = t.shared_cache :=
    { refl := fun _ => rfl, trans := fun _ _ _ h h' => h'.trans h }
  have hstate : ∀ {α : Type} (x : StateM α),
      Keeps (fun t t' : TxState => t'.shared_cache = t.shared_cache) (onState x) := fun x =>
    .zoom (R := fun _ _ => True) (fun _ => wp_intro (fun _ _ => trivial) fun _ _ _ => trivial)
      fun _ _ _ => rfl
  have hframe : ∀ nonce init_gas,
      Keeps (fun t t' : TxState => t'.shared_cache = t.shared_cache)
        (top_frame g tx nonce init_gas) := by
    intro nonce init_gas
    unfold top_frame
    cases tx.action with
    | Create => exact .pure _
    | Call address => exact .bind (hstate _) fun _ => .bind (hstate _) fun _ => .pure _
  refine .bind (hstate _) fun nonce => .ite (fun _ => .pure _) fun _ => .ite (fun _ => .pure _)
    fun _ => .bind (.expect _ _) fun _ => .ite (fun _ => .bind (.expect _ _) fun _ => .pure _)
    fun _ => .bind (hstate _) fun balance => .bind (.expect _ _) fun _ =>
    .ite (fun _ => ?_) fun _ => ?_
  · exact .bind (.expect _ _) fun _ => .bind (hstate _) fun _ => .ite (fun _ => .pure _) fun _ =>
      .bind (hstate _) fun _ => .bind (hstate _) fun _ => .pure _
  · exact .bind (hstate _) fun _ => .bind (.expect _ _) fun _ => .bind (hstate _) fun _ =>
      .bind (.expect _ _) fun _ => .bind (hframe _ _) fun _ => .pure _

/-- Along a transaction on a state with code integrity, every frame has the hash of its own code. -/
theorem Executing.follows {t : TxState} {s : FrameStack} (h : Executing g tx options t s)
    (hstate : t.state.Reachable) (hcodes : t.state.CodeIntegrity)
    (hcache : t.shared_cache.Hashed) :
    ∃ db stored saved w tx_substate, (ownCourse g db stored).Follows saved w [] tx_substate s := by
  obtain ⟨frame, substate, observer, base, t₁, hpre, hrounds⟩ := h
  obtain ⟨db, saved, w, hrep⟩ := hstate.rep
  obtain ⟨w₁, hrep₁, hchecked, -⟩ := wp_of_run (transact_preprocessing_spec hrep) hpre
  have hchecked := hchecked _ rfl
  have hall : w.All w.stored AccountView.Coded := ⟨rfl, hcodes.coded hrep⟩
  have hall₁ : w₁.All w.stored AccountView.Coded := by
    cases hchecked with
    | pass => exact hall.charged (coded_lasting w.stored) _ _ _
  have hcache₁ : t₁.shared_cache.Hashed := by
    rw [transact_preprocessing_cache.of_run hpre]
    exact hcache
  refine ⟨db, w.stored, saved, w₁, substate, ?_⟩
  have hstart : (ownCourse g db w.stored).Follows saved w₁ [] substate
      (.new t₁.state t₁.shared_cache substate observer base frame) :=
    Course.follows_enter
      (s := .new t₁.state t₁.shared_cache substate observer base frame) rfl ⟨hrep₁, hcache₁⟩
      ⟨hall₁, trivial, hchecked.entersAs (I := fun _ => True) coded_lawful hall₁⟩
  exact hstart.inside (ownCourse_kept db fun _ => True) (fun _ _ => trivial)
    (inside_of_rounds hrounds)

end TXExecutor

omit [HashOrder] in
/-- What is known along the run says whose code the frames run. -/
theorem Course.Follows.runsOwnCode {db : StateDb} {stored : Address → Bytes → U256}
    {saved : List Ledger} {w : Ledger} {tx_substate : Substate} {s : FrameStack}
    (h : (ownCourse g db stored).Follows saved w [] tx_substate s) :
    s.RunsOwnCode ∧ s.host.shared_cache.Hashed := by
  obtain ⟨T, vs, w', hby⟩ := h
  have hhashed : s.host.shared_cache.Hashed := hby.stands.2
  have hp := hby.phase
  unfold Course.PhaseFollows at hp
  have hrunning : ∀ frame c i, s.phase = .Execute frame (.Interpreter c i) → i.OwnCode := by
    intro frame c i hphase
    simp only [hphase] at hp
    exact hp.1.2
  refine ⟨⟨?_, hrunning, ?_, ?_, ?_, ?_⟩, hhashed⟩
  · intro frame params hphase hstatus
    simp only [hphase] at hp
    obtain ⟨⟨hholds, -, henters⟩, -⟩ := hp
    exact henters.hashed hholds.holds hstatus
  · intro kind caller hphase
    simp only [hphase] at hp
    exact hp.1.2
  · intro frame hmem
    rw [hby.stack, List.append_nil] at hmem
    obtain ⟨b, hwaiting⟩ := hby.waiting frame hmem
    exact hwaiting.2
  · intro frame c i hphase dests p hrun
    exact (wp_of_run (Interpreter.wp_own_jump_destinations ⟨hrunning frame c i hphase, hhashed⟩)
      hrun).2 dests rfl
  · intro frame c i hphase dests p hrun
    exact (wp_of_run (Interpreter.wp_own_subroutine_destinations
      ⟨hrunning frame c i hphase, hhashed⟩) hrun).2 dests rfl

/-- The cache that transactions leave holds under each hash the destinations of a code with it. -/
theorem SharedCache.Used.hashed {max_size : Nat} {cache : SharedCache}
    (h : SharedCache.Used max_size cache) : cache.Hashed := by
  induction h with
  | new => exact hashed_new max_size
  | executed h hstate hcodes hs ih =>
    obtain ⟨db, stored, saved, w, tx_substate, hfollows⟩ := hs.follows hstate hcodes ih
    exact hfollows.runsOwnCode.2

/-- Jump sets belong to the code. Whatever transactions a process has executed before, on states
    with code integrity: in every stack of frames that is reached by another one, each frame is
    given no hash or the hash of its code, and jumps are checked against the destinations of a code
    with that hash. -/
theorem TXExecutor.jump_sets_belong_to_the_code {max_size : Nat} {cache : SharedCache}
    {state : State}
    (hcache : SharedCache.Used max_size cache) (hstate : state.Reachable)
    (hcodes : state.CodeIntegrity) {s : FrameStack}
    (hs : Executing g tx options ⟨state, cache⟩ s) : s.RunsOwnCode := by
  obtain ⟨db, stored, saved, w, tx_substate, hfollows⟩ := hs.follows hstate hcodes hcache.hashed
  exact hfollows.runsOwnCode.1

end

section
attribute [local instance] keccakOfStop HashOrder.asListed

/-- A database with a contract whose code is one `STOP`. -/
def stopContract : StateDb :=
  { StateDb.empty.set_account 9 ⟨0, 1, keccak [0]⟩ with
    codes := fun a => if a = 9 then some ⟨[0]⟩ else none }

theorem stopContract_codes : stopContract.CodesStored := by
  intro a acc hacc hne
  by_cases ha : a = 9
  · subst ha
    obtain rfl : (⟨0, 1, keccak [0]⟩ : Account) = acc := by
      have hself : stopContract.accounts 9 = some ⟨0, 1, keccak [0]⟩ := by decide +kernel
      exact Option.some_inj.mp (hself.symm.trans hacc)
    exact ⟨⟨[0]⟩, rfl, rfl⟩
  · have hnone : stopContract.accounts a = none := Function.update_of_ne ha _ _
    rw [hnone] at hacc
    cases hacc

/-- A transaction that calls the contract, without a price. -/
def stopCall : Transaction where
  sender := 7
  nonce := 0
  gas := 30000
  gas_price := 0
  data := []
  action := .Call 9
  value := 0

/-- The called contract runs with the hash of its code, and its jumps are checked against the
    destinations of a code with this hash. -/
theorem called_contract_runs_its_code :
    ∃ s frame i, TXExecutor.Executing bareMachine stopCall ⟨.with_no_tracing, ⟨true, true⟩⟩
        ⟨.new stopContract, .new 100⟩ s ∧
      s.phase = .Execute frame (.Interpreter .usize i) ∧ i.code = [0] ∧
      i.params.code_hash = some (keccak [0]) ∧ i.OwnCode ∧
      ∀ dests p, Interpreter.jump_destinations.run (i, s.host) = .ok (.ok dests, p) →
        ∃ code, keccak code = keccak [0] ∧
          dests = (SharedCache.find_jump_and_sub_destinations code).jump_destination := by
  have hreach : (State.new stopContract).Reachable := ⟨stopContract, [], _, rfl⟩
  have hcodes : (State.new stopContract).CodeIntegrity :=
    State.codeIntegrity_of_coded (rep_new stopContract)
      (coded_of_stored stopContract_codes _).holds
  obtain ⟨s, frame, i, hs, hphase, hcode, hhash⟩ : ∃ s frame i,
      TXExecutor.Executing bareMachine stopCall ⟨.with_no_tracing, ⟨true, true⟩⟩
        ⟨.new stopContract, .new 100⟩ s ∧ s.phase = .Execute frame (.Interpreter .usize i) ∧
      i.code = [0] ∧ i.params.code_hash = some (keccak [0]) := by
    have hruns : (TXExecutor.transact_preprocessing bareMachine stopCall
        ⟨.with_no_tracing, ⟨true, true⟩⟩).returns ⟨.new stopContract, .new 100⟩ (fun result t₁ =>
          result.passes fun frame substate observer base => (FrameStack.step bareMachine).returns
            (.new t₁.state t₁.shared_cache substate observer base frame) fun output s =>
              output.isNone && s.phase.interprets fun i =>
                i.code = [0] && i.params.code_hash = some (keccak [0])) = true := by
      decide +kernel
    obtain ⟨result, t₁, hpre, hpasses⟩ := exists_of_returns hruns
    obtain ⟨frame, substate, observer, base, rfl, hstep⟩ := PreCheckResult.exists_of_passes hpasses
    obtain ⟨output, s, hstep, hrunning⟩ := exists_of_returns hstep
    obtain ⟨hnone, hinterprets⟩ := Bool.and_eq_true_iff.mp hrunning
    obtain rfl := Option.isNone_iff_eq_none.mp hnone
    obtain ⟨frame', i, hphase, htest⟩ := Phase.exists_of_interprets hinterprets
    obtain ⟨hcode, hhash⟩ := Bool.and_eq_true_iff.mp htest
    exact ⟨s, frame', i, ⟨_, _, _, _, _, hpre, .single hstep⟩, hphase, of_decide_eq_true hcode,
      of_decide_eq_true hhash⟩
  have hown := TXExecutor.jump_sets_belong_to_the_code .new hreach hcodes hs
  refine ⟨s, frame, i, hs, hphase, hcode, hhash, hown.running _ _ _ hphase, ?_⟩
  rw [← hcode]
  exact hown.jumps _ _ _ hphase

end

end CfxEvm
