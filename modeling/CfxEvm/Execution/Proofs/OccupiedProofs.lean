import CfxEvm.Evm.Proofs.LeadsProofs
import CfxEvm.Execution.Proofs.OwnJumpProofs

/-!
# Proofs: creations at an address that is occupied

Nothing in the code looks at what is stored at the address of a new contract. So whether a creation
at the address of a live contract fails is up to its init code: it does if the init code cannot end
well, and with an empty one the contract is replaced.
-/

open Lib Lib.Prog

namespace CfxEvm

/-! ## The frame of the creation -/

section
variable [Keccak]

/-- An interpreter of the frame is led by the init code. -/
def Exec.LedBy (code : Bytes) : Exec → Prop
  | .Interpreter _ i => Interpreter.LedBy code i ∧ i.Resumable
  | _ => False

def Suspended.LedBy (code : Bytes) : Suspended → Prop
  | .Interpreter _ i => Interpreter.LedBy code i ∧ i.Resumable
  | _ => False

def FrameStatus.LedBy (code : Bytes) : FrameStatus → Prop
  | .ResumeCall resume | .ResumeCreate resume => resume.LedBy code
  | _ => False

/-- What is known of the frame of the creation while no frame runs above it. -/
def Phase.Creates (params : ActionParams) : Phase → Prop
  | .Enter frame => frame.kind = .ExecCreate ∧ frame.status = .Input params
  | .Execute _ exec => exec.LedBy (params.code.getD [])
  | .LastRes (.SubCallCreate _ caller) => caller.status.LedBy (params.code.getD [])
  | .LastRes (.Return r) => frame_applied r = false

/-- The frame of a creation was entered on top of the frames `base`, and it or those above it
    run. -/
def FrameStack.Creating (params : ActionParams) (base : List CallCreateFrame) (s : FrameStack) :
    Prop :=
  (s.frame_stack = base ∧ s.phase.Creates params) ∨
    ∃ above frame, s.frame_stack = above ++ frame :: base ∧
      frame.status.LedBy (params.code.getD [])

variable {g : Globals} {s s' : FrameStack} {params : ActionParams}
  {base : List CallCreateFrame} {ctx : FrameContext}

/-- What a step of the frame comes to. -/
def Progress.LedBy (code : Bytes) : Progress → Prop
  | .Continue exec => exec.LedBy code
  | .Output (.Return result) => EndsBadly result
  | .Output (.SubCallCreate _ resume) => resume.LedBy code

theorem Exec.LedBy.step {exec : Exec} {code : Bytes} {h : Host State} (hled : exec.LedBy code)
    (hcannot : CannotEnd code) (hcache : h.shared_cache.Hashed) :
    wp (exec.step g ctx) (fun _ => True) (fun r _ => ∀ progress, r = .ok progress →
      progress.LedBy code) h := by
  cases exec with
  | Interpreter c i =>
    obtain ⟨hled, hres⟩ := hled
    refine wp_bind.mpr (wp_withPart.mpr (wp_post (wp_and (Interpreter.step_sameCode (i, h))
      (Interpreter.step_led hled hres hcannot hcache)) ?_))
    rintro (e | res) ⟨i', h'⟩ ⟨⟨-, -, hresumable⟩, hstays⟩
    · rintro _ ⟨⟩
      trivial
    obtain ⟨hgo, hends⟩ := hstays res rfl
    cases res with
    | Continue =>
      rintro _ ⟨⟩
      exact ⟨hgo trivial, hresumable hres⟩
    | Trap trap =>
      rintro _ ⟨⟩
      exact ⟨hgo trivial, hresumable hres⟩
    | Done ended =>
      rintro _ ⟨⟩
      exact hends ended rfl
    | Stopped => trivial
  | _ => exact hled.elim

/-- The object that takes up a result is led by the code, too. -/
theorem FrameStatus.LedBy.resumed {status : FrameStatus} {code : Bytes}
    {r : Except VmError FrameReturn} {exec : Exec} (hled : status.LedBy code)
    (hresume : CallCreateFrame.resume_object status r = .ok exec) : exec.LedBy code := by
  cases status with
  | ResumeCall resume =>
    cases resume with
    | Interpreter c i =>
      have hmap : (i.resume_call (into_message_call_result r)).map (Exec.Interpreter c) =
          .ok exec := hresume
      rcases hi : i.resume_call (into_message_call_result r) with p | i' <;> rw [hi] at hmap <;>
        cases hmap
      have hresumed := Interpreter.resume_call_resumed hi
      exact ⟨hled.1.resumed hresumed, hresumed.resumable⟩
    | Resume resume => exact hled.elim
  | ResumeCreate resume =>
    cases resume with
    | Interpreter c i =>
      obtain ⟨result, -, hmap⟩ := bind_eq_ok.mp hresume
      have hmap : (i.resume_create result).map (Exec.Interpreter c) = .ok exec := hmap
      rcases hi : i.resume_create result with p | i' <;> rw [hi] at hmap <;> cases hmap
      have hresumed := Interpreter.resume_create_resumed hi
      exact ⟨hled.1.resumed hresumed, hresumed.resumable⟩
    | Resume resume => exact hled.elim
  | _ => exact hled.elim

/-- A new interpreter is led by its code. -/
theorem ledBy_create {exec : Exec}
    (hhash : params.code_hash = none ∨ params.code_hash = some (keccak (params.code.getD [])))
    (hcreate : Exec.create params = .ok exec) : exec.LedBy (params.code.getD []) := by
  unfold Exec.create at hcreate
  rcases hcode : params.code with _ | code <;> rw [hcode] at hcreate hhash <;> cases hcreate
  split
  · exact ⟨Interpreter.ledBy_new hhash, .inl rfl⟩
  · exact ⟨Interpreter.ledBy_new hhash, .inl rfl⟩

variable [HashOrder]

/-- A code that ended badly is not applied. -/
theorem unapplied_of_endsBadly {frame : CallCreateFrame} {result : Except VmError GasLeft}
    {r : Except VmError FrameReturn} {h h' : Host State} (hends : EndsBadly result)
    (hrun : (frame.process_return g result).run h = .ok (.ok r, h')) : frame_applied r = false := by
  obtain ⟨fin, h₁, substate, h₂, hclosed⟩ := process_return_inv hrun
  have hfin : applied fin = false := by
    have hfinalize := hclosed.finalize
    rcases result with e | ⟨gas_left⟩ | ⟨gas_left, data, apply_state⟩
    · cases hfinalize
      rfl
    · exact hends.elim
    · obtain rfl : apply_state = false := hends
      rcases fin with e | fin
      · rfl
      · obtain ⟨gas, h₃, -, hpure⟩ := run_bind_eq_ok.mp hfinalize
        cases hpure
        rfl
  rw [hclosed.result_eq]
  cases fin with
  | error e => rfl
  | ok fin => exact hfin

/-- Every round up to the result of the creation keeps its frame led by the init code. -/
theorem FrameStack.Creating.round (h : s.Creating params base) (hnot : ¬s.Returned base.length)
    (hhash : params.code_hash = none ∨ params.code_hash = some (keccak (params.code.getD [])))
    (hcannot : CannotEnd (params.code.getD [])) (hcache : s.host.shared_cache.Hashed)
    (hround : Round g s s') : s'.Creating params base := by
  rcases h with ⟨hstack, hphase⟩ | ⟨above, frame, hstack, hled⟩
  · cases hround with
    | @enter frame frame' exec h' hphase' hrun =>
      rw [hphase'] at hphase
      obtain ⟨hkind, hstatus⟩ := hphase
      obtain ⟨params', h₁, hbegins⟩ := frame_exec_inv hrun
      obtain rfl : params = params' := FrameStatus.Input.inj (hstatus.symm.trans hbegins.status)
      have hobject : Exec.create params = .ok exec := by
        have hobject := hbegins.object
        rwa [hkind] at hobject
      exact .inl ⟨hstack, ledBy_create hhash hobject⟩
    | @go_on frame exec exec' h' hphase' hrun =>
      rw [hphase'] at hphase
      exact .inl ⟨hstack, wp_of_run (hphase.step hcannot hcache) hrun _ rfl⟩
    | @returns frame exec result r h₁ h' hphase' hrun hret =>
      rw [hphase'] at hphase
      exact .inl ⟨hstack, unapplied_of_endsBadly
        (wp_of_run (hphase.step hcannot hcache) hrun _ rfl) hret⟩
    | @traps frame exec kind resume h' hphase' hrun =>
      rw [hphase'] at hphase
      refine .inl ⟨hstack, ?_⟩
      have hled : resume.LedBy (params.code.getD []) :=
        wp_of_run (hphase.step hcannot hcache) hrun _ rfl
      cases kind <;> exact hled
    | @calls kind caller hphase' =>
      rw [hphase'] at hphase
      exact .inr ⟨[], caller, congrArg (caller :: ·) hstack, hphase⟩
    | @resumes r parent parent' rest exec hphase' hparent hresume =>
      exact absurd ⟨congrArg List.length hstack, r, hphase'⟩ hnot
  · cases hround with
    | @calls kind caller hphase' =>
      exact .inr ⟨caller :: above, frame, congrArg (caller :: ·) hstack, hled⟩
    | @resumes r parent parent' rest exec hphase' hparent hresume =>
      rw [hstack] at hparent
      cases above with
      | nil =>
        obtain ⟨rfl, rfl⟩ := List.cons.inj hparent
        exact .inl ⟨rfl, hled.resumed (resume_inv hresume).1⟩
      | cons f above =>
        obtain ⟨rfl, rfl⟩ := List.cons.inj hparent
        exact .inr ⟨above, frame, rfl, hled⟩
    | _ => exact .inr ⟨above, frame, hstack, hled⟩

theorem FrameStack.Creating.inside (h : s.Creating params base)
    (hhash : params.code_hash = none ∨ params.code_hash = some (keccak (params.code.getD [])))
    (hcannot : CannotEnd (params.code.getD []))
    (hcache : ∀ s₁, FrameStack.Inside g base.length s s₁ → s₁.host.shared_cache.Hashed)
    (hrun : FrameStack.Inside g base.length s s') : s'.Creating params base := by
  induction hrun with
  | refl => exact h
  | tail hrun hstep ih =>
    exact ih.round hstep.1 hhash hcannot (hcache _ hrun) (round_of_next hstep.2)

/-- What is known of the transaction that started on `t`, and of the init code of a creation in it:
    the process has executed transactions on states with code integrity only, this one among them,
    so that jumps are checked against the code's own destinations; and the code cannot end well. -/
structure InitCannotEnd (t : TxState) (params : ActionParams) : Prop where
  cache : ∃ max_size, SharedCache.Used max_size t.shared_cache
  codes : t.state.CodeIntegrity
  code : CannotEnd (params.code.getD [])

variable {tx : Transaction} {options : TransactOptions} {t : TxState} {depth : ℕ} {flag : Bool}
  {r : Except VmError FrameReturn}

/-- A creation whose init code cannot end well is not applied, and the state reads as before. -/
theorem InitCannotEnd.unapplied (h : InitCannotEnd t params) (hstate : t.state.Reachable)
    (hs : TXExecutor.Executing g tx options t s)
    (hphase : s.phase = .Enter (.new_create_raw params depth flag))
    (hrun : FrameStack.FrameRun g s r s') :
    frame_applied r = false ∧ SameReads s.host.state s'.host.state := by
  obtain ⟨max_size, hused⟩ := h.cache
  obtain ⟨db, stored, saved, w, tx_substate, hfollows⟩ := hs.follows hstate h.codes hused.hashed
  have hhash : params.code_hash = none ∨
      params.code_hash = some (keccak (params.code.getD [])) := by
    have hhashed := hfollows.runsOwnCode.1.entering _ params hphase rfl
    rcases hhash : params.code_hash with _ | hash
    · exact .inl rfl
    rcases hcode : params.code with _ | code
    · have hlt := (h.code 0 .start).1
      rw [hcode] at hlt
      exact absurd hlt (Nat.not_lt_zero 0)
    · exact .inr (congrArg some (hhashed hash code hhash hcode).symm)
  have hcache : ∀ s₁, FrameStack.Inside g s.frame_stack.length s s₁ →
      s₁.host.shared_cache.Hashed := fun s₁ hinside =>
    (hfollows.inside (ownCourse_kept db fun _ => True) (fun _ _ => trivial)
      (inside_of_rounds (Relation.ReflTransGen.mono (fun _ _ h => h.2) _ _ hinside))).runsOwnCode.2
  have hfalse : frame_applied r = false := by
    obtain ⟨hinside, hlen, hret⟩ := hrun
    have hstart : s.Creating params s.frame_stack := .inl ⟨rfl, by rw [hphase]; exact ⟨rfl, rfl⟩⟩
    rcases hstart.inside hhash h.code hcache hinside with ⟨-, hcreates⟩ | ⟨above, frame, hstack, -⟩
    · rw [hret] at hcreates
      exact hcreates
    · rw [hstack, List.length_append, List.length_cons] at hlen
      omega
  obtain ⟨T, vs, w', hby⟩ := hfollows
  exact ⟨hfalse, (unapplied_frame hby.stands.1 hphase hrun hfalse).1⟩

/-! ## Empty init code -/

omit [HashOrder] in
/-- An interpreter without code stops, with the gas that it was given. -/
theorem interpreter_stops {c : CostType} {h : Host State} (hgas : params.gas.toNat < 2 ^ c.bits) :
    wp (Exec.interpreter_step g ctx (.new params [] : Interpreter c)) (fun _ => False)
      (fun r _ => ∃ gas, r = .ok (.Output (.Return (.ok (.Known gas))))) h := by
  have hm : (Interpreter.new params [] : Interpreter c).gasometer =
      some (.new (BitVec.ofNat c.bits params.gas.toNat)) := by
    unfold Interpreter.new
    rw [Cost.from_u256_of_lt hgas]
  refine wp_bind.mpr (wp_withPart.mpr (wp_bind.mpr (wp_gets.mpr ?_)))
  refine wp_ite (fun hdone => nomatch hdone) fun _ => ?_
  rw [hm]
  exact ⟨_, rfl⟩

omit [HashOrder] in
/-- An empty init code stops at once. -/
theorem empty_code_stops {exec : Exec} {h : Host State} (hcode : params.code = some [])
    (hcreate : Exec.create params = .ok exec) :
    wp (exec.step g ctx) (fun _ => False) (fun r _ => ∃ gas,
      r = .ok (.Output (.Return (.ok (.Known gas))))) h := by
  unfold Exec.create at hcreate
  rw [hcode] at hcreate
  cases hcreate
  split
  · exact interpreter_stops ‹_›
  · exact interpreter_stops params.gas.isLt

/-- A creation with empty init code is applied. -/
theorem applied_of_empty_code (hphase : s.phase = .Enter (.new_create_raw params depth flag))
    (hcode : params.code = some []) (hrun : FrameStack.FrameRun g s r s') :
    frame_applied r = true := by
  obtain ⟨hinside, hlen, hret⟩ := hrun
  -- The frame is entered, in the first round.
  rcases Relation.ReflTransGen.cases_head hinside with rfl | ⟨s₁, hfirst, hinside₁⟩
  · rw [hphase] at hret
    cases hret
  cases round_of_next hfirst.2 with
  | @enter frame frame' exec h₁ hphase₁ hexec =>
    obtain rfl : .new_create_raw params depth flag = frame :=
      Phase.Enter.inj (hphase.symm.trans hphase₁)
    obtain ⟨params', h₂, hbegins⟩ := frame_exec_inv hexec
    obtain rfl : params = params' := FrameStatus.Input.inj hbegins.status
    -- Its code stops in the second one.
    rcases Relation.ReflTransGen.cases_head hinside₁ with rfl | ⟨s₂, hsecond, hinside₂⟩
    · cases hret
    have hstops {progress : Progress} {h₃ : Host State}
        (hrun : (exec.step g frame'.context).run h₁ = .ok (.ok progress, h₃)) :
        ∃ gas, progress = .Output (.Return (.ok (.Known gas))) := by
      obtain ⟨gas, hgas⟩ := wp_of_run (empty_code_stops hcode hbegins.object) hrun
      exact ⟨gas, Except.ok.inj hgas⟩
    cases round_of_next hsecond.2 with
    | go_on hphase₂ hrun =>
      cases hphase₂
      obtain ⟨gas, hgas⟩ := hstops hrun
      cases hgas
    | traps hphase₂ hrun =>
      cases hphase₂
      obtain ⟨gas, hgas⟩ := hstops hrun
      cases hgas
    | @returns _ _ result r₁ h₃ h₄ hphase₂ hrun hreturn =>
      cases hphase₂
      obtain ⟨gas, hgas⟩ := hstops hrun
      cases hgas
      obtain rfl : r₁ = r := by
        rcases Relation.ReflTransGen.cases_head hinside₂ with rfl | ⟨s₃, hthird, -⟩
        · cases hret
          rfl
        · exact absurd ⟨rfl, r₁, rfl⟩ hthird.1
      obtain ⟨fin, h₅, substate, h₆, hends⟩ := process_return_inv hreturn
      have hfinalize := hends.finalize
      cases hfinalize
      rw [hends.result_eq]
      rfl
    | enter hphase₂ => cases hphase₂
    | calls hphase₂ => cases hphase₂
    | resumes hphase₂ => cases hphase₂
  | go_on hphase₁ => rw [hphase] at hphase₁; cases hphase₁
  | returns hphase₁ => rw [hphase] at hphase₁; cases hphase₁
  | traps hphase₁ => rw [hphase] at hphase₁; cases hphase₁
  | calls hphase₁ => rw [hphase] at hphase₁; cases hphase₁
  | resumes hphase₁ => rw [hphase] at hphase₁; cases hphase₁

/-! ## Occupied addresses -/

/-- The address has code, or a nonce that is not zero. -/
def Occupied (a : Address) (state : State) : Prop :=
  (∃ code, (State.code a).value state = .ok (.ok (some code)) ∧ code ≠ []) ∨
    ∃ nonce, (State.nonce a).value state = .ok (.ok nonce) ∧ nonce ≠ 0

/-- The code, the nonce and the storage of the address read the same. -/
def SameContract (a : Address) (state state' : State) : Prop :=
  (State.code a).value state' = (State.code a).value state ∧
    (State.nonce a).value state' = (State.nonce a).value state ∧
    ∀ key, (State.storage_at a key).value state' = (State.storage_at a key).value state

/-- A creation at the address with the result `r` has overwritten no live contract. -/
def NotOverwritten (a : Address) (state : State) (r : Except VmError FrameReturn) (state' : State) :
    Prop :=
  Occupied a state → frame_applied r = false ∧ SameContract a state state'

/-- A creation overwrites no live contract if its init code cannot end well. If its init code is
    empty, it overwrites whatever contract is at its address. -/
theorem occupied_creation_fails (hstate : t.state.Reachable)
    (hs : TXExecutor.Executing g tx options t s)
    (hphase : s.phase = .Enter (.new_create_raw params depth flag))
    (hrun : FrameStack.FrameRun g s r s') :
    (InitCannotEnd t params →
      NotOverwritten params.code_address s.host.state r s'.host.state) ∧
    (params.code = some [] →
      (NotOverwritten params.code_address s.host.state r s'.host.state ↔
        ¬Occupied params.code_address s.host.state)) := by
  constructor
  · intro hcannot _
    obtain ⟨hfalse, hreads⟩ := hcannot.unapplied hstate hs hphase hrun
    exact ⟨hfalse, (hreads.code _).symm, (hreads.nonce _).symm, fun key =>
      (hreads.storage_at _ key).symm⟩
  · intro hcode
    have htrue := applied_of_empty_code hphase hcode hrun
    refine ⟨fun hkept hocc => ?_, fun hfree hocc => absurd hocc hfree⟩
    have hfalse := (hkept hocc).1
    rw [htrue] at hfalse
    cases hfalse

end

section

/-- A hash function that agrees with Keccak-256 on the empty string and on what the address of the
    first contract of the account 7 is derived from, for runs that use no other hash. -/
@[reducible] def keccakOfFirstContract : Keccak :=
  ⟨fun bytes => if bytes.isEmpty then
      0xc5d2460186f7233c927e7db2dcc703c0e500b653ca82273b7bfad8045d85a470
    else 0x732b9606b0a66ff7d8685fe219ce7f43ac7dc33671410195d62df671bd9f99e8⟩

attribute [local instance] keccakOfFirstContract HashOrder.asListed

/-- The first contract of the account 7. -/
def firstContract : Address := (contract_address .FromSenderNonce 7 0 []).1

/-- A transaction of the account 7 that creates its first contract. -/
def createTransaction (init : Bytes) : Transaction := ⟨7, 0, 100000, 0, init, .Create, 0⟩

/-- A database in which the address of that contract has the nonce 5. -/
def occupiedDb : StateDb := StateDb.empty.set_account firstContract ⟨0, 5, KECCAK_EMPTY⟩

theorem occupiedDb_codes : occupiedDb.CodesStored := by
  intro a acc hacc hne
  by_cases ha : a = firstContract
  · subst ha
    have hself : occupiedDb.accounts firstContract = some ⟨0, 5, KECCAK_EMPTY⟩ := by decide +kernel
    obtain rfl := Option.some_inj.mp (hself.symm.trans hacc)
    exact absurd rfl hne
  · have hnone : occupiedDb.accounts a = none := Function.update_of_ne ha _ _
    rw [hnone] at hacc
    cases hacc

theorem occupiedDb_reachable : (State.new occupiedDb).Reachable := ⟨occupiedDb, [], _, rfl⟩

/-- The creation at the occupied address is entered, and its frame runs for two rounds. -/
def CreationRuns (init : Bytes) (test : Except VmError FrameReturn → State → Bool) : Prop :=
  ∃ s params s' r, TXExecutor.Executing bareMachine (createTransaction init) untraced
      ⟨.new occupiedDb, .new 100⟩ s ∧ s.phase = .Enter (.new_create_raw params 0 false) ∧
    params.code_address = firstContract ∧ params.code = some init ∧
    (State.nonce firstContract).value s.host.state = .ok (.ok 5) ∧
    FrameStack.FrameRun bareMachine s r s' ∧ test r s'.host.state = true

theorem creationRuns {init : Bytes} {test : Except VmError FrameReturn → State → Bool}
    (h : (TXExecutor.transact_preprocessing bareMachine (createTransaction init) untraced).returns
      ⟨.new occupiedDb, .new 100⟩ (fun result t₁ =>
        result.passes fun frame substate observer base =>
        (State.nonce firstContract).returns t₁.state (fun nonce _ => nonce = 5) &&
          (FrameStack.run_frame bareMachine 0 2
            (.new t₁.state t₁.shared_cache substate observer base frame)).any fun result =>
              test result.1 result.2.host.state) = true) : CreationRuns init test := by
  obtain ⟨result, t₁, hpre, hpasses⟩ := exists_of_returns h
  obtain ⟨frame, substate, observer, base, rfl, htest⟩ := PreCheckResult.exists_of_passes hpasses
  obtain ⟨hnonce, hends⟩ := Bool.and_eq_true_iff.mp htest
  obtain ⟨nonce, s₁, hnonce, hfive⟩ := exists_of_returns hnonce
  obtain rfl := of_decide_eq_true hfive
  obtain ⟨db, saved, w, hrep⟩ := occupiedDb_reachable.rep
  obtain ⟨w₁, -, hchecked, -⟩ := wp_of_run (TXExecutor.transact_preprocessing_spec hrep) hpre
  have hframe : ∃ init_gas, frame =
      .new_create_raw (TXExecutor.create_params (createTransaction init) 0 init_gas) 0 false := by
    cases hchecked _ rfl with
    | pass hnonce hcash hcost hbase hbump hframe =>
      cases hframe with
      | create haction => exact ⟨_, by rw [hnonce]; rfl⟩
      | call haction hhash => cases haction
  obtain ⟨init_gas, rfl⟩ := hframe
  obtain ⟨⟨r, s'⟩, hrun, hresult⟩ := (Option.any_eq_true _ _).mp hends
  exact ⟨_, _, s', r, ⟨_, _, _, _, _, hpre, .refl⟩, rfl, rfl, rfl, value_eq_ok.mpr ⟨s₁, hnonce⟩,
    frameRun_of_run_frame hrun, hresult⟩

/-- The flow of a byte that is no instruction leads nowhere. -/
theorem cannotEnd_bad_instruction : CannotEnd [0x0c] := by
  intro pos h
  have hpos : pos = 0 := by
    induction h with
    | start => rfl
    | next _ hins _ ih =>
      subst ih
      cases hins
    | jump _ hins _ _ ih =>
      subst ih
      rcases hins with hins | hins <;> cases hins
    | jumpsub _ hins _ _ ih =>
      subst ih
      cases hins
  subst hpos
  decide

/-- A creation with init code that is no instruction fails at an address with a nonce, and leaves
    it. -/
theorem occupied_creation_of_bad_instruction :
    ∃ s s' r, TXExecutor.Executing bareMachine (createTransaction [0x0c]) untraced
        ⟨.new occupiedDb, .new 100⟩ s ∧ Occupied firstContract s.host.state ∧
      FrameStack.FrameRun bareMachine s r s' ∧ frame_applied r = false ∧
      SameContract firstContract s.host.state s'.host.state := by
  obtain ⟨s, params, s', r, hs, hphase, haddress, hcode, hnonce, hrun, -⟩ :
      CreationRuns [0x0c] fun _ _ => true := creationRuns (by decide +kernel)
  have hcodes : (State.new occupiedDb).CodeIntegrity :=
    State.codeIntegrity_of_coded (rep_new occupiedDb) (coded_of_stored occupiedDb_codes _).holds
  have hocc : Occupied firstContract s.host.state := .inr ⟨5, hnonce, by decide⟩
  have hkept := (occupied_creation_fails occupiedDb_reachable hs hphase hrun).1
    ⟨⟨100, .new⟩, hcodes, by rw [hcode]; exact cannotEnd_bad_instruction⟩
  rw [haddress] at hkept
  exact ⟨s, s', r, hs, hocc, hrun, hkept hocc⟩

/-- A creation with empty init code at an address with a nonce succeeds, and sets the nonce to
    one. -/
theorem occupied_creation_succeeds :
    ∃ s s' r, TXExecutor.Executing bareMachine (createTransaction []) untraced
        ⟨.new occupiedDb, .new 100⟩ s ∧ Occupied firstContract s.host.state ∧
      FrameStack.FrameRun bareMachine s r s' ∧ frame_applied r = true ∧
      (State.nonce firstContract).value s'.host.state = .ok (.ok 1) ∧
      ¬NotOverwritten firstContract s.host.state r s'.host.state := by
  obtain ⟨s, params, s', r, hs, hphase, haddress, hcode, hnonce, hrun, hresult⟩ :
      CreationRuns [] fun r state => frame_applied r &&
        (State.nonce firstContract).returns state fun nonce _ => nonce = 1 :=
    creationRuns (by decide +kernel)
  obtain ⟨happlied, hone⟩ := Bool.and_eq_true_iff.mp hresult
  obtain ⟨nonce, s₁, hone, htest⟩ := exists_of_returns hone
  obtain rfl := of_decide_eq_true htest
  have hocc : Occupied firstContract s.host.state := .inr ⟨5, hnonce, by decide⟩
  refine ⟨s, s', r, hs, hocc, hrun, happlied, value_eq_ok.mpr ⟨s₁, hone⟩, fun hkept => ?_⟩
  exact absurd ((hkept hocc).1.symm.trans happlied) (by decide)

end

end CfxEvm
