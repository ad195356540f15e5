import CfxEvm.Frame.Proofs.EffectProofs
import CfxEvm.Frame.Runs

/-!
# Proofs: rounds of the stack of frames

What a round can do (`Round`), what the beginning and the end of a frame do to the state, and the
invariant that ties the open checkpoints to the frames: while a frame and those below it run, every
ledger that the state or one of their checkpoints stands for differs from the one at the beginning
by the effect that the frames are allowed.
-/

open Lib Lib.Prog

namespace CfxEvm

variable [Keccak] [HashOrder] {g : Globals}

/-! ## What a round can do -/

/-- The ways a round can lead from one stack to the next. -/
inductive Round (g : Globals) (s : FrameStack) : FrameStack → Prop
  | enter {frame frame' : CallCreateFrame} {exec : Exec} {h : Host State}
      (hphase : s.phase = .Enter frame)
      (hrun : (frame.exec g).run (s.activate frame.substate).host = .ok (.ok (frame', exec), h)) :
      Round g s { s with host := h, phase := .Execute frame' exec }
  | go_on {frame : CallCreateFrame} {exec exec' : Exec} {h : Host State}
      (hphase : s.phase = .Execute frame exec)
      (hrun : (exec.step g frame.context).run s.host = .ok (.ok (.Continue exec'), h)) :
      Round g s { s with host := h, phase := .Execute frame exec' }
  | returns {frame : CallCreateFrame} {exec : Exec} {result : Except VmError GasLeft}
      {r : Except VmError FrameReturn} {h₁ h : Host State}
      (hphase : s.phase = .Execute frame exec)
      (hrun : (exec.step g frame.context).run s.host = .ok (.ok (.Output (.Return result)), h₁))
      (hret : (frame.process_return g result).run h₁ = .ok (.ok r, h)) :
      Round g s { s with host := h, phase := .LastRes (.Return r) }
  | traps {frame : CallCreateFrame} {exec : Exec} {kind : TrapKind} {resume : Suspended}
      {h : Host State} (hphase : s.phase = .Execute frame exec)
      (hrun : (exec.step g frame.context).run s.host =
        .ok (.ok (.Output (.SubCallCreate kind resume)), h)) :
      Round g s { s with
        host := h
        phase := .LastRes (.SubCallCreate kind (frame.process_trap kind resume h.substate)) }
  | calls {kind : TrapKind} {caller : CallCreateFrame}
      (hphase : s.phase = .LastRes (.SubCallCreate kind caller)) :
      Round g s (s.trap g kind caller)
  | resumes {r : Except VmError FrameReturn} {parent parent' : CallCreateFrame}
      {rest : List CallCreateFrame} {exec : Exec} (hphase : s.phase = .LastRes (.Return r))
      (hstack : s.frame_stack = parent :: rest) (hresume : parent.resume r = .ok (parent', exec)) :
      Round g s { s.activate parent'.substate with
        frame_stack := rest, phase := .Execute parent' exec }

theorem run_enter {frame : CallCreateFrame} {s s' : FrameStack}
    (h : (FrameStack.enter g frame).run s = .ok (.ok (), s')) :
    ∃ frame' exec h', (frame.exec g).run (s.activate frame.substate).host =
      .ok (.ok (frame', exec), h') ∧ s' = { s with host := h', phase := .Execute frame' exec } := by
  obtain ⟨_, _, hs, h⟩ := run_bind_eq_ok.mp h
  obtain ⟨⟨frame', exec⟩, s₁, hexec, h⟩ := run_bind_eq_ok.mp h
  cases hs
  obtain ⟨h', hrun, rfl⟩ := run_zoom_eq_ok.mp hexec
  cases h
  exact ⟨frame', exec, h', hrun, rfl⟩

theorem round_of_execute {frame : CallCreateFrame} {exec : Exec} {s s' : FrameStack}
    (hphase : s.phase = .Execute frame exec)
    (h : (FrameStack.execute g frame exec).run s = .ok (.ok (), s')) : Round g s s' := by
  obtain ⟨progress, s₁, hstep, h⟩ := run_bind_eq_ok.mp h
  obtain ⟨h₁, hrun, rfl⟩ := run_zoom_eq_ok.mp hstep
  rcases progress with exec' | result | ⟨kind, resume⟩
  · cases h
    exact .go_on hphase hrun
  · obtain ⟨last_res, s₂, hout, h⟩ := run_bind_eq_ok.mp h
    obtain ⟨h₂, hproc, rfl⟩ := run_zoom_eq_ok.mp hout
    obtain ⟨r, h₃, hret, hpure⟩ := run_bind_eq_ok.mp hproc
    cases hpure
    cases h
    exact .returns hphase hrun hret
  · obtain ⟨last_res, s₂, hout, h⟩ := run_bind_eq_ok.mp h
    obtain ⟨h₂, hproc, rfl⟩ := run_zoom_eq_ok.mp hout
    cases hproc
    cases h
    exact .traps hphase hrun

/-- Every round is one of the six. -/
theorem round_of_next {s s' : FrameStack} (h : Next (FrameStack.step g) s s') : Round g s s' := by
  unfold Next FrameStack.step at h
  rw [run_bind, run_gets] at h
  simp only [id_eq] at h
  rcases hphase : s.phase with frame | ⟨frame, exec⟩ | r | ⟨kind, caller⟩ <;> rw [hphase] at h
  · obtain ⟨_, s₁, h₁, h⟩ := run_bind_eq_ok.mp h
    obtain ⟨frame', exec, h', hexec, rfl⟩ := run_enter h₁
    cases h
    exact .enter hphase hexec
  · obtain ⟨_, s₁, h₁, h⟩ := run_bind_eq_ok.mp h
    cases h
    exact round_of_execute hphase h₁
  · rcases hstack : s.frame_stack with _ | ⟨parent, rest⟩ <;> simp only [hstack] at h
    · cases h
    · obtain ⟨_, s₁, h₁, h⟩ := run_bind_eq_ok.mp h
      obtain ⟨⟨parent', exec⟩, s₂, hpanic, hset⟩ := run_bind_eq_ok.mp h₁
      obtain ⟨hres, rfl⟩ := run_ofPanic_eq_ok.mp hpanic
      cases hset
      cases h
      exact .resumes hphase hstack hres
  · cases h
    exact .calls hphase

/-- The execution ends when the top frame has its result. -/
theorem output_of_step {s s' : FrameStack} {output : FrameStackOutput}
    (h : (FrameStack.step g).run s = .ok (.ok (some output), s')) :
    ∃ r, s.phase = .LastRes (.Return r) ∧ s.frame_stack = [] ∧ output = s.process_return r ∧
      s' = s := by
  unfold FrameStack.step at h
  rw [run_bind, run_gets] at h
  simp only [id_eq] at h
  rcases hphase : s.phase with frame | ⟨frame, exec⟩ | r | ⟨kind, caller⟩ <;> rw [hphase] at h
  · obtain ⟨_, _, _, hpure⟩ := run_bind_eq_ok.mp h
    cases hpure
  · obtain ⟨_, _, _, hpure⟩ := run_bind_eq_ok.mp h
    cases hpure
  · rcases hstack : s.frame_stack with _ | ⟨parent, rest⟩ <;> simp only [hstack] at h
    · cases h
      exact ⟨r, rfl, rfl, rfl, rfl⟩
    · obtain ⟨_, _, _, hpure⟩ := run_bind_eq_ok.mp h
      cases hpure
  · cases h

/-- What an execution that has ended went through. -/
theorem rounds_of_exec {s s' : FrameStack} {fuel : Nat} {output : FrameStackOutput}
    (h : (FrameStack.exec g fuel).run s = .ok (.ok (some output), s')) :
    ∃ r, Rounds (FrameStack.step g) s s' ∧ s'.phase = .LastRes (.Return r) ∧
      s'.frame_stack = [] ∧ output = s'.process_return r := by
  rcases rounds_of_loop h with hnone | ⟨s₁, hrounds, hlast⟩
  · cases hnone
  · obtain ⟨r, hphase, hstack, rfl, rfl⟩ := output_of_step hlast
    exact ⟨r, hrounds, hphase, hstack, rfl⟩

/-! ## The beginning of a frame -/

/-- What a frame goes through before its code is run: it opens a checkpoint, is pushed to the call
    stack and shown to the observers, and moves the value. -/
structure Begins (g : Globals) (frame : CallCreateFrame) (h : Host State) (params : ActionParams)
    (h₁ : Host State) (frame' : CallCreateFrame) (exec : Exec) (h' : Host State) : Prop where
  status : frame.status = .Input params
  is_create : frame.create_address.isSome = frame.context.is_create
  static : (CallCreateFrame.check_static_flag params frame.context.static_flag
    frame.create_address.isSome).isOk = true
  checkpoint : State.checkpoint.run h.state = .ok (.ok (), h₁.state)
  substate : h₁.substate = h.substate
  callstack : h.callstack.push frame.context.origin.address frame.create_address.isSome =
    .ok h₁.callstack
  observer : h₁.observer = if frame.create_address.isSome then h.observer.record_create params
    else h.observer.record_call params
  shared_cache : h₁.shared_cache = h.shared_cache
  pre_exec : (CallCreateFrame.pre_exec params g.spec frame.create_address.isSome).run h₁ =
    .ok (.ok (), h')
  object : CallCreateFrame.exec_object frame.kind params = .ok exec
  frame_eq : frame' = { frame with status := .Running }

theorem frame_exec_inv {frame frame' : CallCreateFrame} {exec : Exec} {h h' : Host State}
    (hrun : (frame.exec g).run h = .ok (.ok (frame', exec), h')) :
    ∃ params h₁, Begins g frame h params h₁ frame' exec h' := by
  unfold CallCreateFrame.exec at hrun
  rcases hstatus : frame.status with params | _ | _ | _ | _ <;> rw [hstatus] at hrun
  case Input =>
    obtain ⟨_, s₁, hassert₁, hrest₁⟩ := run_bind_eq_ok.mp hrun
    obtain ⟨hcreate, rfl⟩ := run_assert_eq_ok.mp hassert₁
    obtain ⟨_, s₂, hassert₂, hrest₂⟩ := run_bind_eq_ok.mp hrest₁
    obtain ⟨hstatic, rfl⟩ := run_assert_eq_ok.mp hassert₂
    obtain ⟨_, s₃, hobs, hrest₃⟩ := run_bind_eq_ok.mp hrest₂
    cases hobs
    obtain ⟨_, s₄, hcheck, hrest₄⟩ := run_bind_eq_ok.mp hrest₃
    obtain ⟨st, hcheck', rfl⟩ := run_zoom_eq_ok.mp hcheck
    obtain ⟨_, _, hgets, hrest₄⟩ := run_bind_eq_ok.mp hrest₄
    cases hgets
    obtain ⟨callstack, _, hpanics, hrest₄⟩ := run_bind_eq_ok.mp hrest₄
    obtain ⟨hpush, rfl⟩ := run_ofPanic_eq_ok.mp hpanics
    obtain ⟨_, s₅, hupdate, hrest₅⟩ := run_bind_eq_ok.mp hrest₄
    cases hupdate
    obtain ⟨_, s₆, hpre, hrest₆⟩ := run_bind_eq_ok.mp hrest₅
    obtain ⟨exec, s₇, hpanic, hrest₇⟩ := run_bind_eq_ok.mp hrest₆
    obtain ⟨hobj, rfl⟩ := run_ofPanic_eq_ok.mp hpanic
    cases hrest₇
    refine ⟨params, _, hstatus, by simpa using hcreate, hstatic, ?_, ?_, ?_, ?_, ?_,
      hpre, hobj, rfl⟩
    · exact hcheck'
    · rfl
    · exact hpush
    · rfl
    · rfl
  all_goals cases hrun

variable {e : Effect} {db : StateDb} {saved : List Ledger} {w w₀ : Ledger}

/-- The beginning of a frame opens a checkpoint and has the effect of moving the value. -/
theorem frame_exec_effect {frame frame' : CallCreateFrame} {exec : Exec} {h h' : Host State}
    (hrun : (frame.exec g).run h = .ok (.ok (frame', exec), h'))
    (hpre : ∀ params, frame.status = .Input params →
      Keeps e.On (CallCreateFrame.pre_exec params g.spec frame.create_address.isSome))
    (hrep : Rep db saved h.state w) (hsub : e.substate h.substate) :
    ∃ w', Rep db (w :: saved) h'.state w' ∧ e.ledger w w' ∧ e.substate h'.substate := by
  obtain ⟨params, h₁, hbegins⟩ := frame_exec_inv hrun
  obtain ⟨s₁, hcheck, hrep₁⟩ := checkpoint_spec (x := ⟨w, saved⟩) hrep
  rw [hbegins.checkpoint] at hcheck
  obtain rfl : h₁.state = s₁ := (Prod.mk.inj (Except.ok.inj hcheck)).2
  have hon := (hpre params hbegins.status).of_run hbegins.pre_exec
  obtain ⟨w', hrep', hw'⟩ := hon.state db (w :: saved) w hrep₁
  exact ⟨w', hrep', hw', hon.substate (hbegins.substate ▸ hsub)⟩

/-! ## The end of a frame -/

/-- The substate that the result of a frame hands over. -/
def returnedSubstate (r : Except VmError FrameReturn) : Option Substate :=
  match r with
  | .ok r => r.substate
  | .error _ => none

/-- What a frame goes through after its code was run with the result `result`. -/
structure Ends (g : Globals) (frame : CallCreateFrame) (result : Except VmError GasLeft)
    (h : Host State) (fin : Except VmError FinalizationResult) (h₁ : Host State)
    (substate : Option Substate) (h₂ : Host State) (r : Except VmError FrameReturn)
    (h' : Host State) : Prop where
  finalize : (finalize g frame.context result).run h = .ok (fin, h₁)
  no_db_error : ∀ e, fin ≠ .error (.StateDbError e)
  close : (frame.close (applied fin)).run h₁ = .ok (.ok substate, h₂)
  result_eq : r = fin.map (FrameReturn.new · frame.create_address substate)
  observer : (if frame.context.is_create then h₂.observer.record_create_result r
    else h₂.observer.record_call_result r) = .ok h'.observer
  callstack : ∃ top, h₂.callstack.pop = .ok (top, h'.callstack)
  state : h'.state = h₂.state
  shared_cache : h'.shared_cache = h₂.shared_cache

theorem process_return_inv {frame : CallCreateFrame} {result : Except VmError GasLeft}
    {r : Except VmError FrameReturn} {h h' : Host State}
    (hrun : (frame.process_return g result).run h = .ok (.ok r, h')) :
    ∃ fin h₁ substate h₂, Ends g frame result h fin h₁ substate h₂ r h' := by
  obtain ⟨fin, h₁, hfin, hrest₁⟩ := run_bind_eq_ok.mp hrun
  obtain ⟨fin', h₂, hsep, hrest₂⟩ := run_bind_eq_ok.mp hrest₁
  have hsep' : fin' = fin ∧ h₂ = h₁ ∧ ∀ e, fin' ≠ .error (.StateDbError e) := by
    unfold separate_out_db_error at hsep
    split at hsep
    · cases hsep
    · rename_i hne
      cases hsep
      exact ⟨rfl, rfl, hne⟩
  obtain ⟨rfl, rfl, hne⟩ := hsep'
  obtain ⟨substate, h₃, hclose, hrest₃⟩ := run_bind_eq_ok.mp hrest₂
  obtain ⟨_, _, hobs, hrest₄⟩ := run_bind_eq_ok.mp hrest₃
  cases hobs
  obtain ⟨_, _, hpanic, hrest₅⟩ := run_bind_eq_ok.mp hrest₄
  obtain ⟨hobserver, rfl⟩ := run_ofPanic_eq_ok.mp hpanic
  obtain ⟨_, _, hcs, hrest₆⟩ := run_bind_eq_ok.mp hrest₅
  cases hcs
  obtain ⟨⟨top, _⟩, _, hpop, hrest₇⟩ := run_bind_eq_ok.mp hrest₆
  obtain ⟨hcallstack, rfl⟩ := run_ofPanic_eq_ok.mp hpop
  cases hrest₇
  exact ⟨fin', h₂, substate, _, run_result_eq_ok.mp hfin, hne, hclose, rfl, hobserver,
    ⟨top, hcallstack⟩, rfl, rfl⟩

/-- Closing the checkpoint of a frame keeps what it did, or goes back to its beginning. -/
theorem close_effect {frame : CallCreateFrame} {apply_state : Bool} {substate : Option Substate}
    {h h' : Host State} (hrun : (frame.close apply_state).run h = .ok (.ok substate, h'))
    (hcreated : ∀ s, e.substate s →
      e.substate (CallCreateFrame.note_created frame.create_address s))
    (hrep : Rep db (w₀ :: saved) h.state w) (hsub : e.substate h.substate) :
    Rep db saved h'.state (if apply_state then w else w₀) ∧
      (apply_state = false → substate = none) ∧ ∀ s, substate = some s → e.substate s := by
  unfold CallCreateFrame.close at hrun
  cases apply_state with
  | true =>
    obtain ⟨_, h₁, hset, hrest₁⟩ := run_bind_eq_ok.mp hrun
    cases hset
    obtain ⟨_, h₂, hdiscard, hrest₂⟩ := run_bind_eq_ok.mp hrest₁
    obtain ⟨s', hdiscard', rfl⟩ := run_zoom_eq_ok.mp hdiscard
    obtain ⟨_, h₃, hget, hrest₃⟩ := run_bind_eq_ok.mp hrest₂
    cases hget
    cases hrest₃
    obtain ⟨s'', hs'', hrep'⟩ := discard_checkpoint_spec (x := ⟨w, w₀ :: saved⟩) hrep
    rw [hdiscard'] at hs''
    obtain rfl : s' = s'' := (Prod.mk.inj (Except.ok.inj hs'')).2
    refine ⟨hrep', by simp, fun s hs => ?_⟩
    obtain rfl := Option.some_inj.mp hs
    exact hcreated _ hsub
  | false =>
    obtain ⟨_, h₁, hrevert, hrest₁⟩ := run_bind_eq_ok.mp hrun
    obtain ⟨s', hrevert', rfl⟩ := run_zoom_eq_ok.mp hrevert
    cases hrest₁
    obtain ⟨s'', hs'', hrep'⟩ := revert_to_checkpoint_spec (x := ⟨w, w₀ :: saved⟩) hrep
    rw [hrevert'] at hs''
    obtain rfl : s' = s'' := (Prod.mk.inj (Except.ok.inj hs'')).2
    exact ⟨hrep', fun _ => rfl, by simp⟩

/-- A frame that ends keeps what it did if it is applied; else the state is the one at its
    beginning and no substate is handed over. -/
theorem process_return_effect {frame : CallCreateFrame} {result : Except VmError GasLeft}
    {r : Except VmError FrameReturn} {h h' : Host State}
    (hrun : (frame.process_return g result).run h = .ok (.ok r, h'))
    (hfin : Keeps e.On (finalize g frame.context result))
    (hcreated : ∀ s, e.substate s →
      e.substate (CallCreateFrame.note_created frame.create_address s))
    (hrep : Rep db (w₀ :: saved) h.state w) (hsub : e.substate h.substate) :
    ∃ w', Rep db saved h'.state (if frame_applied r then w' else w₀) ∧ e.ledger w w' ∧
      (frame_applied r = false → returnedSubstate r = none) ∧
      ∀ s, returnedSubstate r = some s → e.substate s := by
  obtain ⟨fin, h₁, substate, h₂, hends⟩ := process_return_inv hrun
  have hclose := hends.close
  have hstate := hends.state
  obtain rfl := hends.result_eq
  have hon := hfin.of_run hends.finalize
  obtain ⟨w', hrep₁, hw'⟩ := hon.state db (w₀ :: saved) w hrep
  obtain ⟨hrep₂, hnone, hsome⟩ := close_effect hclose hcreated hrep₁ (hon.substate hsub)
  refine ⟨w', ?_, hw', ?_, ?_⟩
  · rw [hstate]
    cases fin <;> exact hrep₂
  · cases fin with
    | error err => exact fun _ => rfl
    | ok fin => exact hnone
  · cases fin with
    | error err => exact fun s hs => absurd hs (by simp [returnedSubstate, Except.map])
    | ok fin => exact hsome

/-! ## The frames and their checkpoints -/

/-- Everything that the next round can run has the effect. -/
structure Permits (e : Effect) (g : Globals) (s : FrameStack) : Prop where
  pre_exec : ∀ frame params, s.phase = .Enter frame → frame.status = .Input params →
    Keeps e.On (CallCreateFrame.pre_exec params g.spec frame.create_address.isSome)
  exec : ∀ frame exec, s.phase = .Execute frame exec → Keeps e.On (exec.step g frame.context)
  finalize : ∀ frame exec, s.phase = .Execute frame exec →
    ∀ result, Keeps e.On (finalize g frame.context result)
  created : ∀ frame exec, s.phase = .Execute frame exec →
    ∀ t, e.substate t → e.substate (CallCreateFrame.note_created frame.create_address t)

/-- Whether the current frame has opened its checkpoint. -/
def Phase.opened : Phase → Nat
  | .Enter _ => 0
  | .Execute _ _ => 1
  | .LastRes (.Return _) => 0
  | .LastRes (.SubCallCreate _ _) => 1

/-- What is known of the current frame, while the frames `T` that it was called by wait. -/
def PhaseTracks (e : Effect) (w₀ : Ledger) (T : List CallCreateFrame) (w : Ledger)
    (s : FrameStack) : Prop :=
  match s.phase with
  | .Enter frame => e.substate frame.substate ∧ (T = [] → w = w₀)
  | .Execute _ _ => e.substate s.host.substate
  | .LastRes (.SubCallCreate _ caller) => e.substate caller.substate
  | .LastRes (.Return r) => (∀ t, returnedSubstate r = some t → e.substate t) ∧
      (frame_applied r = false → returnedSubstate r = none ∧ (T = [] → w = w₀))

/-- A frame was entered on top of the frames `base` when the state stood for `w₀`. Now the frames
    `T` wait above those, the frame itself at the bottom of them, and the checkpoints opened since
    stand for the ledgers `ws`. -/
structure TracksBy (e : Effect) (db : StateDb) (saved : List Ledger) (w₀ : Ledger)
    (base : List CallCreateFrame) (tx : Substate) (T : List CallCreateFrame)
    (ws : List Ledger) (w : Ledger) (s : FrameStack) : Prop where
  stack : s.frame_stack = T ++ base
  tx_substate : s.tx_substate = tx
  rep : Rep db (ws ++ saved) s.host.state w
  opened : ws.length = T.length + s.phase.opened
  /-- The checkpoint of the frame itself is the one opened first. -/
  first : ∀ v, ws.getLast? = some v → v = w₀
  current : e.ledger w₀ w
  checkpoints : ∀ v ∈ ws, e.ledger w₀ v
  waiting : ∀ f ∈ T, e.substate f.substate
  phase : PhaseTracks e w₀ T w s

/-- The same, whichever frames are waiting. -/
def Tracks (e : Effect) (db : StateDb) (saved : List Ledger) (w₀ : Ledger)
    (base : List CallCreateFrame) (tx : Substate) (s : FrameStack) : Prop :=
  ∃ T ws w, TracksBy e db saved w₀ base tx T ws w s

section
variable {base T : List CallCreateFrame} {tx : Substate} {ws : List Ledger} {s s' : FrameStack}

omit [HashOrder] in
/-- At the beginning of a frame. -/
theorem tracks_enter {frame : CallCreateFrame} (hphase : s.phase = .Enter frame)
    (hrep : Rep db saved s.host.state w₀) (hsub : e.substate frame.substate) :
    Tracks e db saved w₀ s.frame_stack s.tx_substate s := by
  refine ⟨[], [], w₀, rfl, rfl, hrep, ?_, by simp, e.refl w₀, by simp, by simp, ?_⟩
  · simp [hphase, Phase.opened]
  · simp only [PhaseTracks, hphase]
    exact ⟨hsub, fun _ => trivial⟩

theorem TracksBy.enter (h : TracksBy e db saved w₀ base tx T ws w s) (hok : Permits e g s)
    {frame frame' : CallCreateFrame} {exec : Exec} {h' : Host State}
    (hphase : s.phase = .Enter frame)
    (hrun : (frame.exec g).run (s.activate frame.substate).host = .ok (.ok (frame', exec), h')) :
    Tracks e db saved w₀ base tx { s with host := h', phase := .Execute frame' exec } := by
  have hp := h.phase
  simp only [PhaseTracks, hphase] at hp
  have hopened : ws.length = T.length := by simpa [hphase, Phase.opened] using h.opened
  obtain ⟨w', hrep', hw', hsub'⟩ :=
    frame_exec_effect hrun (fun params => hok.pre_exec frame params hphase) h.rep hp.1
  refine ⟨T, w :: ws, w', h.stack, h.tx_substate, hrep', ?_, ?_, e.trans h.current hw', ?_,
    h.waiting, hsub'⟩
  · simp [Phase.opened, hopened]
  · -- The checkpoint just opened is the first one if no frame is waiting.
    intro v hv
    cases ws with
    | nil =>
      have hT : T = [] := List.length_eq_zero_iff.mp (by simpa using hopened.symm)
      rw [List.getLast?_singleton, Option.some_inj] at hv
      exact hv.symm.trans (hp.2 hT)
    | cons v' ws => exact h.first v (by simpa using hv)
  · intro v hv
    rcases List.mem_cons.mp hv with rfl | hv
    · exact h.current
    · exact h.checkpoints v hv

omit [HashOrder] in
theorem TracksBy.go_on (h : TracksBy e db saved w₀ base tx T ws w s) (hok : Permits e g s)
    {frame : CallCreateFrame} {exec exec' : Exec} {h' : Host State}
    (hphase : s.phase = .Execute frame exec)
    (hrun : (exec.step g frame.context).run s.host = .ok (.ok (.Continue exec'), h')) :
    Tracks e db saved w₀ base tx { s with host := h', phase := .Execute frame exec' } := by
  have hp := h.phase
  simp only [PhaseTracks, hphase] at hp
  have hon := (hok.exec frame exec hphase).of_run hrun
  obtain ⟨w', hrep', hw'⟩ := hon.state _ _ _ h.rep
  refine ⟨T, ws, w', h.stack, h.tx_substate, hrep', ?_, h.first, e.trans h.current hw',
    h.checkpoints, h.waiting, hon.substate hp⟩
  simpa [hphase, Phase.opened] using h.opened

theorem TracksBy.returns (h : TracksBy e db saved w₀ base tx T ws w s) (hok : Permits e g s)
    {frame : CallCreateFrame} {exec : Exec} {result : Except VmError GasLeft}
    {r : Except VmError FrameReturn} {h₁ h' : Host State} (hphase : s.phase = .Execute frame exec)
    (hrun : (exec.step g frame.context).run s.host = .ok (.ok (.Output (.Return result)), h₁))
    (hret : (frame.process_return g result).run h₁ = .ok (.ok r, h')) :
    Tracks e db saved w₀ base tx { s with host := h', phase := .LastRes (.Return r) } := by
  have hp := h.phase
  simp only [PhaseTracks, hphase] at hp
  have hon := (hok.exec frame exec hphase).of_run hrun
  obtain ⟨w₁, hrep₁, hw₁⟩ := hon.state _ _ _ h.rep
  -- The checkpoint of the frame that ends is the last one.
  have hopened : ws.length = T.length + 1 := by simpa [hphase, Phase.opened] using h.opened
  obtain ⟨v, ws, rfl⟩ := List.exists_cons_of_length_eq_add_one hopened
  have hlen : ws.length = T.length := by simpa using hopened
  obtain ⟨w₂, hrep₂, hw₂, hnone, hsome⟩ := process_return_effect hret
    (hok.finalize frame exec hphase result) (hok.created frame exec hphase) hrep₁ (hon.substate hp)
  have hv : e.ledger w₀ v := h.checkpoints v (by simp)
  refine ⟨T, ws, _, h.stack, h.tx_substate, hrep₂, by simp [Phase.opened, hlen], ?_, ?_,
    fun u hu => h.checkpoints u (by simp [hu]), h.waiting, hsome, fun hr => ⟨hnone hr, ?_⟩⟩
  · intro u hu
    refine h.first u ?_
    cases ws with
    | nil => simp at hu
    | cons v' ws => simpa using hu
  · cases frame_applied r with
    | true => exact e.trans (e.trans h.current hw₁) hw₂
    | false => exact hv
  · intro hT
    have hws : ws = [] := List.length_eq_zero_iff.mp (by simpa [hT] using hlen)
    rw [hr]
    exact h.first v (by simp [hws])

omit [HashOrder] in
theorem TracksBy.traps (h : TracksBy e db saved w₀ base tx T ws w s) (hok : Permits e g s)
    {frame : CallCreateFrame} {exec : Exec} {kind : TrapKind} {resume : Suspended}
    {h' : Host State} (hphase : s.phase = .Execute frame exec)
    (hrun : (exec.step g frame.context).run s.host =
      .ok (.ok (.Output (.SubCallCreate kind resume)), h')) :
    Tracks e db saved w₀ base tx { s with
      host := h'
      phase := .LastRes (.SubCallCreate kind (frame.process_trap kind resume h'.substate)) } := by
  have hp := h.phase
  simp only [PhaseTracks, hphase] at hp
  have hon := (hok.exec frame exec hphase).of_run hrun
  obtain ⟨w', hrep', hw'⟩ := hon.state _ _ _ h.rep
  refine ⟨T, ws, w', h.stack, h.tx_substate, hrep', ?_, h.first, e.trans h.current hw',
    h.checkpoints, h.waiting, hon.substate hp⟩
  simpa [hphase, Phase.opened] using h.opened

omit [HashOrder] in
theorem TracksBy.calls (h : TracksBy e db saved w₀ base tx T ws w s) {kind : TrapKind}
    {caller : CallCreateFrame} (hphase : s.phase = .LastRes (.SubCallCreate kind caller)) :
    Tracks e db saved w₀ base tx (s.trap g kind caller) := by
  have hp := h.phase
  simp only [PhaseTracks, hphase] at hp
  refine ⟨caller :: T, ws, w, congrArg (caller :: ·) h.stack, h.tx_substate, h.rep, ?_, h.first,
    h.current, h.checkpoints, ?_, ?_, fun hT => absurd hT (by simp)⟩
  · simpa [hphase, Phase.opened, FrameStack.trap] using h.opened
  · intro f hf
    rcases List.mem_cons.mp hf with rfl | hf
    · exact hp
    · exact h.waiting f hf
  · cases kind <;> exact e.new

section
omit [Keccak] [HashOrder]

/-- A parent that takes up a result merges the substate that comes with it. -/
theorem resume_inv {parent parent' : CallCreateFrame} {r : Except VmError FrameReturn}
    {exec : Exec} (h : parent.resume r = .ok (parent', exec)) :
    CallCreateFrame.resume_object parent.status r = .ok exec ∧
      parent' = { parent with
        substate := accrue_substate parent.substate r, status := .Running } := by
  unfold CallCreateFrame.resume at h
  rcases hx : CallCreateFrame.resume_object parent.status r with p | exec' <;> rw [hx] at h <;>
    cases h
  exact ⟨rfl, rfl⟩

theorem Substate.mem_extendSet {a : Address} {set items : List Address} :
    a ∈ Substate.extendSet set items ↔ a ∈ set ∨ a ∈ items := by
  unfold Substate.extendSet
  induction items generalizing set with
  | nil => simp
  | cons b items ih =>
    rw [List.foldl_cons, ih, List.mem_insert_iff, List.mem_cons]
    tauto

theorem Effect.accrue_substate {t : Substate} {r : Except VmError FrameReturn} (ht : e.substate t)
    (hr : ∀ u, returnedSubstate r = some u → e.substate u) :
    e.substate (CfxEvm.accrue_substate t r) := by
  rcases r with err | r
  · exact ht
  · unfold CfxEvm.accrue_substate
    rcases hu : r.substate with _ | u
    · simpa only [hu] using ht
    · simpa only [hu] using e.accrue ht (hr u hu)

end

omit [HashOrder] in
theorem TracksBy.resumes (h : TracksBy e db saved w₀ base tx T ws w s)
    (hnot : ¬s.Returned base.length) {r : Except VmError FrameReturn}
    {parent parent' : CallCreateFrame} {rest : List CallCreateFrame} {exec : Exec}
    (hphase : s.phase = .LastRes (.Return r)) (hstack : s.frame_stack = parent :: rest)
    (hresume : parent.resume r = .ok (parent', exec)) :
    Tracks e db saved w₀ base tx { s.activate parent'.substate with
      frame_stack := rest, phase := .Execute parent' exec } := by
  have hp := h.phase
  simp only [PhaseTracks, hphase] at hp
  have hst := h.stack
  rw [hstack] at hst
  -- The frame itself has no result yet, so the parent is one of those that wait above `base`.
  cases T with
  | nil =>
    refine absurd ⟨?_, r, hphase⟩ hnot
    rw [h.stack, List.nil_append]
  | cons f T =>
    obtain ⟨rfl, rfl⟩ := List.cons.inj hst
    refine ⟨T, ws, w, rfl, h.tx_substate, h.rep, ?_, h.first, h.current, h.checkpoints,
      fun f hf => h.waiting f (by simp [hf]), ?_⟩
    · simpa [hphase, Phase.opened] using h.opened
    · rw [(resume_inv hresume).2]
      exact Effect.accrue_substate (h.waiting parent (by simp)) hp.1

/-- Every round up to the result of the frame keeps track of the frames and their checkpoints. -/
theorem Tracks.round (h : Tracks e db saved w₀ base tx s) (hok : Permits e g s)
    (hnot : ¬s.Returned base.length) (hround : Round g s s') :
    Tracks e db saved w₀ base tx s' := by
  obtain ⟨T, ws, w, h⟩ := h
  cases hround with
  | enter hphase hrun => exact h.enter hok hphase hrun
  | go_on hphase hrun => exact h.go_on hok hphase hrun
  | returns hphase hrun hret => exact h.returns hok hphase hrun hret
  | traps hphase hrun => exact h.traps hok hphase hrun
  | calls hphase => exact h.calls hphase
  | resumes hphase hstack hresume => exact h.resumes hnot hphase hstack hresume

/-- So does the whole run of the frame. -/
theorem Tracks.inside (h : Tracks e db saved w₀ base tx s)
    (hok : ∀ s₁, FrameStack.Inside g base.length s s₁ → Permits e g s₁)
    (hrun : FrameStack.Inside g base.length s s') : Tracks e db saved w₀ base tx s' := by
  induction hrun with
  | refl => exact h
  | tail hrun hstep ih => exact ih.round (hok _ hrun) hstep.1 (round_of_next hstep.2)

/-- The top frame has no result as long as there is another round. -/
theorem inside_of_rounds (hrun : Rounds (FrameStack.step g) s s') : FrameStack.Inside g 0 s s' := by
  refine Relation.ReflTransGen.mono (fun s₁ s₂ hnext => ⟨?_, hnext⟩) _ _ hrun
  rintro ⟨hlen, r, hr⟩
  have hnil := List.length_eq_zero_iff.mp hlen
  cases round_of_next hnext with
  | enter h => exact absurd (hr.symm.trans h) (by simp)
  | go_on h => exact absurd (hr.symm.trans h) (by simp)
  | returns h => exact absurd (hr.symm.trans h) (by simp)
  | traps h => exact absurd (hr.symm.trans h) (by simp)
  | calls h => exact absurd (hr.symm.trans h) (by simp)
  | resumes _ hstack => exact absurd (hnil.symm.trans hstack) (by simp)

omit [HashOrder] in
/-- When the frame has its result, the waiting frames and the substate of the transaction are those
    of its beginning; if it is not applied, so is the ledger. -/
theorem Tracks.returned (h : Tracks e db saved w₀ base tx s)
    (hlen : s.frame_stack.length = base.length) {r : Except VmError FrameReturn}
    (hphase : s.phase = .LastRes (.Return r)) :
    s.frame_stack = base ∧ s.tx_substate = tx ∧
      (∀ t, returnedSubstate r = some t → e.substate t) ∧
      (frame_applied r = false → returnedSubstate r = none) ∧
      ∃ w, Rep db saved s.host.state w ∧ e.ledger w₀ w ∧ (frame_applied r = false → w = w₀) := by
  obtain ⟨T, ws, w, h⟩ := h
  have hp := h.phase
  simp only [PhaseTracks, hphase] at hp
  have hT : T = [] := by
    rw [h.stack, List.length_append] at hlen
    exact List.length_eq_zero_iff.mp (by omega)
  subst hT
  have hws : ws = [] := List.length_eq_zero_iff.mp (by simpa [hphase, Phase.opened] using h.opened)
  subst hws
  exact ⟨h.stack, h.tx_substate, hp.1, fun hr => (hp.2 hr).1, w, h.rep, h.current,
    fun hr => (hp.2 hr).2 rfl⟩

/-! ## Stacks that are reached -/

theorem FrameStack.Reachable.rounds (h : s.Reachable g) (hrun : Rounds (FrameStack.step g) s s') :
    s'.Reachable g := by
  obtain ⟨s₀, hinit, hrun₀⟩ := h
  exact ⟨s₀, hinit, hrun₀.trans hrun⟩

theorem FrameStack.Reachable.inside {depth : Nat} (h : s.Reachable g)
    (hrun : FrameStack.Inside g depth s s') : s'.Reachable g :=
  h.rounds (Relation.ReflTransGen.mono (fun _ _ hnext => hnext.2) _ _ hrun)

/-- A frame that is entered has recorded nothing yet. -/
theorem FrameStack.Reachable.enter_substate (h : s.Reachable g) {frame : CallCreateFrame}
    (hphase : s.phase = .Enter frame) : frame.substate = .new := by
  obtain ⟨s₀, hinit, hrun⟩ := h
  rcases Relation.ReflTransGen.cases_tail hrun with rfl | ⟨s₁, -, hnext⟩
  · cases hinit <;> cases hphase <;> rfl
  · cases round_of_next hnext with
    | enter => cases hphase
    | go_on => cases hphase
    | returns => cases hphase
    | traps => cases hphase
    | @calls kind caller =>
      cases hphase
      cases kind <;> rfl
    | resumes => cases hphase

/-! ## Runs that are computed -/

theorem rounds_of_after {n : ℕ} (h : FrameStack.after g n s = some s') :
    Rounds (FrameStack.step g) s s' := by
  induction n generalizing s with
  | zero =>
    obtain rfl := Option.some_inj.mp h
    exact .refl
  | succ n ih =>
    unfold FrameStack.after at h
    split at h
    · exact .head ‹_› (ih h)
    · cases h

theorem next_of_after (h : FrameStack.after g 1 s = some s') : Next (FrameStack.step g) s s' := by
  unfold FrameStack.after at h
  split at h
  · obtain rfl := Option.some_inj.mp h
    assumption
  · cases h

/-- Every stack that is reached is one of those that were tested. -/
theorem of_always {test : FrameStack → Bool} {fuel : ℕ}
    (h : FrameStack.always g test fuel s = true) (hrun : Rounds (FrameStack.step g) s s') :
    test s' = true := by
  induction fuel generalizing s with
  | zero => cases h
  | succ fuel ih =>
    obtain ⟨htest, hgoes⟩ := Bool.and_eq_true_iff.mp h
    rcases Relation.ReflTransGen.cases_head hrun with rfl | ⟨s₁, hnext, hrun⟩
    · exact htest
    · have hnext : (FrameStack.step g).run s = .ok (.ok none, s₁) := hnext
      rw [hnext] at hgoes
      exact ih hgoes hrun

omit [Keccak] [HashOrder] in
theorem returned_eq_some {depth : ℕ} {r : Except VmError FrameReturn} :
    s.returned depth = some r ↔ s.frame_stack.length = depth ∧ s.phase = .LastRes (.Return r) := by
  unfold FrameStack.returned
  split
  · rename_i r' hphase
    rw [hphase]
    by_cases hlen : s.frame_stack.length = depth
    · simp [hlen]
    · simp [hlen]
  · rename_i hother
    constructor
    · rintro ⟨⟩
    · rintro ⟨-, hphase⟩
      exact absurd hphase (hother r)

/-- What is computed is the run of the frame. -/
theorem frameRun_of_run_frame {fuel : ℕ} {r : Except VmError FrameReturn}
    (h : FrameStack.run_frame g s.frame_stack.length fuel s = some (r, s')) :
    FrameStack.FrameRun g s r s' := by
  suffices hinside : ∀ depth, FrameStack.run_frame g depth fuel s = some (r, s') →
      FrameStack.Inside g depth s s' ∧ s'.returned depth = some r by
    obtain ⟨hinside, hreturned⟩ := hinside _ h
    exact ⟨hinside, returned_eq_some.mp hreturned⟩
  clear h
  intro depth h
  induction fuel generalizing s with
  | zero =>
    obtain ⟨r', hreturned, heq⟩ := Option.map_eq_some_iff.mp h
    obtain ⟨rfl, rfl⟩ := Prod.mk.inj heq
    exact ⟨.refl, hreturned⟩
  | succ fuel ih =>
    unfold FrameStack.run_frame at h
    rcases hreturned : s.returned depth with _ | r' <;> rw [hreturned] at h <;> dsimp only at h
    · have hnot : ¬s.Returned depth := by
        rintro ⟨hlen, r', hphase⟩
        rw [returned_eq_some.mpr ⟨hlen, hphase⟩] at hreturned
        cases hreturned
      split at h
      · rename_i s₁ hnext
        obtain ⟨hinside, hresult⟩ := ih h
        exact ⟨.head ⟨hnot, hnext⟩ hinside, hresult⟩
      · cases h
    · obtain ⟨rfl, rfl⟩ := Prod.mk.inj (Option.some_inj.mp h)
      exact ⟨.refl, hreturned⟩

end

/-- An interpreter of narrow gas runs, and passes the test. -/
def Phase.interprets (test : Interpreter .usize → Bool) : Phase → Bool
  | .Execute _ (.Interpreter .usize i) => test i
  | _ => false

omit [Keccak] [HashOrder] in
theorem Phase.exists_of_interprets {test : Interpreter .usize → Bool} {phase : Phase}
    (h : phase.interprets test = true) :
    ∃ frame i, phase = .Execute frame (.Interpreter .usize i) ∧ test i = true := by
  unfold interprets at h
  split at h
  · exact ⟨_, _, rfl, h⟩
  · cases h

/-- A frame traps into another one. -/
def Phase.calls : Phase → Bool
  | .LastRes (.SubCallCreate _ _) => true
  | _ => false

omit [Keccak] [HashOrder] in
theorem Phase.exists_of_calls {phase : Phase} (h : phase.calls = true) :
    ∃ kind caller, phase = .LastRes (.SubCallCreate kind caller) := by
  unfold calls at h
  split at h
  · exact ⟨_, _, rfl⟩
  · cases h

section
attribute [local instance] keccakOfEmpty

/-- `CALL` of the address 8 with the value 1 and 100 units of gas, and `STOP`. -/
def payingCode : Bytes := [0x60, 0, 0x60, 0, 0x60, 0, 0x60, 0, 0x60, 1, 0x60, 8, 0x60, 100, 0xf1, 0]

/-- A call of this code from the address 7. -/
def payingCall : ActionParams where
  code_address := 1
  code_hash := none
  address := 1
  sender := 7
  original_sender := 7
  gas := 200000
  gas_price := 0
  value := .Transfer 0
  code := some payingCode
  data := some []
  call_type := .Call
  create_type := .None
  params_type := .Separate

/-- The stack about to execute the call, at an address with a balance of 10. -/
def payingStack : FrameStack :=
  .new (.new (StateDb.empty.set_account 1 ⟨10, 0, KECCAK_EMPTY⟩)) (.new 0) .new .with_no_tracing 0
    (.new_call_raw bareMachine payingCall 0 false)

theorem payingStack_initial : FrameStack.Initial bareMachine payingStack :=
  .call _ _ _ _ _ _ ⟨_, [], _, rfl⟩ rfl

end

end CfxEvm
