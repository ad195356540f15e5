import CfxEvm.Frame.Proofs.StackProofs
import CfxEvm.InternalContract.Proofs.FunctionProofs
import CfxEvm.State.Proofs.CreationProofs

/-!
# Proofs: a frame that is not applied leaves no effect

Every program that runs in a frame, the internal contracts included, leaves a state that stands for
some ledger and the open checkpoints as they were. So the checkpoint of a frame that is not applied
still stands for the ledger at its beginning when the frame ends.
-/

open Lib Lib.Prog

namespace CfxEvm

section
variable {g : Globals}

/-- Any effect at all. -/
def Effect.any : Effect where
  ledger _ _ := True
  substate _ := True
  refl _ := trivial
  trans _ _ := trivial
  new := trivial
  accrue _ _ := trivial
  touched _ _ := trivial

/-- A program over the ledger has any effect. -/
theorem any_ledger {α : Type} (y : LedgerM α) : Keeps Effect.any.ledger y :=
  fun _ => wp_intro (fun _ _ => trivial) fun _ _ _ => trivial

variable [Keccak]

theorem suicide_any (contract_address refund_address : Address) (spec : Spec) (nonce : U256) :
    Keeps Effect.any.On (suicide contract_address refund_address spec nonce) :=
  suicide_keeps id (fun _ _ => any_ledger _) (fun _ => any_ledger _) fun _ _ => any_ledger _

theorem context_any (ctx : FrameContext) : ContextKeeps g ctx Effect.any.On :=
  Effect.contextKeeps fun _ =>
    { set_storage := fun _ _ => any_ledger _
      inc_nonce := fun _ => any_ledger _
      log := fun _ _ => trivial
      suicide := fun _ _ => suicide_any _ _ _ _ }

/-! ## Internal contracts -/

theorem functions_any : Effect.any.AllowsFunctions g where
  transfer _ _ _ _ := any_ledger _
  inc_nonce _ := any_ledger _
  log _ _ := trivial

theorem deploy_eip1820_any : Keeps Effect.any.On deploy_eip1820 :=
  deploy_eip1820_keeps (any_ledger _) (fun _ => any_ledger _) id

/-! ## Frames -/

theorem exec_step_any (ctx : FrameContext) (exec : Exec) :
    Keeps Effect.any.On (exec.step g ctx) :=
  exec_step_keeps (context_any ctx) functions_any.functionsKeep deploy_eip1820_any exec

theorem pre_exec_any (params : ActionParams) (is_create : Bool) :
    Keeps Effect.any.On (CallCreateFrame.pre_exec params g.spec is_create) := by
  cases is_create with
  | true => exact pre_exec_create_keeps (fun _ _ => any_ledger _) fun _ => any_ledger _
  | false => exact pre_exec_call_keeps fun _ _ => any_ledger _

theorem permits_any (s : FrameStack) : Permits Effect.any g s where
  pre_exec _ _ _ _ := pre_exec_any _ _
  exec _ _ _ := exec_step_any _ _
  finalize _ _ _ := finalize_keeps fun _ _ => any_ledger _
  created _ _ _ _ _ := trivial

variable [HashOrder]

/-- Every stack of frames that is reached has a state that stands for a ledger. -/
theorem FrameStack.Reachable.rep {s : FrameStack} (h : s.Reachable g) :
    ∃ db saved w, Rep db saved s.host.state w := by
  obtain ⟨s₀, hinit, hrounds⟩ := h
  have hrep : ∃ frame db saved w, s₀.phase = .Enter frame ∧ s₀.frame_stack = [] ∧
      Rep db saved s₀.host.state w := by
    cases hinit with
    | call state _ _ _ _ params hstate =>
      obtain ⟨db, saved, w, hrep⟩ := hstate.rep
      exact ⟨_, db, saved, w, rfl, rfl, hrep⟩
    | create state _ _ _ _ params hstate =>
      obtain ⟨db, saved, w, hrep⟩ := hstate.rep
      exact ⟨_, db, saved, w, rfl, rfl, hrep⟩
  obtain ⟨frame, db, saved, w, hphase, hstack, hrep⟩ := hrep
  have htracks : Tracks Effect.any db saved w s₀.frame_stack s₀.tx_substate s₀ :=
    tracks_enter hphase hrep trivial
  rw [hstack] at htracks
  obtain ⟨T, ws, w', h⟩ := htracks.inside (fun s _ => permits_any s) (inside_of_rounds hrounds)
  exact ⟨db, ws ++ saved, w', h.rep⟩

/-- If the result of a frame is not applied, the state stands for the same ledger as just before the
    frame was executed, and nothing is handed over. -/
theorem unapplied_frame {s s' : FrameStack} {frame : CallCreateFrame}
    {r : Except VmError FrameReturn} {db : StateDb} {saved : List Ledger} {w : Ledger}
    (hrep : Rep db saved s.host.state w) (hphase : s.phase = .Enter frame)
    (hrun : FrameStack.FrameRun g s r s') (hr : frame_applied r = false) :
    SameReads s.host.state s'.host.state ∧ s'.frame_stack = s.frame_stack ∧
      s'.tx_substate = s.tx_substate ∧ returnedSubstate r = none := by
  obtain ⟨hinside, hlen, hret⟩ := hrun
  have htracks : Tracks Effect.any db saved w s.frame_stack s.tx_substate s :=
    tracks_enter hphase hrep trivial
  have htracks' := htracks.inside (fun s _ => permits_any s) hinside
  obtain ⟨hstack, htx, -, hnone, w', hrep', -, hw'⟩ := htracks'.returned hlen hret
  obtain rfl := hw' hr
  exact ⟨sameReads_of_rep hrep hrep', hstack, htx, hnone hr⟩

/-- A frame that is not applied leaves no effect. Whatever frame is entered in a stack that is
    reached, and whatever it and the frames below it do: if its result is an error or has
    `apply_state = false`, then every read of the state gives what it gave just before the frame
    was executed, the waiting frames and the substate of the transaction are what they were, and
    the result hands over no substate, so that whoever takes it up accrues nothing. -/
theorem unapplied_frame_leaves_no_effect {s s' : FrameStack} {frame : CallCreateFrame}
    {r : Except VmError FrameReturn} (hs : s.Reachable g) (hphase : s.phase = .Enter frame)
    (hrun : FrameStack.FrameRun g s r s') (hr : frame_applied r = false) :
    SameReads s.host.state s'.host.state ∧ s'.frame_stack = s.frame_stack ∧
      s'.tx_substate = s.tx_substate ∧ ∀ parent, accrue_substate parent r = parent := by
  obtain ⟨db, saved, w, hrep⟩ := hs.rep
  obtain ⟨hreads, hstack, htx, hsub⟩ := unapplied_frame hrep hphase hrun hr
  refine ⟨hreads, hstack, htx, fun parent => ?_⟩
  rcases r with err | r
  · rfl
  · simp only [accrue_substate]
    rw [show r.substate = none from hsub]

end

section
attribute [local instance] keccakOfEmpty HashOrder.asListed

/-- A machine with one builtin contract, at the address 1, that costs 5. -/
def oneBuiltin : Globals where
  env := ⟨1, 0, 0, 0, 0, 0, 1⟩
  machine := ⟨fun a => if a = 1 then some ⟨fun _ => 5, fun _ => .ok [], 0⟩ else none,
    [], fun _ => 1⟩
  spec := .genesis_spec

/-- A call of that contract from the address 7 with a value of 3 and too little gas. -/
def cheapCall : ActionParams where
  code_address := 1
  code_hash := none
  address := 1
  sender := 7
  original_sender := 7
  gas := 2
  gas_price := 0
  value := .Transfer 3
  code := none
  data := some []
  call_type := .Call
  create_type := .None
  params_type := .Separate

/-- The stack about to execute that call, when the caller has 10. -/
def cheapStack (state : State) : FrameStack :=
  .new state (.new 0) .new .with_no_tracing 0 (.new_call_raw oneBuiltin cheapCall 0 false)

/-- The value of a call that runs out of gas is moved back. -/
theorem unapplied_frame_out_of_gas :
    ∃ state s', State.Reachable state ∧ (State.balance 7).value state = .ok (.ok 10) ∧
      FrameStack.FrameRun oneBuiltin (cheapStack state) (.error .OutOfGas) s' ∧
      SameReads state s'.host.state := by
  have hstate : ∃ state, State.Reachable state ∧ (State.balance 7).value state = .ok (.ok 10) ∧
      ∃ s₁, Next (FrameStack.step oneBuiltin) (cheapStack state) s₁ ∧ ¬s₁.Returned 0 ∧
      ∃ s₂, Next (FrameStack.step oneBuiltin) s₁ s₂ ∧ s₂.frame_stack = [] ∧
        s₂.phase = .LastRes (.Return (.error .OutOfGas)) := by
    refine ⟨_, ⟨.empty, [.cmd (.op (.add_balance 7 10 .NoEmpty 0))], _, rfl⟩, rfl, _,
      rfl, ?_, _, rfl,
      rfl, rfl⟩
    rintro ⟨-, r, hr⟩
    cases hr
  obtain ⟨state, hreach, hbalance, s₁, h₁, hnot₁, s₂, h₂, hstack, hphase⟩ := hstate
  have hs : (cheapStack state).Reachable oneBuiltin :=
    ⟨_, .call state (.new 0) .new .with_no_tracing 0 cheapCall hreach rfl, .refl⟩
  have hnot₀ : ¬(cheapStack state).Returned 0 := by
    rintro ⟨-, r, hr⟩
    cases hr
  have hrun : FrameStack.FrameRun oneBuiltin (cheapStack state) (.error .OutOfGas) s₂ :=
    ⟨.tail (.single ⟨hnot₀, h₁⟩) ⟨hnot₁, h₂⟩, congrArg List.length hstack, hphase⟩
  exact ⟨state, s₂, hreach, hbalance, hrun,
    (unapplied_frame_leaves_no_effect hs rfl hrun rfl).1⟩

end

end CfxEvm
