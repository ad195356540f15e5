import CfxEvm.Frame.Proofs.AtomicityProofs
import CfxEvm.Frame.Proofs.PlainProofs
import CfxEvm.State.Proofs.BalanceProofs

/-!
# Proofs: static frames are read-only

Under the static flag the context refuses every write, a frame creates nothing, and what it moves is
nothing or goes from an address to itself. The frames that it calls inherit the flag. So the ledger
stays as it is and nothing is recorded, from the beginning of a static frame to its result.
-/

open Lib Lib.Prog

namespace CfxEvm

/-- No log, destroyed contract or created contract is recorded. -/
def Substate.Clean (t : Substate) : Prop :=
  t.logs = [] ∧ t.suicides = [] ∧ t.contracts_created = []

/-- Nothing changes and nothing is recorded. -/
def Effect.readOnly : Effect where
  ledger := Eq
  substate := Substate.Clean
  refl _ := rfl
  trans := Eq.trans
  new := ⟨rfl, rfl, rfl⟩
  accrue := by
    rintro s t ⟨hs₁, hs₂, hs₃⟩ ⟨ht₁, ht₂, ht₃⟩
    exact ⟨by simp [Substate.accrue, hs₁, ht₁],
      by simp [Substate.accrue, Substate.extendSet, hs₂, ht₂],
      by simp [Substate.accrue, hs₃, ht₃]⟩
  touched := by
    rintro s mode h
    cases mode <;> exact h

section
variable [Keccak] {g : Globals}

/-- The value of a harmless call changes no account. -/
theorem transfer_readOnly {mode : CleanupMode} (hmode : mode ≠ .ForceCreate) {a b : Address}
    {v : U256} (h : v = 0 ∨ a = b) (nonce : U256) :
    Keeps Effect.readOnly.ledger (Ledger.transfer_balance a b v mode nonce) := by
  intro w
  refine wp_post (Ledger.transfer_balance_spec hmode a b v nonce w) ?_
  rintro (e | mode') w' ⟨hok, herr⟩
  · exact (herr e rfl).symm
  · have hmoved := hok mode' rfl
    rcases h with rfl | rfl
    · exact hmoved.zero.symm
    · exact hmoved.self.symm

theorem pre_exec_readOnly (hspec : g.spec.GenesisConstants) {params : ActionParams}
    (h : params.Harmless) :
    Keeps Effect.readOnly.On (CallCreateFrame.pre_exec params g.spec false) := by
  refine .ite (fun h => nomatch h) fun _ => ?_
  unfold CallCreateFrame.transfer_exec_balance
  cases hvalue : params.value with
  | Transfer v =>
    exact inTouched_keeps (fun mode => transfer_balance_refines _ _ _ mode _)
      fun t => transfer_readOnly (cleanup_mode_ne hspec t) (h.1 v hvalue) _
  | Apparent v => exact .pure _

theorem exec_step_readOnly {ctx : FrameContext} (hstatic : ctx.static_flag = true) {exec : Exec}
    (hplain : exec.Plain) : Keeps Effect.readOnly.On (exec.step g ctx) := by
  cases exec with
  | NoopExec gas => exact .pure _
  | BuiltinExec builtin params => exact .pure _
  | InternalContractExec internal params => exact hplain.elim
  | PassResult pass => exact hplain.elim
  | Interpreter c i =>
    refine interpreter_step_keeps (Effect.contextKeeps fun hs => ?_) i
    exact absurd (hstatic.symm.trans hs) (by simp)

end

/-! ## The frames above a static one -/

/-- The current frame is static. -/
def Phase.Static : Phase → Prop
  | Enter frame | Execute frame _ | LastRes (.SubCallCreate _ frame) =>
    frame.context.static_flag = true
  | LastRes (.Return _) => True

section
variable {g : Globals} {s s' : FrameStack} {base : List CallCreateFrame}

theorem static_calls {kind : TrapKind} {caller : CallCreateFrame}
    (h : caller.context.static_flag = true) :
    (CallCreateFrame.from_trap_error g kind caller).context.static_flag = true := by
  cases kind with
  | Call params =>
    simp [CallCreateFrame.from_trap_error, CallCreateFrame.new_call_raw, h]
  | Create params =>
    simp [CallCreateFrame.from_trap_error, CallCreateFrame.new_create_raw, h]

/-- The frames above `base` and the current one are static. -/
def StaticAbove (base : List CallCreateFrame) (s : FrameStack) : Prop :=
  s.phase.Static ∧ ∃ T, s.frame_stack = T ++ base ∧ ∀ f ∈ T, f.context.static_flag = true

variable [Keccak] [HashOrder]

theorem StaticAbove.round (h : StaticAbove base s) (hnot : ¬s.Returned base.length)
    (hround : Round g s s') : StaticAbove base s' := by
  obtain ⟨hstatic, T, hT, hframes⟩ := h
  cases hround with
  | @enter frame frame' exec h hphase hrun =>
    obtain ⟨params, h₁, hbegins⟩ := frame_exec_inv hrun
    obtain rfl := hbegins.frame_eq
    rw [hphase] at hstatic
    exact ⟨hstatic, T, hT, hframes⟩
  | go_on hphase hrun =>
    rw [hphase] at hstatic
    exact ⟨hstatic, T, hT, hframes⟩
  | returns => exact ⟨trivial, T, hT, hframes⟩
  | traps hphase hrun =>
    rw [hphase] at hstatic
    exact ⟨hstatic, T, hT, hframes⟩
  | @calls kind caller hphase =>
    rw [hphase] at hstatic
    refine ⟨static_calls hstatic, caller :: T, congrArg (caller :: ·) hT, fun f hf => ?_⟩
    rcases List.mem_cons.mp hf with rfl | hf
    · exact hstatic
    · exact hframes f hf
  | @resumes r parent parent' rest exec hphase hstack hresume =>
    obtain ⟨-, rfl⟩ := resume_inv hresume
    cases T with
    | nil => exact absurd ⟨by rw [hT, List.nil_append], r, hphase⟩ hnot
    | cons f T =>
      rw [hstack] at hT
      obtain ⟨rfl, rfl⟩ := List.cons.inj hT
      exact ⟨hframes parent (by simp), T, rfl, fun f hf => hframes f (by simp [hf])⟩

theorem StaticAbove.inside (h : StaticAbove base s)
    (hrun : FrameStack.Inside g base.length s s') : StaticAbove base s' := by
  induction hrun with
  | refl => exact h
  | tail _ hstep ih => exact ih.round hstep.1 (round_of_next hstep.2)

omit [HashOrder] in
/-- A static frame without an internal contract in it can only read. -/
theorem permits_readOnly (hspec : g.spec.GenesisConstants) (hplain : s.Plain)
    (hstatic : s.phase.Static) : Permits Effect.readOnly g s where
  pre_exec frame params hphase hstatus := by
    have hframe := hplain.phase
    rw [hphase] at hframe hstatic
    rw [hframe.1.static hstatic]
    exact pre_exec_readOnly hspec (hframe.2 params hstatus hstatic)
  exec frame exec hphase := by
    have hframe := hplain.phase
    rw [hphase] at hframe hstatic
    exact exec_step_readOnly hstatic hframe.2
  finalize frame exec hphase result := by
    have hframe := hplain.phase
    rw [hphase] at hframe hstatic
    refine finalize_keeps (fun hcreate => ?_) result
    rw [hframe.1.is_create, hframe.1.static hstatic] at hcreate
    cases hcreate
  created frame exec hphase t ht := by
    have hframe := hplain.phase
    rw [hphase] at hframe hstatic
    rw [hframe.1.static hstatic]
    exact ht

omit [Keccak] [HashOrder] in
/-- A harmless call passes the check of the static flag. -/
theorem check_static_flag_of_harmless {params : ActionParams} (h : params.Harmless)
    (static_flag : Bool) :
    CallCreateFrame.check_static_flag params static_flag false = .ok () := by
  unfold CallCreateFrame.check_static_flag
  rw [if_neg (by simp)]
  by_cases htype : params.call_type = .StaticCall ∨ params.call_type = .Call
  · rw [h.2 htype, if_neg (by simp [U256.is_zero])]
  · rw [if_neg (by simp [not_or.mp htype])]

/-! ## The run of a static frame -/

/-- The substates of the current frame, or what its result hands over. -/
def FrameStack.currentSubstates (s : FrameStack) : List Substate :=
  match s.phase with
  | .Enter frame => [frame.substate]
  | .Execute _ _ => [s.host.substate]
  | .LastRes (.SubCallCreate _ caller) => [caller.substate]
  | .LastRes (.Return r) => (returnedSubstate r).toList

omit [Keccak] [HashOrder] in
theorem currentSubstates_of_tracks {e : Effect} {w₀ w : Ledger} {T : List CallCreateFrame}
    (h : PhaseTracks e w₀ T w s) : ∀ t ∈ s.currentSubstates, e.substate t := by
  unfold PhaseTracks at h
  unfold FrameStack.currentSubstates
  rcases hphase : s.phase with frame | ⟨frame, exec⟩ | r | ⟨kind, caller⟩ <;>
    simp only [hphase] at h ⊢
  · simpa using h.1
  · simpa using h
  · intro t ht
    exact h.1 t (Option.mem_toList.mp ht)
  · simpa using h

/-- Static frames are read-only. Where no internal contract is active, from the moment a static
    frame is entered to its result, whatever code and builtin contracts run in it and in the frames
    below it: every read of the state gives what it gave before, the waiting frames of its callers
    and the substate of the transaction stay as they are, no log, destroyed or created contract is
    recorded in any substate of the frames that it enters, and the check of the static flag passes
    for each of them. -/
theorem static_frames_are_read_only (hspec : g.spec.GenesisConstants)
    (hno : g.NoInternalContract) (hs : s.Reachable g) {frame : CallCreateFrame}
    (hphase : s.phase = .Enter frame) (hstatic : frame.context.static_flag = true)
    (hrun : FrameStack.Inside g s.frame_stack.length s s') :
    SameReads s.host.state s'.host.state ∧
    (∃ T, s'.frame_stack = T ++ s.frame_stack ∧ ∀ f ∈ T, f.substate.Clean) ∧
    s'.tx_substate = s.tx_substate ∧ (∀ t ∈ s'.currentSubstates, t.Clean) ∧
    ∀ frame' params, s'.phase = .Enter frame' → frame'.status = .Input params →
      CallCreateFrame.check_static_flag params frame'.context.static_flag
        frame'.create_address.isSome = .ok () := by
  obtain ⟨db, saved, w, hrep⟩ := hs.rep
  have hsub : frame.substate.Clean := by
    rw [hs.enter_substate hphase]
    exact Effect.readOnly.new
  have habove : StaticAbove s.frame_stack s := by
    refine ⟨?_, [], rfl, by simp⟩
    rw [hphase]
    exact hstatic
  have hplain : ∀ s₁, FrameStack.Inside g s.frame_stack.length s s₁ → s₁.Plain := fun s₁ h₁ =>
    FrameStack.plain_of_reachable hspec hno (hs.inside h₁)
  have htracks : Tracks Effect.readOnly db saved w s.frame_stack s.tx_substate s :=
    tracks_enter hphase hrep hsub
  obtain ⟨T, ws, w', h⟩ := htracks.inside
    (fun s₁ h₁ => permits_readOnly hspec (hplain s₁ h₁) (habove.inside h₁).1) hrun
  have hw : w = w' := h.current
  subst hw
  refine ⟨sameReads_of_rep hrep h.rep, ⟨T, h.stack, h.waiting⟩, h.tx_substate, ?_, ?_⟩
  · exact currentSubstates_of_tracks h.phase
  · intro frame' params hphase' hstatus
    have hframe := (hplain s' hrun).phase
    have hstatic' := (habove.inside hrun).1
    rw [hphase'] at hframe hstatic'
    rw [hframe.1.static hstatic']
    exact check_static_flag_of_harmless (hframe.2 params hstatus hstatic') _

end

section
attribute [local instance] keccakOfEmpty HashOrder.asListed

/-- A call of code that makes a static call of the builtin contract with a hundred units of gas. -/
def callsStatically : ActionParams :=
  { cheapCall with
    code_address := 2
    address := 2
    gas := 10000
    value := .Transfer 0
    code := some [0x60, 0, 0x60, 0, 0x60, 0, 0x60, 0, 0x60, 1, 0x60, 100, 0xfa] }

/-- The stack about to execute that call. -/
def staticStack : FrameStack :=
  .new (.new .empty) (.new 0) .new .with_no_tracing 0
    (.new_call_raw oneBuiltin callsStatically 0 false)

/-- The builtin contract is called and returns in two rounds, and no read changes. -/
theorem static_call_of_builtin_reads :
    ∃ (s s' : FrameStack) (frame : CallCreateFrame) (r : FrameReturn),
      Rounds (FrameStack.step oneBuiltin) staticStack s ∧ s.phase = .Enter frame ∧
      frame.context.static_flag = true ∧ s'.phase = .LastRes (.Return (.ok r)) ∧
      SameReads s.host.state s'.host.state := by
  have hrun : ∃ s s₁ s₂ frame r, Rounds (FrameStack.step oneBuiltin) staticStack s ∧
      s.phase = .Enter frame ∧ frame.context.static_flag = true ∧
      Next (FrameStack.step oneBuiltin) s s₁ ∧ ¬s₁.Returned s.frame_stack.length ∧
      Next (FrameStack.step oneBuiltin) s₁ s₂ ∧ s₂.phase = .LastRes (.Return (.ok r)) := by
    refine ⟨_, _, _, _, _, .head rfl (.head rfl (.head rfl (.head rfl (.head rfl (.head rfl
      (.head rfl (.head rfl (.head rfl .refl)))))))), rfl, rfl, rfl, ?_, rfl, rfl⟩
    rintro ⟨-, r, hr⟩
    cases hr
  obtain ⟨s, s₁, s₂, frame, r, hrounds, hphase, hstatic, h₁, hnot₁, h₂, hret⟩ := hrun
  have hstate : State.Reachable (.new .empty) := ⟨.empty, [], _, rfl⟩
  have hs : s.Reachable oneBuiltin :=
    ⟨staticStack, .call _ _ _ _ _ callsStatically hstate rfl, hrounds⟩
  have hnot : ¬s.Returned s.frame_stack.length := by
    rintro ⟨-, r, hr⟩
    cases hphase.symm.trans hr
  have hinside : FrameStack.Inside oneBuiltin s.frame_stack.length s s₂ :=
    .tail (.single ⟨hnot, h₁⟩) ⟨hnot₁, h₂⟩
  exact ⟨s, s₂, frame, r, hrounds, hphase, hstatic, hret,
    (static_frames_are_read_only (by decide) (fun _ => rfl) hs hphase hstatic hinside).1⟩

end

end CfxEvm
