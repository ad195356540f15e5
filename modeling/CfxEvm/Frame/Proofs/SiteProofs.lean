import CfxEvm.Evm.Proofs.FlowProofs
import CfxEvm.Frame.Proofs.AskedProofs
import CfxEvm.Frame.Proofs.CourseProofs

/-!
# Proofs: where code runs

Code runs at an address only if there is code at it, if a contract is being created at it, or if the
code that runs there calls other code in its own name. So a property of addresses that those with
code and new contracts have is one of all addresses at which code runs, in every run, and the
effects that the code of a frame may have need to be shown for such addresses only.
-/

open Lib Lib.Prog

namespace CfxEvm

/-- A property of ledgers, an effect that keeps it, and a property of the addresses at which code
    runs. -/
structure Sites where
  effect : Effect
  holds : Ledger → Prop
  runsAt : Address → Ledger → Prop

variable [Keccak] {g : Globals}

/-- The state stands for one ledger only. -/
theorem Rep.unique {db : StateDb} {saved saved' : List Ledger} {s : State} {w w' : Ledger}
    (h : Rep db saved s w) (h' : Rep db saved' s w') : w = w' :=
  h.ledger_eq.symm.trans h'.ledger_eq

/-! ## Moving the value of a frame -/

section
variable {db : StateDb} {saved : List Ledger} {w : Ledger} {params : ActionParams} {h : Host State}

/-- The value of a call arrives; it fails only if the sender does not exist. -/
theorem transfer_exec_balance_spec (hrep : Rep db saved h.state w) {v : U256}
    (hvalue : params.value = .Transfer v) :
    wp (CallCreateFrame.transfer_exec_balance params g.spec g.spec.account_start_nonce)
      (fun _ => True) (fun r h' => (r = .ok () → ∃ w', Rep db saved h'.state w' ∧
        Ledger.Sent params.sender params.address v g.spec.account_start_nonce w w') ∧
      ∀ e, r = .error e → Rep db saved h'.state w ∧ v ≠ 0 ∧ w.accounts params.sender = none) h := by
  unfold CallCreateFrame.transfer_exec_balance
  simp only [hvalue]
  refine wp_inTouched (fun _ => transfer_balance_refines _ _ _ _ _) hrep
    (wp_post (Ledger.transfer_balance_sent _ _ _ _ _ w) ?_)
  rintro (e | mode) w' ⟨hok, herr⟩ s' hrep'
  · obtain ⟨hw, hnone⟩ := herr e rfl
    exact ⟨by rintro ⟨⟩, fun _ _ => ⟨hw ▸ hrep', hnone⟩⟩
  · exact ⟨fun _ => ⟨w', hrep', hok mode rfl⟩, by rintro _ ⟨⟩⟩

/-- The ledger after a contract was created at `b` with the value `v` of `a`. -/
def Ledger.Endowed (a b : Address) (v : U256) (w w' : Ledger) : Prop :=
  ∃ w₁, Ledger.Debited a v w w₁ ∧
    w' = w₁.setAccount b (.contract b (U256.saturating_add v (w.balanceOf b)) 1
      ((w₁.accounts b).any AccountView.invalidated_storage) (w₁.stored b))

theorem transfer_exec_balance_and_init_contract_spec (hrep : Rep db saved h.state w) {v : U256}
    (hvalue : params.value = .Transfer v) :
    wp (CallCreateFrame.transfer_exec_balance_and_init_contract params g.spec)
      (fun _ => True) (fun r h' => (r = .ok () → ∃ w', Rep db saved h'.state w' ∧
        Ledger.Endowed params.sender params.address v w w') ∧
      ∀ e, r = .error e → Rep db saved h'.state w ∧ v ≠ 0 ∧ w.accounts params.sender = none) h := by
  unfold CallCreateFrame.transfer_exec_balance_and_init_contract
  simp only [hvalue]
  refine wp_bind.mpr (wp_inState (balance_refines _) hrep (wp_gets.mpr fun s₁ hrep₁ => ?_))
  refine wp_bind.mpr (wp_inTouched (fun _ => sub_balance_refines _ _ _) (by exact hrep₁)
    (wp_post (Ledger.sub_balance_debits _ _ _ w) ?_))
  rintro (e | mode) w₂ ⟨hok, herr⟩ s₂ hrep₂
  · obtain ⟨hw, hnone⟩ := herr e rfl
    exact ⟨by rintro ⟨⟩, fun _ _ => ⟨hw ▸ hrep₂, hnone⟩⟩
  · refine wp_inState (new_contract_refines _ _ _) (by exact hrep₂) (wp_update.mpr
      fun s₃ hrep₃ => ?_)
    exact ⟨fun _ => ⟨_, hrep₃, w₂, hok mode rfl, rfl⟩, by rintro _ ⟨⟩⟩

end

variable [HashOrder]

namespace Sites

/-- What is asked of the effect and of the addresses, in stacks with `I`. -/
structure Lawful (S : Sites) (g : Globals) (I : FrameStack → Prop) : Prop where
  lasts : ∀ {w w'}, S.effect.ledger w w' → S.holds w → S.holds w'
  stays : ∀ {w w' a}, S.effect.ledger w w' → S.runsAt a w → S.runsAt a w'
  found : ∀ {w a c}, S.holds w → w.codeOf a = some c → S.runsAt a w ∨ c = []
  created : ∀ {s frame a w}, I s → s.phase = .Enter frame → frame.create_address = some a →
    (w.accounts a).isSome → S.runsAt a w
  pre_exec_call : ∀ params, Keeps S.effect.On (CallCreateFrame.pre_exec params g.spec false)
  pre_exec_create : ∀ {s frame params w}, I s → s.phase = .Enter frame →
    frame.status = .Input params → frame.create_address = some params.address →
    CreateAsked w params →
    Keeps S.effect.On (CallCreateFrame.pre_exec params g.spec true)
  writes : ∀ {ctx w}, S.runsAt ctx.origin.address w → S.effect.AllowsWrites g ctx
  init_code : ∀ {a w}, S.runsAt a w → ∀ code, Keeps S.effect.ledger (Ledger.init_code a code)
  functions : S.effect.AllowsFunctions g
  deploy : ∀ {s frame internal params}, I s →
    s.phase = .Execute frame (.InternalContractExec internal params) → internal.Deploys g params →
    Keeps S.effect.On deploy_eip1820
  note_created : ∀ {t} o, S.effect.substate t →
    S.effect.substate (CallCreateFrame.note_created o t)

/-- The frame that is made for a call or creation. -/
def frameFor (g : Globals) (depth : ℕ) (flag : Bool) : TrapKind → CallCreateFrame
  | .Call params => .new_call_raw g params depth flag
  | .Create params => .new_create_raw params depth flag

variable (S : Sites)

/-- A frame that is about to be entered was made for a call or creation as `Asked` says. -/
inductive EntersAs (g : Globals) (w : Ledger) : CallCreateFrame → Prop
  | call {params : ActionParams} {a : Address} (depth : ℕ) (flag : Bool)
      (hasked : CallAsked g a w params)
      (hsite : g.machine.contract params.code_address g.spec = none →
        ∀ c, params.code = some c → S.runsAt params.address w ∨ c = []) :
      EntersAs g w (.new_call_raw g params depth flag)
  | create {params : ActionParams} (depth : ℕ) (flag : Bool) (hasked : CreateAsked w params) :
      EntersAs g w (.new_create_raw params depth flag)

/-- A frame that creates a contract does so at an address at which code runs. -/
def FrameAt (w : Ledger) (ctx : FrameContext) : Prop :=
  ctx.is_create = true → S.runsAt ctx.origin.address w

/-- What is known of the object that runs in a frame. -/
def RunsIn (w : Ledger) (ctx : FrameContext) : Exec → Prop
  | .Interpreter _ i => i.params.address = ctx.origin.address ∧ i.Resumable ∧
      (S.runsAt ctx.origin.address w ∨ i.code = [])
  | .InternalContractExec _ params => params.OfKind ∧
      ∀ v, params.value = .Transfer v → v.toNat ≤ w.balances params.address
  | _ => True

/-- What is known of the object that waits in a frame. -/
def WaitsIn (w : Ledger) (ctx : FrameContext) : Suspended → Prop
  | .Interpreter _ i => i.params.address = ctx.origin.address ∧ S.runsAt ctx.origin.address w
  | .Resume _ => True

/-- What is known of a frame that waits. -/
def StatusWaits (w : Ledger) (ctx : FrameContext) : FrameStatus → Prop
  | .ResumeCall resume => S.WaitsIn w ctx resume
  | .ResumeCreate resume => S.WaitsIn w ctx resume
  | _ => True

/-- What is known along a run. -/
def course (g : Globals) (db : StateDb) : Course Ledger where
  stands saved h w := Rep db saved h.state w
  grows := S.effect.ledger
  entering frame w := S.holds w ∧ S.effect.substate frame.substate ∧ S.EntersAs g w frame
  running frame exec t w := S.holds w ∧ S.effect.substate t ∧ S.FrameAt w frame.context ∧
    S.RunsIn w frame.context exec
  asking kind caller w := S.holds w ∧ S.effect.substate caller.substate ∧
    S.FrameAt w caller.context ∧ S.StatusWaits w caller.context caller.status ∧
    ∀ depth flag, S.EntersAs g w (frameFor g depth flag kind)
  waiting frame w := S.holds w ∧ S.effect.substate frame.substate ∧ S.FrameAt w frame.context ∧
    S.StatusWaits w frame.context frame.status
  handed t := S.effect.substate t

variable {S} {I : FrameStack → Prop} {db : StateDb} {saved : List Ledger} {w w' : Ledger}
  {ctx : FrameContext}

/-! ## Steps of a frame -/

section
omit [HashOrder]

/-- An interpreter without code ends at once and leaves the host alone. -/
theorem interpreter_step_empty {c : CostType} {i : Interpreter c} (hcode : i.code = [])
    (h : Host State) :
    wp (Exec.interpreter_step g ctx i) (fun _ => True) (fun r h' => h' = h ∧
      ∃ result, r = .ok (.Output (.Return result))) h := by
  refine wp_bind.mpr (wp_withPart.mpr ?_)
  refine wp_bind.mpr (wp_gets.mpr (wp_ite (fun _ => ?_) fun _ => ?_))
  · trivial
  cases i.gasometer with
  | none => exact ⟨rfl, _, rfl⟩
  | some m =>
    refine wp_ite (fun _ => ⟨rfl, _, rfl⟩) fun hne => ?_
    exact absurd (by rw [hcode]; rfl) hne

/-- A step of what is known to run in a frame has the effect. -/
theorem Lawful.exec_step (hS : S.Lawful g I) {s : FrameStack} {frame : CallCreateFrame}
    {exec : Exec}
    (hI : I s) (hphase : s.phase = .Execute frame exec) (hruns : S.RunsIn w frame.context exec) :
    Keeps S.effect.On (exec.step g frame.context) := by
  have hfun : FunctionsKeep g S.effect.On := hS.functions.functionsKeep
  cases exec with
  | NoopExec gas => exact .pure _
  | BuiltinExec builtin params => exact .pure _
  | InternalContractExec internal params =>
    exact .bind (.result (hfun.exec (hS.deploy hI hphase) _)) fun _ => .pure _
  | PassResult pass => exact .bind (.result (hfun.pass_result _ _)) fun _ => .pure _
  | Interpreter c i =>
    obtain ⟨-, -, hsite⟩ := hruns
    by_cases hcode : i.code = []
    · intro h
      refine wp_post (interpreter_step_empty hcode h) ?_
      rintro r _ ⟨rfl, -⟩
      exact refl_of S.effect.On _
    · have hruns : S.runsAt frame.context.origin.address w := hsite.resolve_right hcode
      exact interpreter_step_keeps (Effect.contextKeeps fun _ => hS.writes hruns) i

/-- An interpreter that goes on or traps has code. -/
theorem RunsIn.runsAt {c : CostType} {i : Interpreter c} (h : S.RunsIn w ctx (.Interpreter c i))
    {k k' : Host State} {progress : Progress} (hnot : ∀ result, progress ≠ .Output (.Return result))
    (hrun : ((Exec.Interpreter c i).step g ctx).run k = .ok (.ok progress, k')) :
    S.runsAt ctx.origin.address w := by
  refine h.2.2.resolve_right fun hcode => ?_
  obtain ⟨-, result, hr⟩ := wp_of_run (interpreter_step_empty hcode k) hrun
  exact hnot result (Except.ok.inj hr)

end

omit [Keccak] [HashOrder] in
theorem RunsIn.placed {exec : Exec} (h : S.RunsIn w ctx exec) : exec.Placed ctx := by
  cases exec with
  | Interpreter c i => exact ⟨h.1, h.2.1⟩
  | _ => trivial

omit [HashOrder] in
/-- What a frame was asked for is what it is entered for. -/
theorem EntersAs.of_asked (hS : S.Lawful g I) (hw : S.holds w) {a : Address} {kind : TrapKind}
    (hasked : Asked g a w kind)
    (hsite : (∃ p, kind = .Call p ∧ p.address = p.code_address) ∨ S.runsAt a w) (depth : ℕ)
    (flag : Bool) :
    S.EntersAs g w (frameFor g depth flag kind) := by
  cases kind with
  | Create params => exact .create depth flag hasked
  | Call params =>
    refine .call depth flag hasked fun hcontract c hc => ?_
    have hcode : w.codeOf params.code_address = some c :=
      ((CallAsked.code hasked hcontract).symm.trans hc)
    rcases CallAsked.place hasked with hplace | ⟨hplace, -⟩
    · rw [hplace]
      exact hS.found hw hcode
    · rcases hsite with ⟨p, hp, heq⟩ | hruns
      · obtain rfl : params = p := TrapKind.Call.inj hp
        rw [heq]
        exact hS.found hw hcode
      · rw [hplace]
        exact .inl hruns

/-! ## The beginning of a frame -/

omit [Keccak] [HashOrder] in
/-- What runs in a frame that was just begun. -/
theorem RunsIn.of_object {kind : FrameKind} {params : ActionParams} {exec : Exec}
    (hobject : CallCreateFrame.exec_object kind params = .ok exec)
    (haddress : params.address = ctx.origin.address)
    (hcall : kind = .ExecCall ∨ kind = .ExecCreate → ∀ c, params.code = some c →
      S.runsAt params.address w ∨ c = [])
    (hinternal : ∀ internal, kind = .CallInternalContract internal → params.OfKind ∧
      ∀ v, params.value = .Transfer v → v.toNat ≤ w.balances params.address) :
    S.RunsIn w ctx exec := by
  have hcreate : (kind = .ExecCall ∨ kind = .ExecCreate) → Exec.create params = .ok exec →
      S.RunsIn w ctx exec := by
    intro hkind h
    unfold Exec.create at h
    split at h
    · rename_i code hcode
      obtain rfl := Except.ok.inj h
      have hsite := hcall hkind code hcode
      rw [haddress] at hsite
      split
      · exact ⟨haddress, .inl rfl, hsite⟩
      · exact ⟨haddress, .inl rfl, hsite⟩
    · cases h
  cases kind with
  | Transfer =>
    cases hobject
    trivial
  | CallBuiltin builtin =>
    cases hobject
    trivial
  | CallInternalContract internal =>
    cases hobject
    exact hinternal internal rfl
  | ExecCall => exact hcreate (.inl rfl) hobject
  | ExecCreate => exact hcreate (.inr rfl) hobject

omit [Keccak] [HashOrder] in
/-- A frame runs code only if there is no internal contract at the address of the code. -/
theorem kind_of_new_call {params : ActionParams} {depth : ℕ} {flag : Bool}
    (h : (CallCreateFrame.new_call_raw g params depth flag).kind = .ExecCall ∨
      (CallCreateFrame.new_call_raw g params depth flag).kind = .ExecCreate) :
    g.machine.contract params.code_address g.spec = none := by
  simp only [CallCreateFrame.new_call_raw] at h
  split at h
  · rcases h with h | h <;> cases h
  · split at h
    · rcases h with h | h <;> cases h
    · assumption

/-- A frame that is entered is known to run where code runs. -/
theorem Lawful.enter (hS : S.Lawful g I) {s : FrameStack} {frame frame' : CallCreateFrame}
    {exec : Exec} {h' : Host State} (hI : I s) (hphase : s.phase = .Enter frame)
    (henter : (S.course g db).entering frame w)
    (hrep : Rep db saved (s.activate frame.substate).host.state w)
    (hrun : (frame.exec g).run (s.activate frame.substate).host = .ok (.ok (frame', exec), h')) :
    ∃ w', Rep db (w :: saved) h'.state w' ∧ S.effect.ledger w w' ∧
      (S.course g db).running frame' exec h'.substate w' := by
  obtain ⟨hw, hsub, henters⟩ := henter
  obtain ⟨params, h₁, hbegins⟩ := frame_exec_inv hrun
  obtain ⟨s₁, hcheck, hrep₁⟩ := checkpoint_spec (x := ⟨w, saved⟩) hrep
  rw [hbegins.checkpoint] at hcheck
  obtain rfl : h₁.state = s₁ := (Prod.mk.inj (Except.ok.inj hcheck)).2
  have hpre := hbegins.pre_exec
  have hobject := hbegins.object
  have hstatus := hbegins.status
  obtain rfl := hbegins.frame_eq
  cases henters with
  | @call params₁ a depth flag hasked hsite =>
    obtain rfl : params₁ = params := FrameStatus.Input.inj hstatus
    have hon := (hS.pre_exec_call params₁).of_run hpre
    obtain ⟨w', hrep', hw'⟩ := hon.state db (w :: saved) w hrep₁
    refine ⟨w', hrep', hw', hS.lasts hw' hw, hon.substate (hbegins.substate ▸ hsub),
      fun h => (nomatch h), ?_⟩
    refine RunsIn.of_object hobject rfl ?_ ?_
    · intro hkind c hc
      exact (hsite (kind_of_new_call hkind) c hc).imp_left (hS.stays hw')
    · intro internal _
      refine ⟨hasked.kind, fun v hv => ?_⟩
      have hsent := (wp_of_run (transfer_exec_balance_spec (g := g) hrep₁ hv) hpre).1 rfl
      obtain ⟨w'', hrep'', hsent⟩ := hsent
      obtain rfl := hrep'.unique hrep''
      rw [hsent.balances.2]
      exact le_move _ _ _ _
  | @create params₁ depth flag hasked =>
    obtain rfl : params₁ = params := FrameStatus.Input.inj hstatus
    have haddress : (CallCreateFrame.new_create_raw params₁ depth flag).create_address =
        some params₁.address := congrArg some hasked.place.symm
    have hon := (hS.pre_exec_create hI hphase rfl haddress hasked).of_run hpre
    obtain ⟨w', hrep', hw'⟩ := hon.state db (w :: saved) w hrep₁
    obtain ⟨v, hv, -⟩ := hasked.funds
    obtain ⟨w'', hrep'', w₁, -, hendowed⟩ :=
      (wp_of_run (transfer_exec_balance_and_init_contract_spec (g := g) hrep₁ hv) hpre).1 rfl
    obtain rfl := hrep'.unique hrep''
    have hruns : S.runsAt params₁.address w' := by
      refine hS.created hI hphase haddress ?_
      rw [hendowed, Ledger.setAccount_same]
      rfl
    refine ⟨w', hrep', hw', hS.lasts hw' hw, hon.substate (hbegins.substate ▸ hsub),
      fun _ => hruns, ?_⟩
    exact RunsIn.of_object hobject rfl (fun _ _ _ => .inl hruns) fun _ h => nomatch h

/-! ## Whole runs -/

section
omit [HashOrder]

theorem FrameAt.lasts (hS : S.Lawful g I) (h : S.FrameAt w ctx) (hw : S.effect.ledger w w') :
    S.FrameAt w' ctx := fun hcreate => hS.stays hw (h hcreate)

theorem StatusWaits.lasts (hS : S.Lawful g I) {status : FrameStatus}
    (h : S.StatusWaits w ctx status)
    (hw : S.effect.ledger w w') : S.StatusWaits w' ctx status := by
  have hwaits : ∀ resume, S.WaitsIn w ctx resume → S.WaitsIn w' ctx resume := by
    intro resume h
    cases resume with
    | Interpreter c i => exact ⟨h.1, hS.stays hw h.2⟩
    | Resume r => trivial
  cases status with
  | ResumeCall resume => exact hwaits resume h
  | ResumeCreate resume => exact hwaits resume h
  | _ => trivial

omit [Keccak] in
/-- What takes up a result runs where the frame that waited runs. -/
theorem StatusWaits.resumed {status : FrameStatus} (h : S.StatusWaits w ctx status)
    {r : Except VmError FrameReturn} {exec : Exec}
    (hresume : CallCreateFrame.resume_object status r = .ok exec) : S.RunsIn w ctx exec := by
  cases status with
  | ResumeCall resume =>
    cases resume with
    | Interpreter c i =>
      simp only [CallCreateFrame.resume_object, Suspended.resume_call] at hresume
      rcases hr : i.resume_call (into_message_call_result r) with p | i' <;> rw [hr] at hresume <;>
        cases hresume
      have hresumed := Interpreter.resume_call_resumed hr
      refine ⟨?_, hresumed.resumable, .inl h.2⟩
      rw [hresumed.jumps.params]
      exact h.1
    | Resume resume =>
      simp only [CallCreateFrame.resume_object, Suspended.resume_call] at hresume
      rcases hr : resume.resume_call (into_message_call_result r) with p | pass <;>
        rw [hr] at hresume <;> cases hresume
      trivial
  | ResumeCreate resume =>
    simp only [CallCreateFrame.resume_object, bind, Except.bind] at hresume
    split at hresume
    · cases hresume
    rename_i result _
    cases resume with
    | Interpreter c i =>
      simp only [Suspended.resume_create] at hresume
      rcases hr : i.resume_create result with p | i' <;> rw [hr] at hresume <;> cases hresume
      have hresumed := Interpreter.resume_create_resumed hr
      refine ⟨?_, hresumed.resumable, .inl h.2⟩
      rw [hresumed.jumps.params]
      exact h.1
    | Resume resume =>
      simp only [Suspended.resume_create] at hresume
      rcases hr : resume.resume_create result with p | pass <;> rw [hr] at hresume <;> cases hresume
      trivial
  | Input params => cases hresume
  | Running => cases hresume
  | Done => cases hresume

end

/-- What is known of the frames is known in every stack that is reached. -/
theorem Lawful.kept (hS : S.Lawful g I) (db : StateDb) : (S.course g db).Kept g I where
  refl := S.effect.refl
  trans := S.effect.trans
  activate _ h := h
  lasts := by
    rintro frame w w' ⟨hw, hsub, hframe, hstatus⟩ hgrows
    exact ⟨hS.lasts hgrows hw, hsub, hframe.lasts hS hgrows, hstatus.lasts hS hgrows⟩
  enter hI hphase henter hrep hrun := hS.enter hI hphase henter hrep hrun
  go_on := by
    rintro s frame exec exec' saved w h' hI hphase ⟨hw, hsub, hframe, hruns⟩ hrep hrun
    have hon := (hS.exec_step hI hphase hruns).of_run hrun
    obtain ⟨w', hrep', hw'⟩ := hon.state _ _ _ hrep
    obtain ⟨hplaced, c', i', rfl⟩ := wp_of_run (exec_step_asked hruns.placed hrep) hrun _ rfl
    refine ⟨w', hrep', hw', hS.lasts hw' hw, hon.substate hsub, hframe.lasts hS hw', hplaced.1,
      hplaced.2, .inl (hS.stays hw' ?_)⟩
    -- Only an interpreter goes on.
    cases exec with
    | Interpreter c i => exact hruns.runsAt (by rintro _ ⟨⟩) hrun
    | NoopExec gas => cases hrun
    | BuiltinExec builtin params => cases hrun
    | InternalContractExec internal params =>
      obtain ⟨r, h₁, -, hpure⟩ := run_bind_eq_ok.mp hrun
      cases hpure
    | PassResult pass =>
      obtain ⟨r, h₁, -, hpure⟩ := run_bind_eq_ok.mp hrun
      cases hpure
  returns := by
    rintro s frame exec result r old saved w h₁ h' hI hphase ⟨hw, hsub, hframe,
      hruns⟩ hrep hold hrun
      hret
    have hon := (hS.exec_step hI hphase hruns).of_run hrun
    obtain ⟨w₁, hrep₁, hw₁⟩ := hon.state _ _ _ hrep
    obtain ⟨w₂, hrep₂, hw₂, hnone, hsome⟩ := process_return_effect hret
      (finalize_keeps (fun hcreate => hS.init_code (hframe hcreate)) result)
      (fun _ => hS.note_created _)
      hrep₁ (hon.substate hsub)
    refine ⟨_, hrep₂, ?_, fun hr => ⟨by rw [hr]; rfl, hnone hr⟩, hsome⟩
    cases frame_applied r with
    | true => exact S.effect.trans (S.effect.trans hold hw₁) hw₂
    | false => exact S.effect.refl old
  traps := by
    rintro s frame exec kind resume saved w h' hI hphase ⟨hw, hsub, hframe, hruns⟩ hrep hrun
    have hon := (hS.exec_step hI hphase hruns).of_run hrun
    obtain ⟨w', hrep', hw'⟩ := hon.state _ _ _ hrep
    obtain ⟨hplaced, hasked⟩ := wp_of_run (exec_step_asked hruns.placed hrep) hrun _ rfl
    have hw'' := hS.lasts hw' hw
    -- An interpreter that traps has code, so code runs at the address of the frame.
    have hwaits : S.WaitsIn w' frame.context resume ∧
        ∀ depth flag, S.EntersAs g w' (frameFor g depth flag kind) := by
      cases resume with
      | Interpreter c i =>
        have hsite : S.runsAt frame.context.origin.address w' := by
          cases exec with
          | Interpreter c i => exact hS.stays hw' (hruns.runsAt (by rintro _ ⟨⟩) hrun)
          | NoopExec gas => cases hrun
          | BuiltinExec builtin params => cases hrun
          | InternalContractExec internal params =>
            obtain ⟨answer, h₁, -, hpure⟩ := run_bind_eq_ok.mp hrun
            rcases answer with e | _ | _ <;> cases hpure
          | PassResult pass =>
            obtain ⟨answer, h₁, -, hpure⟩ := run_bind_eq_ok.mp hrun
            cases hpure
        refine ⟨⟨hplaced, hsite⟩, fun depth flag => ?_⟩
        obtain ⟨w₂, hrep₂, hasked⟩ := hasked _ fun _ => rfl
        obtain rfl := hrep'.unique hrep₂
        exact .of_asked hS hw'' hasked (.inr hsite) depth flag
      | Resume resume =>
        refine ⟨trivial, fun depth flag => ?_⟩
        cases kind with
        | Create params =>
          obtain ⟨w₂, hrep₂, hasked⟩ := hasked 0 fun ⟨_, _, h⟩ => nomatch h
          obtain rfl := hrep'.unique hrep₂
          exact .create depth flag hasked
        | Call params =>
          -- The address of the frame plays no part, so it may be taken as another one.
          obtain ⟨w₂, hrep₂, hasked⟩ := hasked (params.address + 1) fun ⟨_, _, h⟩ => nomatch h
          obtain rfl := hrep'.unique hrep₂
          have hasked : Asked g (params.address + 1) w' (.Call params) := hasked
          refine .of_asked hS hw'' hasked (.inl ⟨_, rfl, ?_⟩) depth flag
          rcases CallAsked.place hasked with hplace | ⟨hplace, -⟩
          · exact hplace
          · exact absurd hplace (by simp)
    refine ⟨w', hrep', hw', hw'', hon.substate hsub, hframe.lasts hS hw', ?_, hwaits.2⟩
    cases kind with
    | Call params => exact hwaits.1
    | Create params => exact hwaits.1
  calls := by
    rintro kind caller w ⟨hw, hsub, hframe, hstatus, henters⟩
    refine ⟨⟨hw, hsub, hframe, hstatus⟩, hw, ?_, ?_⟩
    · cases kind <;> exact S.effect.new
    · cases kind with
      | Call params => exact henters _ _
      | Create params => exact henters _ _
  resumes := by
    rintro parent parent' r exec w ⟨hw, hsub, hframe, hstatus⟩ hhanded hresume
    obtain ⟨hobject, rfl⟩ := resume_inv hresume
    exact ⟨hw, Effect.accrue_substate hsub hhanded, hframe, hstatus.resumed hobject⟩

end Sites

end CfxEvm
