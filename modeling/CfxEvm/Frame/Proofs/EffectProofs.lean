import CfxEvm.Evm.Proofs.HostProofs
import CfxEvm.Frame.Frame
import CfxEvm.State.Proofs.SnapshotProofs

/-!
# Proofs: effects of a frame on its host

An `Effect` says what the code of a frame may do: how the ledger behind the state may change, and
which substates may arise. Programs over the state that refine a program over the ledger have every
effect that the latter has; the functions of the context have an effect as soon as it allows the
few writes among them.
-/

open Lib Lib.Prog

namespace CfxEvm

variable [Keccak]

/-! ## Effects -/

/-- Whatever ledger `s` stands for, `s'` stands for one that `P` relates it to, over the same
    database and below the same open checkpoints. -/
def Evolves (P : Ledger → Ledger → Prop) (s s' : State) : Prop :=
  ∀ db saved w, Rep db saved s w → ∃ w', Rep db saved s' w' ∧ P w w'

/-- What the code of a frame may do to the ledger and to its substate. -/
structure Effect where
  ledger : Ledger → Ledger → Prop
  substate : Substate → Prop
  refl : ∀ w, ledger w w
  trans : ∀ {w₁ w₂ w₃}, ledger w₁ w₂ → ledger w₂ w₃ → ledger w₁ w₃
  new : substate .new
  accrue : ∀ {s t}, substate s → substate t → substate (s.accrue t)
  touched : ∀ {s} mode, substate s → substate (s.set_touched mode)

namespace Effect

variable (e : Effect)

/-- The hosts before and after differ by the effect. -/
structure On (h h' : Host State) : Prop where
  state : Evolves e.ledger h.state h'.state
  substate : e.substate h.substate → e.substate h'.substate

instance : IsPreorder Ledger e.ledger where
  refl := e.refl
  trans _ _ _ := e.trans

instance : IsPreorder State (Evolves e.ledger) where
  refl _ _ _ w h := ⟨w, h, e.refl w⟩
  trans _ _ _ h h' db saved w hrep := by
    obtain ⟨w₁, hrep₁, hw₁⟩ := h db saved w hrep
    obtain ⟨w₂, hrep₂, hw₂⟩ := h' db saved w₁ hrep₁
    exact ⟨w₂, hrep₂, e.trans hw₁ hw₂⟩

instance : IsPreorder (Host State) e.On where
  refl h := ⟨refl_of (Evolves e.ledger) h.state, id⟩
  trans _ _ _ h h' := ⟨trans_of (Evolves e.ledger) h.state h'.state, h'.substate ∘ h.substate⟩

/-- A host that differs in neither the state nor the substate. -/
theorem on_of_eq {h h' : Host State} (hs : h'.state = h.state) (ht : h'.substate = h.substate) :
    e.On h h' :=
  ⟨hs ▸ refl_of (Evolves e.ledger) h.state, fun hsub => ht ▸ hsub⟩

end Effect

/-- What the program over the ledger does, the one over the state does. -/
theorem StateRefines.keeps {α : Type} {P : Ledger → Ledger → Prop} {x : StateM α} {y : LedgerM α}
    (h : StateRefines x y) (hy : Keeps P y) : Keeps (Evolves P) x := by
  intro s
  refine wp_intro (fun _ _ => trivial) fun r s' hrun db saved w hrep => ?_
  exact wp_of_run ((h db saved).wp hrep (hy w)) hrun

/-- A program over the state, as a program over the host, in terms of the ledger. -/
theorem wp_inState {α : Type} {x : StateM α} {y : LedgerM α} (hxy : StateRefines x y)
    {db : StateDb} {saved : List Ledger} {h : Host State} {w : Ledger}
    (hrep : Rep db saved h.state w) {E : Panic → Prop} {Q : Except DbError α → Host State → Prop}
    (hy : wp y E (fun r w' => ∀ s', Rep db saved s' w' → Q r { h with state := s' }) w) :
    wp (Host.inState x) E Q h := by
  unfold Host.inState
  rw [wp_zoom]
  refine wp_post ((hxy db saved).wp hrep hy) ?_
  rintro r s' ⟨w', hrep', hq⟩
  exact hq s' hrep'

theorem wp_inTouched {spec : Spec} {x : CleanupMode → StateM CleanupMode}
    {y : CleanupMode → LedgerM CleanupMode} (hxy : ∀ mode, StateRefines (x mode) (y mode))
    {db : StateDb} {saved : List Ledger} {h : Host State} {w : Ledger}
    (hrep : Rep db saved h.state w) {E : Panic → Prop} {Q : Except DbError Unit → Host State → Prop}
    (hy : wp (y (cleanup_mode h.substate spec)) E (fun r w' => ∀ s', Rep db saved s' w' →
      match r with
      | .ok mode => Q (.ok ()) { h with state := s', substate := h.substate.set_touched mode }
      | .error e => Q (.error e) { h with state := s' }) w) :
    wp (Host.inTouched spec x) E Q h := by
  refine wp_bind.mpr (wp_gets.mpr ?_)
  refine wp_bind.mpr (wp_inState (hxy _) hrep (wp_post hy ?_))
  rintro (e | mode) w' h' s' hrep'
  · exact h' s' hrep'
  · exact h' s' hrep'

section
variable {e : Effect} {α : Type}

theorem inState_keeps {x : StateM α} {y : LedgerM α} (h : StateRefines x y)
    (hy : Keeps e.ledger y) : Keeps e.On (Host.inState x) :=
  .zoom (h.keeps hy) fun _ _ hs => ⟨hs, id⟩

theorem inTouched_keeps {spec : Spec} {x : CleanupMode → StateM CleanupMode}
    {y : CleanupMode → LedgerM CleanupMode} (h : ∀ mode, StateRefines (x mode) (y mode))
    (hy : ∀ t, Keeps e.ledger (y (cleanup_mode t spec))) : Keeps e.On (Host.inTouched spec x) :=
  .bind (.gets _) fun t => .bind (inState_keeps (h _) (hy t)) fun mode =>
    .update fun _ => ⟨refl_of (Evolves e.ledger) _, e.touched mode⟩

theorem onState_keeps {x : StateM α} {y : LedgerM α} (h : StateRefines x y)
    (hy : Keeps e.ledger y) : Keeps e.On (Host.onState x) :=
  .mapErr (inState_keeps h hy)

theorem onTouched_keeps {spec : Spec} {x : CleanupMode → StateM CleanupMode}
    {y : CleanupMode → LedgerM CleanupMode} (h : ∀ mode, StateRefines (x mode) (y mode))
    (hy : ∀ t, Keeps e.ledger (y (cleanup_mode t spec))) : Keeps e.On (Host.onTouched spec x) :=
  .mapErr (inTouched_keeps h hy)

theorem trace_internal_transfer_keeps (from_ to_ : AddressPocket) (value : U256) :
    Keeps e.On (Host.trace_internal_transfer from_ to_ value) :=
  .update fun _ => e.on_of_eq rfl rfl

end

/-! ## Interpreters -/

/-- What the functions of the context keep is kept by a step of an interpreter that runs in a
    frame. -/
theorem interpreter_step_keeps {g : Globals} {ctx : FrameContext}
    {R : Host State → Host State → Prop}
    [IsPreorder (Host State) R] (h : ContextKeeps g ctx R) {c : CostType} (i : Interpreter c) :
    Keeps R (Exec.interpreter_step g ctx i) := by
  refine .bind (.withPart (Interpreter.step_keeps h) i) ?_
  rintro ⟨_ | _ | _ | _ | _, i⟩
  · exact .pure _
  · exact .abort _
  · exact .pure _
  · exact .pure _
  · exact .pure _

/-! ## Reads -/

section
variable {R : Ledger → Ledger → Prop} [IsPreorder Ledger R]

theorem Ledger.account_with_code_keeps (a : Address) : Keeps R (Ledger.account_with_code a) := by
  refine .bind (.gets _) fun o => ?_
  cases o with
  | none => exact .pure _
  | some v => exact .ite (fun _ => .fail _) fun _ => .pure _

theorem Ledger.code_keeps (a : Address) : Keeps R (Ledger.code a) :=
  .bind (account_with_code_keeps a) fun _ => .pure _

theorem Ledger.code_size_keeps (a : Address) : Keeps R (Ledger.code_size a) :=
  .bind (account_with_code_keeps a) fun _ => .pure _

end

/-! ## The context -/

section
variable {g : Globals} {ctx : FrameContext} {e : Effect}

theorem extcode_keeps (a : Address) : Keeps e.On (Context.extcode g a) := by
  unfold Context.extcode
  cases g.machine.contract a g.spec with
  | none => exact onState_keeps (code_refines a) (Ledger.code_keeps a)
  | some _ => exact .pure _

theorem extcodehash_keeps (a : Address) : Keeps e.On (Context.extcodehash g a) := by
  unfold Context.extcodehash
  cases g.machine.contract a g.spec with
  | none => exact onState_keeps (code_hash_refines a) (.gets _)
  | some _ => exact .pure _

theorem extcodesize_keeps (a : Address) : Keeps e.On (Context.extcodesize g a) := by
  unfold Context.extcodesize
  cases g.machine.contract a g.spec with
  | none => exact onState_keeps (code_size_refines a) (Ledger.code_size_keeps a)
  | some _ => exact .pure _

/-- A contract destroys itself under an effect that allows its parts. -/
theorem suicide_keeps {a refund : Address} {spec : Spec} {nonce : U256}
    (hnoted : ∀ {t}, e.substate t → e.substate { t with suicides := t.suicides.insert a })
    (hsub : ∀ v mode, Keeps e.ledger (Ledger.sub_balance a v mode))
    (hburn : ∀ v, Keeps e.ledger (Ledger.subtract_total_issued v))
    (htransfer : ∀ v mode, Keeps e.ledger (Ledger.transfer_balance a refund v mode nonce)) :
    Keeps e.On (suicide a refund spec nonce) := by
  refine .bind (.update fun _ => ⟨refl_of (Evolves e.ledger) _, hnoted⟩) fun _ =>
    .bind (onState_keeps (balance_refines _) (.gets _)) fun balance => ?_
  refine .ite (fun _ => ?_) fun _ => ?_
  · exact .bind (trace_internal_transfer_keeps _ _ _) fun _ =>
      .bind (onTouched_keeps (fun _ => sub_balance_refines _ _ _) fun _ => hsub _ _) fun _ =>
      onState_keeps (subtract_total_issued_refines _) (hburn _)
  · exact .bind (trace_internal_transfer_keeps _ _ _) fun _ =>
      onTouched_keeps (fun _ => transfer_balance_refines _ _ _ _ _) fun _ => htransfer _ _

/-- The writes that a frame without the static flag can ask its context for. -/
structure Effect.AllowsWrites (e : Effect) (g : Globals) (ctx : FrameContext) : Prop where
  set_storage : ∀ key value, Keeps e.ledger (Ledger.set_storage ctx.origin.address key value)
  inc_nonce : ∀ nonce, Keeps e.ledger (Ledger.inc_nonce ctx.origin.address nonce)
  log : ∀ {s} entry, e.substate s → e.substate { s with logs := s.logs ++ [entry] }
  suicide : ∀ refund nonce, Keeps e.On (CfxEvm.suicide ctx.origin.address refund g.spec nonce)

/-- The context has an effect that allows its writes, unless the static flag forbids them. -/
theorem Effect.contextKeeps (hw : ctx.static_flag = false → e.AllowsWrites g ctx) :
    ContextKeeps g ctx e.On where
  shared_cache _ _ := e.on_of_eq rfl rfl
  storage_at key := onState_keeps (storage_at_refines _ key) (.gets _)
  set_storage key value := by
    refine .ite (fun _ => .fail _) fun hs => ?_
    exact onState_keeps (set_storage_refines _ key value)
      ((hw (by simpa using hs)).set_storage key value)
  «exists» a := onState_keeps (exists_refines a) (.gets _)
  exists_and_not_null a := onState_keeps (exists_and_not_null_refines a) (.gets _)
  balance a := onState_keeps (balance_refines a) (.gets _)
  create gas value code scheme := by
    refine .bind (onState_keeps (nonce_refines _) (.gets _)) fun nonce =>
      .bind (.when fun hc => ?_) fun _ => .pure _
    have hs : ctx.static_flag = false := by
      rw [Bool.and_eq_true, Bool.not_eq_true'] at hc
      exact hc.1
    exact onState_keeps (inc_nonce_refines _ _) ((hw hs).inc_nonce _)
  extcode := extcode_keeps
  extcodehash := extcodehash_keeps
  extcodesize := extcodesize_keeps
  log topics data := by
    refine .ite (fun _ => .fail _) fun hs => .update fun h => ?_
    exact ⟨refl_of (Evolves e.ledger) _, (hw (by simpa using hs)).log _⟩
  suicide refund nonce := by
    refine .ite (fun _ => .fail _) fun hs => ?_
    exact (hw (by simpa using hs)).suicide refund nonce

/-- The value of a call is moved under an effect that allows it. -/
theorem pre_exec_call_keeps {params : ActionParams} {spec : Spec}
    (htransfer : ∀ v mode, Keeps e.ledger (Ledger.transfer_balance params.sender params.address v
      mode spec.account_start_nonce)) :
    Keeps e.On (CallCreateFrame.pre_exec params spec false) := by
  show Keeps e.On (CallCreateFrame.transfer_exec_balance params spec _)
  unfold CallCreateFrame.transfer_exec_balance
  cases params.value with
  | Transfer val =>
    exact inTouched_keeps (fun _ => transfer_balance_refines _ _ _ _ _) fun _ => htransfer _ _
  | Apparent val => exact .pure _

/-- So is the value of a creation, whose contract is made then. -/
theorem pre_exec_create_keeps {params : ActionParams} {spec : Spec}
    (hsub : ∀ v mode, Keeps e.ledger (Ledger.sub_balance params.sender v mode))
    (hnew : ∀ balance, Keeps e.ledger (Ledger.new_contract params.address balance 1)) :
    Keeps e.On (CallCreateFrame.pre_exec params spec true) := by
  show Keeps e.On (CallCreateFrame.transfer_exec_balance_and_init_contract params spec)
  unfold CallCreateFrame.transfer_exec_balance_and_init_contract
  cases params.value with
  | Transfer val =>
    exact .bind (inState_keeps (balance_refines _) (.gets _)) fun _ =>
      .bind (inTouched_keeps (fun _ => sub_balance_refines _ _ _) fun _ => hsub _ _) fun _ =>
      inState_keeps (new_contract_refines _ _ _) (hnew _)
  | Apparent val => exact .abort _

/-- The code of a new contract is stored under an effect that allows it. -/
theorem finalize_keeps (hinit : ctx.is_create = true → ∀ code,
      Keeps e.ledger (Ledger.init_code ctx.origin.address code))
    (result : Except VmError GasLeft) : Keeps e.On (finalize g ctx result) := by
  rcases result with err | ⟨gas_left⟩ | ⟨gas_left, data, apply_state⟩
  · exact .fail _
  · exact .pure _
  · refine .bind (.ite (fun hc => ?_) fun _ => .pure _) fun _ => .pure _
    rw [Bool.and_eq_true] at hc
    refine .bind (.expect _ _) fun code => .ite (fun _ => ?_) fun _ => ?_
    · exact .ite (fun _ => .fail _) fun _ => .pure _
    · exact .bind (onState_keeps (init_code_refines _ code) (hinit hc.1 code)) fun _ => .pure _

end

end CfxEvm
