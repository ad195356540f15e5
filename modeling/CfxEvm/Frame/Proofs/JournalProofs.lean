import CfxEvm.Frame.Journal
import CfxEvm.Frame.Proofs.StackProofs
import CfxEvm.InternalContract.Proofs.FunctionProofs

/-!
# Proofs: the journal of a run

While frames run, the substate of each open frame lists its journal: what happened in it, and in the
applied frames that it called. When the first frame has its result, its substate lists what
survives.
-/

open Lib Lib.Prog Lib.Journal

namespace CfxEvm

/-! ## Substates -/

namespace Substate

/-- Nothing that was in the substate before is missing, and `P` holds of what is new. -/
structure Grows (P : Happening → Prop) (t t' : Substate) : Prop where
  logs : ∃ l, t'.logs = t.logs ++ l ∧ ∀ entry ∈ l, P (.log entry)
  suicides : ∀ a ∈ t.suicides, a ∈ t'.suicides
  new_suicides : ∀ a ∈ t'.suicides, a ∈ t.suicides ∨ P (.suicide a)
  contracts_created : ∃ l, t'.contracts_created = t.contracts_created ++ l ∧ ∀ a ∈ l, P (.created a)

variable {P Q : Happening → Prop} {t t' u : Substate} {l m : List Happening}

theorem Grows.refl (P : Happening → Prop) (t : Substate) : t.Grows P t :=
  ⟨⟨[], by simp⟩, fun _ ha => ha, fun _ ha => .inl ha, ⟨[], by simp⟩⟩

theorem Grows.trans (h : t.Grows P t') (h' : t'.Grows P u) : t.Grows P u := by
  obtain ⟨l, hl, hP⟩ := h.logs
  obtain ⟨l', hl', hP'⟩ := h'.logs
  obtain ⟨m, hm, hQ⟩ := h.contracts_created
  obtain ⟨m', hm', hQ'⟩ := h'.contracts_created
  refine ⟨⟨l ++ l', ?_, ?_⟩, fun a ha => h'.suicides a (h.suicides a ha), fun a ha => ?_,
    ⟨m ++ m', ?_, ?_⟩⟩
  · rw [hl', hl, List.append_assoc]
  · intro entry hentry
    exact (List.mem_append.mp hentry).elim (hP entry) (hP' entry)
  · rcases h'.new_suicides a ha with ha' | ha'
    · exact h.new_suicides a ha'
    · exact .inr ha'
  · rw [hm', hm, List.append_assoc]
  · intro a ha
    exact (List.mem_append.mp ha).elim (hQ a) (hQ' a)

theorem Grows.mono (h : t.Grows P t') (hPQ : ∀ e, P e → Q e) : t.Grows Q t' := by
  obtain ⟨l, hl, hP⟩ := h.logs
  obtain ⟨m, hm, hQ⟩ := h.contracts_created
  exact ⟨⟨l, hl, fun e he => hPQ _ (hP e he)⟩, h.suicides,
    fun a ha => (h.new_suicides a ha).imp_right (hPQ _), ⟨m, hm, fun a ha => hPQ _ (hQ a ha)⟩⟩

theorem grows_set_touched (P : Happening → Prop) (t : Substate) (mode : CleanupMode) :
    t.Grows P (t.set_touched mode) := by
  have hsame : ∀ touched, t.Grows P { t with touched := touched } :=
    fun _ => ⟨⟨[], by simp⟩, fun _ ha => ha, fun _ ha => .inl ha, ⟨[], by simp⟩⟩
  unfold set_touched
  split
  · exact hsame _
  · exact hsame _

theorem grows_log {entry : LogEntry} (h : P (.log entry)) : t.Grows P { t with logs :=
  t.logs ++ [entry] } :=
  ⟨⟨[entry], rfl, by simpa using h⟩, fun _ ha => ha, fun _ ha => .inl ha, ⟨[], by simp⟩⟩

theorem grows_suicide {a : Address} (h : P (.suicide a)) :
    t.Grows P { t with suicides := t.suicides.insert a } := by
  refine ⟨⟨[], by simp⟩, fun b hb => List.mem_insert_of_mem hb, fun b hb => ?_, ⟨[], by simp⟩⟩
  rcases List.mem_insert_iff.mp hb with rfl | hb
  · exact .inr h
  · exact .inl hb

theorem grows_created {a : Address} (h : P (.created a)) :
    t.Grows P { t with contracts_created := t.contracts_created ++ [a] } :=
  ⟨⟨[], by simp⟩, fun _ ha => ha, fun _ ha => .inl ha, ⟨[a], rfl, by simpa using h⟩⟩

/-! ### What is new -/

theorem log_since (t t' : Substate) :
    (t.since t').filterMap Happening.log? = t'.logs.drop t.logs.length := by
  simp [Substate.since, List.filterMap_append, List.filterMap_map, Function.comp_def,
    Happening.log?,
    -List.map_drop]

theorem created_since (t t' : Substate) :
    (t.since t').filterMap Happening.created? =
      t'.contracts_created.drop t.contracts_created.length := by
  simp [Substate.since, List.filterMap_append, List.filterMap_map, Function.comp_def,
    Happening.created?,
    -List.map_drop]

/-- What is new is as `P` says. -/
theorem Grows.of_mem_since (h : t.Grows P t') {e : Happening} (he : e ∈ t.since t') : P e := by
  obtain ⟨l, hl, hP⟩ := h.logs
  obtain ⟨m, hm, hQ⟩ := h.contracts_created
  unfold Substate.since at he
  rw [hl, hm, List.drop_left, List.drop_left, List.mem_append, List.mem_append, List.mem_map,
    List.mem_map,
    List.mem_map] at he
  rcases he with (⟨entry, hentry, rfl⟩ | ⟨a, ha, rfl⟩) | ⟨a, ha, rfl⟩
  · exact hP entry hentry
  · obtain ⟨hmem, hnew⟩ := List.mem_filter.mp ha
    refine (h.new_suicides a hmem).resolve_left fun hold => ?_
    simp [hold] at hnew
  · exact hQ a ha

/-! ### Journals -/

theorem lists_new : Substate.new.Lists [] := ⟨rfl, rfl, by simp [new]⟩

/-- What was added is listed after what was there. -/
theorem Lists.since (h : t.Lists l) (hgrows : t.Grows P t') : t'.Lists (l ++ t.since t') := by
  refine ⟨?_, ?_, fun a => ?_⟩
  · obtain ⟨m, hm, -⟩ := hgrows.logs
    rw [List.filterMap_append, log_since, ← h.logs, hm, List.drop_left]
  · obtain ⟨m, hm, -⟩ := hgrows.contracts_created
    rw [List.filterMap_append, created_since, ← h.contracts_created, hm, List.drop_left]
  · have hsince : Happening.suicide a ∈ t.since t' ↔ a ∈ t'.suicides ∧ a ∉ t.suicides := by
      simp [Substate.since, -List.map_drop]
    rw [List.mem_append, ← h.suicides, hsince]
    constructor
    · intro ha
      by_cases hmem : a ∈ t.suicides
      · exact .inl hmem
      · exact .inr ⟨ha, hmem⟩
    · rintro (ha | ⟨ha, -⟩)
      · exact hgrows.suicides a ha
      · exact ha

/-- Where nothing is new the same is listed. -/
theorem Lists.unchanged (h : t.Lists l) (hgrows : t.Grows (fun _ => False) t') : t'.Lists l := by
  have hnone : t.since t' = [] := List.eq_nil_iff_forall_not_mem.mpr fun _ he =>
    hgrows.of_mem_since he
  have hlists := h.since hgrows
  rw [hnone, List.append_nil] at hlists
  exact hlists

theorem Lists.accrue (h : t.Lists l) (hu : u.Lists m) : (t.accrue u).Lists (l ++ m) := by
  refine ⟨?_, ?_, fun a => ?_⟩
  · rw [List.filterMap_append, ← h.logs, ← hu.logs]
    rfl
  · rw [List.filterMap_append, ← h.contracts_created, ← hu.contracts_created]
    rfl
  · rw [List.mem_append, ← h.suicides, ← hu.suicides]
    exact Substate.mem_extendSet

end Substate

/-! ## What the code of a frame can do to its substate -/

/-- The substate grows by what `P` allows. -/
def Gathers (P : Happening → Prop) (h h' : Host State) : Prop := h.substate.Grows P h'.substate

instance (P : Happening → Prop) : IsPreorder (Host State) (Gathers P) where
  refl h := Substate.Grows.refl P h.substate
  trans _ _ _ h h' := Substate.Grows.trans h h'

section
variable {α : Type} {g : Globals} {ctx : FrameContext} {P : Happening → Prop}

theorem inState_gathers (x : StateM α) : Keeps (Gathers P) (Host.inState x) :=
  .zoom (R := fun _ _ => True) (fun _ => wp_intro (fun _ _ => trivial) fun _ _ _ => trivial)
    fun h _ _ => Substate.Grows.refl P h.substate

theorem inTouched_gathers (spec : Spec) (x : CleanupMode → StateM CleanupMode) :
    Keeps (Gathers P) (Host.inTouched spec x) :=
  .bind (.gets _) fun _ => .bind (inState_gathers _) fun mode =>
    .update fun h => h.substate.grows_set_touched P mode

theorem onState_gathers (x : StateM α) : Keeps (Gathers P) (Host.onState x) :=
  .mapErr (inState_gathers x)

theorem onTouched_gathers (spec : Spec) (x : CleanupMode → StateM CleanupMode) :
    Keeps (Gathers P) (Host.onTouched spec x) :=
  .mapErr (inTouched_gathers spec x)

theorem trace_gathers (from_ to_ : AddressPocket) (value : U256) :
    Keeps (Gathers P) (Host.trace_internal_transfer from_ to_ value) :=
  .update fun h => Substate.Grows.refl P h.substate

variable [Keccak]

theorem suicide_gathers {a : Address} (h : P (.suicide a)) (refund : Address) (spec : Spec)
    (nonce : U256) :
    Keeps (Gathers P) (suicide a refund spec nonce) := by
  refine .bind (.update fun _ => Substate.grows_suicide h) fun _ =>
    .bind (onState_gathers _) fun balance => .ite (fun _ => ?_) fun _ => ?_
  · exact .bind (trace_gathers _ _ _) fun _ => .bind (onTouched_gathers _ _) fun _ =>
      onState_gathers _
  · exact .bind (trace_gathers _ _ _) fun _ => onTouched_gathers _ _

/-- Code that is interpreted emits logs and destroys a contract in the name of its frame only. -/
theorem context_gathers (hlog : ctx.static_flag = false → ∀ topics data,
      P (.log ⟨ctx.origin.address, topics, data⟩))
    (hsuicide : ctx.static_flag = false → P (.suicide ctx.origin.address)) :
    ContextKeeps g ctx (Gathers P) where
  shared_cache h _ := Substate.Grows.refl P h.substate
  storage_at _ := onState_gathers _
  set_storage _ _ := .ite (fun _ => .fail _) fun _ => onState_gathers _
  «exists» _ := onState_gathers _
  exists_and_not_null _ := onState_gathers _
  balance _ := onState_gathers _
  create _ _ _ _ := .bind (onState_gathers _) fun _ =>
    .bind (.when fun _ => onState_gathers _) fun _ => .pure _
  extcode a := by
    unfold Context.extcode
    cases g.machine.contract a g.spec with
    | none => exact onState_gathers _
    | some _ => exact .pure _
  extcodehash a := by
    unfold Context.extcodehash
    cases g.machine.contract a g.spec with
    | none => exact onState_gathers _
    | some _ => exact .pure _
  extcodesize a := by
    unfold Context.extcodesize
    cases g.machine.contract a g.spec with
    | none => exact onState_gathers _
    | some _ => exact .pure _
  log topics data := .ite (fun _ => .fail _) fun hs =>
    .update fun _ => Substate.grows_log (hlog (by simpa using hs) topics data)
  suicide _ _ := .ite (fun _ => .fail _) fun hs =>
    suicide_gathers (hsuicide (by simpa using hs)) _ _ _

theorem functions_gather (hlog : ∀ entry, P (.log entry)) : FunctionsKeep g (Gathers P) where
  exists_and_not_null _ := onState_gathers _
  code _ := onState_gathers _
  code_hash _ := onState_gathers _
  nonce _ := onState_gathers _
  balance _ := onState_gathers _
  transfer _ _ _ := onTouched_gathers _ _
  trace _ _ _ := trace_gathers _ _ _
  inc_nonce _ := onState_gathers _
  log _ _ _ _ := .ite (fun _ => .fail _) fun _ => .update fun _ => Substate.grows_log (hlog _)

theorem deploy_eip1820_gathers (h : P (.created eip_1820.ADDRESS)) :
    Keeps (Gathers P) deploy_eip1820 :=
  .bind (onState_gathers _) fun _ => .ite (fun _ => .fail _) fun _ =>
    .bind (onState_gathers _) fun _ => .bind (onState_gathers _) fun _ =>
    .update fun _ => Substate.grows_created h

/-- A step leaves what such code can leave. -/
theorem exec_step_gathers (exec : Exec) :
    Keeps (Gathers (exec.Leaves g ctx)) (exec.step g ctx) := by
  cases exec with
  | NoopExec gas => exact .pure _
  | BuiltinExec builtin params => exact .pure _
  | InternalContractExec internal params =>
    refine .bind (.result ((functions_gather fun _ => trivial).exec (fun hdeploys => ?_) _))
      fun _ => .pure _
    exact deploy_eip1820_gathers ⟨hdeploys, rfl⟩
  | Interpreter c i =>
    exact interpreter_step_keeps (context_gathers (fun hs _ _ => ⟨hs, rfl⟩) fun hs => ⟨hs, rfl⟩) i
  | PassResult pass =>
    exact .bind (.result ((functions_gather fun _ => trivial).pass_result _ _)) fun _ => .pure _

theorem finalize_gathers (result : Except VmError GasLeft) :
    Keeps (Gathers P) (finalize g ctx result) := by
  rcases result with err | ⟨gas_left⟩ | ⟨gas_left, data, apply_state⟩
  · exact .fail _
  · exact .pure _
  · refine .bind (.ite (fun _ => .bind (.expect _ _) fun _ => ?_) fun _ => .pure _) fun _ => .pure _
    refine .ite (fun _ => .ite (fun _ => .fail _) fun _ => .pure _) fun _ => ?_
    exact .bind (onState_gathers _) fun _ => .pure _

theorem pre_exec_gathers (params : ActionParams) (spec : Spec) (is_create : Bool) :
    Keeps (Gathers P) (CallCreateFrame.pre_exec params spec is_create) := by
  refine .ite (fun _ => ?_) fun _ => ?_
  · unfold CallCreateFrame.transfer_exec_balance_and_init_contract
    cases params.value with
    | Transfer val =>
      exact .bind (inState_gathers _) fun _ => .bind (inTouched_gathers _ _) fun _ =>
        inState_gathers _
    | Apparent val => exact .abort _
  · unfold CallCreateFrame.transfer_exec_balance
    cases params.value with
    | Transfer val => exact inTouched_gathers _ _
    | Apparent val => exact .pure _

variable [HashOrder]

omit [Keccak] in
/-- Closing a frame hands its substate over if it is applied, with the address of a new contract. -/
theorem close_gathers (frame : CallCreateFrame) (apply_state : Bool) (h : Host State) :
    wp (frame.close apply_state) (fun _ => True) (fun o h' => ∀ substate, o = .ok substate →
      substate = (if apply_state then some h'.substate else none) ∧
      (if apply_state then CallCreateFrame.note_created frame.create_address h.substate
        else h.substate).Grows (fun _ => False) h'.substate) h := by
  have hkeeps : ∀ x : StateM Unit, Keeps (Gathers fun _ => False) (Host.inState x) :=
    fun x => inState_gathers x
  cases apply_state with
  | true =>
    refine wp_bind.mpr (wp_update.mpr (wp_bind.mpr (wp_post (hkeeps _ _) ?_)))
    rintro (e | _) h₂ hdiscard
    · rintro _ ⟨⟩
    · refine wp_bind.mpr (wp_gets.mpr ?_)
      rintro _ ⟨⟩
      exact ⟨rfl, hdiscard⟩
  | false =>
    refine wp_bind.mpr (wp_post (hkeeps _ _) ?_)
    rintro (e | _) h₂ hrevert
    · rintro _ ⟨⟩
    · rintro _ ⟨⟩
      exact ⟨rfl, hrevert⟩

/-- So does a frame that ends. -/
theorem process_return_gathers (frame : CallCreateFrame) (result : Except VmError GasLeft)
    (h : Host State) :
    wp (frame.process_return g result) (fun _ => True) (fun o h' => ∀ r, o = .ok r →
      returnedSubstate r = (if frame_applied r then some h'.substate else none) ∧
      ∃ t, h.substate.Grows (fun _ => False) t ∧
        (if frame_applied r then CallCreateFrame.note_created frame.create_address t else t).Grows
          (fun _ => False) h'.substate) h := by
  have hfinalize : Keeps (Gathers fun _ => False) (finalize g frame.context result) :=
    finalize_gathers result
  unfold CallCreateFrame.process_return
  refine wp_bind.mpr (wp_post (hfinalize.result h) ?_)
  rintro (e | fin) h₁ hfin
  · rintro _ ⟨⟩
  have hsep : wp (separate_out_db_error fin) (fun _ => True)
      (fun o h' => h' = h₁ ∧ ∀ fin', o = .ok fin' → fin' = fin) h₁ := by
    unfold separate_out_db_error
    split
    · exact ⟨rfl, by rintro _ ⟨⟩⟩
    · exact ⟨rfl, by rintro _ ⟨⟩; rfl⟩
  refine wp_bind.mpr (wp_post hsep ?_)
  rintro (e | fin') _ ⟨rfl, hok⟩
  · rintro _ ⟨⟩
  obtain rfl := hok fin' rfl
  refine wp_bind.mpr (wp_post (close_gathers frame _ _) ?_)
  rintro (e | substate) h₂ hclose
  · rintro _ ⟨⟩
  obtain ⟨hsubstate, hnoted⟩ := hclose substate rfl
  refine wp_bind.mpr (wp_gets.mpr (wp_bind.mpr (wp_ofPanic (fun _ _ => trivial)
    fun observer _ => ?_)))
  refine wp_bind.mpr (wp_gets.mpr (wp_bind.mpr (wp_ofPanic (fun _ _ => trivial)
    fun callstack _ => ?_)))
  refine wp_bind.mpr (wp_update.mpr ?_)
  rintro _ ⟨⟩
  refine ⟨?_, _, hfin, ?_⟩
  · cases fin' with
    | error e => rfl
    | ok fin => exact hsubstate
  · cases fin' with
    | error e => exact hnoted
    | ok fin => exact hnoted

/-! ## Rounds -/

omit [Keccak] [HashOrder] in
/-- The address of a new contract is listed. -/
theorem grows_noted (o : Option Address) (t : Substate) :
    t.Grows (fun e => ∃ a, o = some a ∧ e = .created a) (CallCreateFrame.note_created o t) := by
  unfold CallCreateFrame.note_created
  cases o with
  | none => exact .refl _ t
  | some a => exact Substate.grows_created ⟨a, rfl, rfl⟩

section
variable {frame : CallCreateFrame} {exec : Exec} {result : Except VmError GasLeft}
  {r : Except VmError FrameReturn} {h h₁ h' : Host State}

/-- The last step of a frame and its end. -/
theorem returns_gathers
    (hrun : (exec.step g frame.context).run h = .ok (.ok (.Output (.Return result)), h₁))
    (hret : (frame.process_return g result).run h₁ = .ok (.ok r, h')) :
    h.substate.Grows (fun e => exec.Leaves g frame.context e ∨
      ∃ a, frame_applied r = true ∧ frame.create_address = some a ∧
        e = .created a) h'.substate := by
  have hstep : Gathers (exec.Leaves g frame.context) h h₁ := (exec_step_gathers exec).of_run hrun
  obtain ⟨-, t, hfinal, hclose⟩ := wp_of_run (process_return_gathers frame result h₁) hret r rfl
  refine (hstep.mono fun _ => .inl).trans ((hfinal.mono fun _ hfalse => hfalse.elim).trans ?_)
  by_cases hr : frame_applied r = true
  · rw [if_pos hr] at hclose
    refine Substate.Grows.trans ?_ (hclose.mono fun _ hfalse => hfalse.elim)
    refine (grows_noted frame.create_address t).mono ?_
    rintro _ ⟨a, ha, rfl⟩
    exact .inr ⟨a, hr, ha, rfl⟩
  · rw [if_neg hr] at hclose
    exact hclose.mono fun _ hfalse => hfalse.elim

omit [Keccak] [HashOrder] in
/-- Without new contracts the list of them stays as it is. -/
theorem Substate.Grows.contracts_created_eq {P : Happening → Prop} {t t' : Substate}
    (h : t.Grows P t')
    (hnone : ∀ a, ¬P (.created a)) : t'.contracts_created = t.contracts_created := by
  obtain ⟨l, hl, hP⟩ := h.contracts_created
  have hnil : l = [] := List.eq_nil_iff_forall_not_mem.mpr fun a ha => hnone a (hP a ha)
  rw [hl, hnil, List.append_nil]

/-- A frame that is applied lists its new contract once. -/
theorem returns_created
    (hrun : (exec.step g frame.context).run h = .ok (.ok (.Output (.Return result)), h₁))
    (hret : (frame.process_return g result).run h₁ = .ok (.ok r, h'))
    (hnone : ∀ a, ¬exec.Leaves g frame.context (.created a)) :
    h'.substate.contracts_created = h.substate.contracts_created ++
      if frame_applied r then frame.create_address.toList else [] := by
  have hstep : Gathers (exec.Leaves g frame.context) h h₁ := (exec_step_gathers exec).of_run hrun
  obtain ⟨-, t, hfinal, hclose⟩ := wp_of_run (process_return_gathers frame result h₁) hret r rfl
  have hbefore : t.contracts_created = h.substate.contracts_created :=
    (hfinal.contracts_created_eq fun _ => id).trans (hstep.contracts_created_eq hnone)
  rw [hclose.contracts_created_eq fun _ => id, ← hbefore]
  by_cases hr : frame_applied r = true
  · rw [if_pos hr, if_pos hr]
    unfold CallCreateFrame.note_created
    cases frame.create_address with
    | none => exact (List.append_nil _).symm
    | some a => rfl
  · rw [if_neg hr, if_neg hr, List.append_nil]

end

namespace FrameStack

variable {l : List (Mark Happening)} {s s' : FrameStack}

section
omit [Keccak] [HashOrder]

theorem marks_enter {frame : CallCreateFrame} (hphase : s.phase = .Enter frame) :
    s.marks s' = [.opened] := by
  simp only [marks, hphase]

theorem marks_lastRes {last_res : TrapResult FrameReturn CallCreateFrame}
    (hphase : s.phase = .LastRes last_res) :
    s.marks s' = [] := by
  simp only [marks, hphase]

theorem marks_execute {frame : CallCreateFrame} {exec : Exec}
    (hphase : s.phase = .Execute frame exec)
    (hphase' : ∀ r, s'.phase ≠ .LastRes (.Return r)) :
    s.marks s' = (s.host.substate.since s'.host.substate).map .event := by
  simp only [marks, hphase]
  exact List.append_nil _

theorem marks_returns {frame : CallCreateFrame} {exec : Exec} {r : Except VmError FrameReturn}
    (hphase : s.phase = .Execute frame exec) (hphase' : s'.phase = .LastRes (.Return r)) :
    s.marks s' = (s.host.substate.since s'.host.substate).map .event ++
      [.closed (frame_applied r)] := by
  simp only [marks, hphase, hphase']

theorem event_mem_marks {frame : CallCreateFrame} {exec : Exec} {e : Happening}
    (hphase : s.phase = .Execute frame exec) :
    .event e ∈ s.marks s' ↔ e ∈ s.host.substate.since s'.host.substate := by
  simp only [marks, hphase]
  split <;> simp

end

/-- Every round leaves what it may. -/
theorem roundLeaves (hround : Round g s s') : RoundLeaves g s s' := by
  cases hround with
  | @enter frame frame' exec h' hphase hrun => exact ⟨by simp [hphase], by simp⟩
  | @go_on frame exec exec' h' hphase hrun =>
    refine ⟨fun {frame' exec' e} hphase' he => ?_, by simp⟩
    rw [event_mem_marks hphase'] at he
    cases hphase.symm.trans hphase'
    have hstep : Gathers (exec.Leaves g frame.context) s.host h' :=
      (exec_step_gathers exec).of_run hrun
    exact .inl (Substate.Grows.of_mem_since hstep he)
  | @returns frame exec result r h₁ h' hphase hrun hret =>
    refine ⟨fun {frame' exec' e} hphase' he => ?_, fun {frame' exec' r'} hphase' hnone hlast => ?_⟩
    · rw [event_mem_marks hphase'] at he
      cases hphase.symm.trans hphase'
      rcases (returns_gathers hrun hret).of_mem_since he with hleaves | ⟨a, happlied, ha, rfl⟩
      · exact .inl hleaves
      · exact .inr ⟨r, a, rfl, happlied, ha, rfl⟩
    · cases hphase.symm.trans hphase'
      cases hlast
      rw [Substate.created_since, returns_created hrun hret hnone, List.drop_left]
  | @traps frame exec kind resume h' hphase hrun =>
    refine ⟨fun {frame' exec' e} hphase' he => ?_, by simp⟩
    rw [event_mem_marks hphase'] at he
    cases hphase.symm.trans hphase'
    have hstep : Gathers (exec.Leaves g frame.context) s.host h' :=
      (exec_step_gathers exec).of_run hrun
    exact .inl (Substate.Grows.of_mem_since hstep he)
  | calls hphase => exact ⟨by simp [hphase], by simp [hphase]⟩
  | resumes hphase => exact ⟨by simp [hphase], by simp [hphase]⟩

end FrameStack

/-! ## Journals of the frames -/

/-- The journals of the frames of a stack, when `l` has happened since the first frame was about to
    be entered. The result of a frame carries the journal of the frame, if it is applied. -/
inductive FrameStack.Journaled (l : List (Mark Happening)) (s : FrameStack) : Prop
  | enter {frame : CallCreateFrame} {js : List (List Happening)} (hphase : s.phase = .Enter frame)
      (hnew : frame.substate = .new)
      (hwaiting : List.Forall₂ (fun f j => f.substate.Lists j) s.frame_stack js)
      (hkept : Kept l (js ++ [[]]))
  | execute {frame : CallCreateFrame} {exec : Exec} {j : List Happening}
    {js : List (List Happening)}
      (hphase : s.phase = .Execute frame exec) (hcurrent : s.host.substate.Lists j)
      (hwaiting : List.Forall₂ (fun f j => f.substate.Lists j) s.frame_stack js)
      (hkept : Kept l (j :: js ++ [[]]))
  | traps {kind : TrapKind} {caller : CallCreateFrame} {j : List Happening}
    {js : List (List Happening)}
      (hphase : s.phase = .LastRes (.SubCallCreate kind caller)) (hcaller : caller.substate.Lists j)
      (hwaiting : List.Forall₂ (fun f j => f.substate.Lists j) s.frame_stack js)
      (hkept : Kept l (j :: js ++ [[]]))
  | returns {r : Except VmError FrameReturn} {j outer : List Happening}
    {js rest : List (List Happening)}
      (hphase : s.phase = .LastRes (.Return r))
      (happlied : frame_applied r = true → ∃ t, returnedSubstate r = some t ∧ t.Lists j)
      (hdropped : frame_applied r = false → returnedSubstate r = none)
      (hwaiting : List.Forall₂ (fun f j => f.substate.Lists j) s.frame_stack js)
      (houter : js ++ [[]] = outer :: rest)
      (hkept : Kept l (merge (frame_applied r) j outer :: rest))

namespace FrameStack

variable {l : List (Mark Happening)} {s s' : FrameStack}

omit [Keccak] [HashOrder] in
/-- The substate of a frame that takes up a result lists the journal of the result, too. -/
theorem lists_accrue {t : Substate} {outer j : List Happening} {r : Except VmError FrameReturn}
    (ht : t.Lists outer) (happlied : frame_applied r = true →
      ∃ u, returnedSubstate r = some u ∧ u.Lists j)
    (hdropped : frame_applied r = false → returnedSubstate r = none) :
    (accrue_substate t r).Lists (merge (frame_applied r) j outer) := by
  have haccrue : accrue_substate t r = ((returnedSubstate r).map t.accrue).getD t := by
    cases r with
    | error e => rfl
    | ok r =>
      unfold accrue_substate returnedSubstate
      rcases hu : r.substate with _ | u
      · simp [hu]
      · simp [hu]
  rw [haccrue, merge]
  by_cases hr : frame_applied r = true
  · obtain ⟨u, hu, hlists⟩ := happlied hr
    rw [hu, if_pos hr]
    exact ht.accrue hlists
  · rw [hdropped (by simpa using hr), if_neg hr]
    exact ht

/-- A frame begins with an empty journal. -/
theorem Journaled.entered (h : s.Journaled l) {frame frame' : CallCreateFrame} {exec : Exec}
    {h' : Host State}
    (hphase : s.phase = .Enter frame)
    (hrun : (frame.exec g).run (s.activate frame.substate).host = .ok (.ok (frame', exec), h')) :
    ({ s with host := h', phase := .Execute frame' exec } : FrameStack).Journaled
      (l ++ [.opened]) := by
  cases h with
  | @enter frame₁ js hphase₁ hnew hwaiting hkept =>
    rw [hphase] at hphase₁
    cases hphase₁
    obtain ⟨params, h₁, hbegins⟩ := frame_exec_inv hrun
    have hmoves : Keeps (Gathers fun _ => False)
        (CallCreateFrame.pre_exec params g.spec frame.create_address.isSome) :=
          pre_exec_gathers _ _ _
    have hpre : Gathers (fun _ => False) h₁ h' := hmoves.of_run hbegins.pre_exec
    have hempty : h₁.substate.Lists [] := by
      rw [hbegins.substate]
      show frame.substate.Lists []
      rw [hnew]
      exact Substate.lists_new
    exact .execute rfl (hempty.unchanged hpre) hwaiting hkept.opened
  | execute hphase₁ => simp [hphase] at hphase₁
  | traps hphase₁ => simp [hphase] at hphase₁
  | returns hphase₁ => simp [hphase] at hphase₁

omit [Keccak] [HashOrder] in
/-- What the code of a frame does is listed in its journal. -/
theorem Journaled.step (h : s.Journaled l) {frame : CallCreateFrame} {exec : Exec}
    {P : Happening → Prop}
    {t : Substate} (hphase : s.phase = .Execute frame exec) (hgrows : s.host.substate.Grows P t) :
    ∃ j js, t.Lists j ∧ List.Forall₂ (fun f j => f.substate.Lists j) s.frame_stack js ∧
      Kept (l ++ (s.host.substate.since t).map .event) (j :: js ++ [[]]) := by
  cases h with
  | enter hphase₁ => simp [hphase] at hphase₁
  | execute hphase₁ hcurrent hwaiting hkept =>
    exact ⟨_, _, hcurrent.since hgrows, hwaiting, hkept.events _⟩
  | traps hphase₁ => simp [hphase] at hphase₁
  | returns hphase₁ => simp [hphase] at hphase₁

/-- The journal of a frame that ends is added to the one of its caller, or dropped. -/
theorem Journaled.returned (h : s.Journaled l) {frame : CallCreateFrame} {exec : Exec}
    {result : Except VmError GasLeft} {r : Except VmError FrameReturn} {h₁ h' : Host State}
    (hphase : s.phase = .Execute frame exec)
    (hrun : (exec.step g frame.context).run s.host = .ok (.ok (.Output (.Return result)), h₁))
    (hret : (frame.process_return g result).run h₁ = .ok (.ok r, h')) :
    ({ s with host := h', phase := .LastRes (.Return r) } : FrameStack).Journaled
      (l ++ ((s.host.substate.since h'.substate).map .event ++ [.closed (frame_applied r)])) := by
  obtain ⟨hsubstate, -⟩ := wp_of_run (process_return_gathers frame result h₁) hret r rfl
  obtain ⟨j, js, hcurrent, hwaiting, hkept⟩ := h.step hphase (returns_gathers hrun hret)
  have houter : ∃ outer rest, js ++ [[]] = outer :: rest := by
    cases js with
    | nil => exact ⟨_, _, rfl⟩
    | cons outer js => exact ⟨_, _, rfl⟩
  obtain ⟨outer, rest, houter⟩ := houter
  rw [List.cons_append, houter] at hkept
  rw [← List.append_assoc]
  refine .returns rfl (fun hr => ⟨h'.substate, ?_, hcurrent⟩) (fun hr => ?_) hwaiting houter
    (hkept.closed (frame_applied r))
  · rw [hsubstate, if_pos hr]
  · rw [hsubstate, hr]
    rfl

/-- Every round keeps the journals. -/
theorem Journaled.round (h : s.Journaled l) (hround : Round g s s') :
    s'.Journaled (l ++ s.marks s') := by
  cases hround with
  | enter hphase hrun =>
    rw [marks_enter hphase]
    exact h.entered hphase hrun
  | @go_on frame exec exec' h' hphase hrun =>
    have hstep : Gathers (exec.Leaves g frame.context) s.host h' :=
      (exec_step_gathers exec).of_run hrun
    obtain ⟨j, js, hcurrent, hwaiting, hkept⟩ := h.step hphase hstep
    rw [marks_execute hphase (by simp)]
    exact .execute rfl hcurrent hwaiting hkept
  | returns hphase hrun hret =>
    rw [marks_returns hphase rfl]
    exact h.returned hphase hrun hret
  | @traps frame exec kind resume h' hphase hrun =>
    have hstep : Gathers (exec.Leaves g frame.context) s.host h' :=
      (exec_step_gathers exec).of_run hrun
    obtain ⟨j, js, hcurrent, hwaiting, hkept⟩ := h.step hphase hstep
    rw [marks_execute hphase (by simp)]
    exact .traps rfl hcurrent hwaiting hkept
  | @calls kind caller hphase =>
    rw [marks_lastRes hphase, List.append_nil]
    cases h with
    | enter hphase₁ => simp [hphase] at hphase₁
    | execute hphase₁ => simp [hphase] at hphase₁
    | returns hphase₁ => simp [hphase] at hphase₁
    | traps hphase₁ hcaller hwaiting hkept =>
      rw [hphase] at hphase₁
      cases hphase₁
      refine .enter rfl ?_ (.cons hcaller hwaiting) hkept
      cases kind <;> rfl
  | @resumes r parent parent' rest exec hphase hstack hresume =>
    rw [marks_lastRes hphase, List.append_nil]
    cases h with
    | enter hphase₁ => simp [hphase] at hphase₁
    | execute hphase₁ => simp [hphase] at hphase₁
    | traps hphase₁ => simp [hphase] at hphase₁
    | returns hphase₁ happlied hdropped hwaiting houter hkept =>
      rw [hphase] at hphase₁
      cases hphase₁
      rw [hstack] at hwaiting
      cases hwaiting with
      | cons hparent hwaiting =>
        obtain ⟨-, rfl⟩ := resume_inv hresume
        rw [List.cons_append] at houter
        obtain ⟨rfl, rfl⟩ := List.cons.inj houter
        exact .execute rfl (lists_accrue hparent happlied hdropped) hwaiting hkept

/-- In a run from a new stack the journals are kept. -/
theorem Chronicle.journaled {s₀ : FrameStack} (h : Chronicle g s₀ l s) (h₀ : s₀.Journaled []) :
    s.Journaled l := by
  induction h with
  | start => exact h₀
  | next _ hnext ih => exact ih.round (round_of_next hnext)

/-- What survives of the calls of a run is in the substate when the run has come to its end. -/
theorem Chronicle.survivors {s₀ : FrameStack} {frame : CallCreateFrame}
    {r : Except VmError FrameReturn}
    (h : Chronicle g s₀ l s) (hphase₀ : s₀.phase = .Enter frame) (hnew : frame.substate = .new)
    (hstack₀ : s₀.frame_stack = []) (hphase : s.phase = .LastRes (.Return r))
    (hstack : s.frame_stack = []) :
    ∃ f : Bracket.Forest (Mark.kind (α := Happening)), f.flatten = l ∧
      ∀ {t : Substate}, t.Lists [] → (accrue_substate t r).Lists (Journal.survivors f) := by
  have h₀ : s₀.Journaled [] := .enter hphase₀ hnew (by rw [hstack₀]; exact .nil) .start
  cases h.journaled h₀ with
  | enter hphase₁ => simp [hphase] at hphase₁
  | execute hphase₁ => simp [hphase] at hphase₁
  | traps hphase₁ => simp [hphase] at hphase₁
  | returns hphase₁ happlied hdropped hwaiting houter hkept =>
    rw [hphase] at hphase₁
    cases hphase₁
    rw [hstack] at hwaiting
    cases hwaiting
    obtain ⟨rfl, rfl⟩ := List.cons.inj houter
    obtain ⟨f, hf, hsurvivors⟩ := hkept.forest
    refine ⟨f, hf, fun {t} ht => ?_⟩
    rw [hsurvivors]
    exact lists_accrue ht happlied hdropped

end FrameStack

end

end CfxEvm
