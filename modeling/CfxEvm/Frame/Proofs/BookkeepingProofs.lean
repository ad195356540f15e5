import CfxEvm.Frame.Proofs.AtomicityProofs
import CfxEvm.Frame.Proofs.PlainProofs
import CfxEvm.State.Proofs.BalanceProofs

/-!
# Proofs: the bookkeeping of the frames

The checkpoints of the state, the call stack and the live frames go up and down together. A frame is
entered one level below the frame that waits for it, and only if that one was not at the maximal
depth; it finds the frame that takes up its result waiting for a result of its kind.
-/

open Lib Lib.Prog

namespace CfxEvm

section
variable {g : Globals} {ctx : FrameContext}

/-! ## What runs in a frame leaves the call stack alone -/

/-- The call stack stays as it is. -/
def SameCallstack (h h' : Host State) : Prop := h'.callstack = h.callstack

instance : IsPreorder (Host State) SameCallstack where
  refl _ := rfl
  trans _ _ _ h h' := h'.trans h

theorem overlooks_callstack : Overlooks SameCallstack :=
  ⟨fun _ _ => rfl, fun _ _ => rfl, fun _ _ _ _ => rfl⟩

/-! ## Calls and creations stay within the depth -/

variable [Keccak]

namespace Interpreter

variable {params : InterpreterParams} {c : CostType}

theorem exec_create_depth (instruction : Instruction) (provided : Option (Cost c)) :
    Yields (fun result => ∀ trap, result = .Trap trap → ctx.depth < g.spec.max_depth)
      (exec_create g ctx params instruction provided) := by
  refine .seq fun _ => .seq fun _ => .seq fun _ => .seq fun _ => .seq fun _ =>
    .ite (fun _ => .fail _) fun _ => .seq fun _ => .seq fun _ => .ite (fun hc => ?_) fun _ => ?_
  · rw [Bool.and_eq_true, decide_eq_true_eq, decide_eq_true_eq] at hc
    exact .seq fun _ => .seq fun _ => .pure fun _ _ => hc.2
  · exact .seq fun _ => .pure fun _ h => nomatch h

theorem exec_call_depth (instruction : Instruction) (provided : Option (Cost c)) :
    Yields (fun result => ∀ trap, result = .Trap trap → ctx.depth < g.spec.max_depth)
      (exec_call g ctx params instruction provided) := by
  refine .seq fun _ => .seq fun _ => .seq fun _ => .seq fun _ => .seq fun _ => .seq fun _ =>
    .seq fun _ => .seq fun _ => .seq fun _ => .seq fun _ => .seq fun _ => .seq fun _ =>
    .ite (fun hc => ?_) fun _ => ?_
  · rw [Bool.and_eq_true, decide_eq_true_eq] at hc
    exact .seq fun _ => .seq fun _ => .seq fun _ => .pure fun _ _ => hc.2
  · exact .seq fun _ => .pure fun _ h => nomatch h

/-- An interpreter asks for a call or creation only above the maximal depth. -/
theorem trapsAllowed_depth :
    TrapsAllowed c g ctx params (fun _ => True) fun _ _ => ctx.depth < g.spec.max_depth where
  create _ provided l h _ :=
    wp_post (exec_create_depth _ provided (l, h)) fun _ _ hr trap ht => hr _ ht trap rfl
  call _ _ provided l h _ :=
    wp_post (exec_call_depth _ provided (l, h)) fun _ _ hr trap ht => hr _ ht trap rfl

end Interpreter

/-- Whether an answer asks for a call or creation only if `P` holds. -/
def Answer.AsksIf (P : Prop) {α : Type} (answer : Answer α) : Prop :=
  ∀ trap resume, answer = .SubCallCreate trap resume → P

omit [Keccak] in
theorem run_function_asks {P : Prop} {α β : Type} [ABIDecodable α] [ABIEncodable β] (spec : Spec)
    (t : FunctionType) (payment : α → HostM U256) {body : α → U256 → HostM (Answer β)}
    (hbody : ∀ a gas, Yields (Answer.AsksIf P) (body a gas)) (input : Bytes)
    (params : ActionParams) :
    Yields (Answer.AsksIf P) (run_function spec t payment body input params) := by
  refine .seq fun _ => .seq fun _ => .seq fun _ => .ite (fun _ => .fail _) fun _ =>
    .bind (hbody _ _) fun answer ha => ?_
  cases answer with
  | Return output =>
    exact .seq fun _ => .ite (fun _ => .fail _) fun _ => .pure fun _ _ h => nomatch h
  | SubCallCreate trap resume => exact .pure fun _ _ _ => ha trap resume rfl

omit [Keccak] in
theorem simple_asks {P : Prop} {α β : Type} (body : α → HostM β) (a : α) (gas : U256) :
    Yields (Answer.AsksIf P) (simple body a gas) :=
  .seq fun _ => .pure fun _ _ h => nomatch h

theorem call_to_evmcore_depth (receiver : Address) (data : Bytes) (call_type : CallType)
    (params : ActionParams) (gas_left : U256) :
    Yields (Answer.AsksIf (ctx.depth < g.spec.max_depth))
      (call_to_evmcore g ctx receiver data call_type params gas_left) :=
  .ite (fun _ => .fail _) fun hlt => .seq fun _ => .seq fun _ => .seq fun _ => .seq fun _ =>
    .seq fun _ => .pure fun _ _ _ => Nat.lt_of_not_le hlt

theorem create_to_evmcore_depth (init : Bytes) (salt : Option H256) (params : ActionParams)
    (gas_left : U256) :
    Yields (Answer.AsksIf (ctx.depth < g.spec.max_depth))
      (create_to_evmcore g ctx init salt params gas_left) :=
  .ite (fun _ => .fail _) fun hlt => .seq fun _ => .seq fun _ => .seq fun _ => .seq fun _ =>
    .seq fun _ => .seq fun _ => .pure fun _ _ _ => Nat.lt_of_not_le hlt

theorem function_depth (f : SolidityFunction) (input : Bytes) (params : ActionParams) :
    Yields (Answer.AsksIf (ctx.depth < g.spec.max_depth)) (f.execute g ctx input params) := by
  unfold SolidityFunction.execute
  cases f with
  | CreateToEVM =>
    exact run_function_asks _ _ _ (fun _ _ => create_to_evmcore_depth _ _ _ _) _ _
  | TransferToEVM =>
    exact run_function_asks _ _ _ (fun _ _ => call_to_evmcore_depth _ _ _ _ _) _ _
  | CallToEVM =>
    exact run_function_asks _ _ _ (fun _ _ => call_to_evmcore_depth _ _ _ _ _) _ _
  | StaticCallToEVM =>
    exact run_function_asks _ _ _ (fun _ _ => call_to_evmcore_depth _ _ _ _ _) _ _
  | Withdraw => exact run_function_asks _ _ _ (simple_asks _) _ _
  | MappedBalance => exact run_function_asks _ _ _ (simple_asks _) _ _
  | MappedNonce => exact run_function_asks _ _ _ (simple_asks _) _ _
  | DeployEip1820 => exact run_function_asks _ _ _ (simple_asks _) _ _
  | EpochNumber => exact run_function_asks _ _ _ (simple_asks _) _ _
  | PoSHeight => exact run_function_asks _ _ _ (simple_asks _) _ _
  | FinalizedEpoch => exact run_function_asks _ _ _ (simple_asks _) _ _

/-- Whatever runs in a frame asks for a call or creation only above the maximal depth. -/
theorem exec_step_depth {exec : Exec} (hfits : exec.Fits) :
    Yields (fun progress => ∀ trap resume, progress = .Output (.SubCallCreate trap resume) →
      ctx.depth < g.spec.max_depth) (exec.step g ctx) := by
  cases exec with
  | NoopExec gas => exact .pure fun _ _ h => nomatch h
  | BuiltinExec builtin params => exact .pure fun _ _ h => nomatch h
  | InternalContractExec internal params =>
    have hexec : Yields (Answer.AsksIf (ctx.depth < g.spec.max_depth))
        (internal.exec g ctx params) :=
      .ite (fun _ => .seq fun _ => function_depth _ _ _) fun _ => .fail _
    intro h
    refine wp_bind.mpr (wp_result.mpr (wp_post (hexec h) ?_))
    rintro (e | _ | ⟨trap, resume⟩) h' ha
    · rintro _ ⟨⟩ _ _ ⟨⟩
    · rintro _ ⟨⟩ _ _ ⟨⟩
    · rintro _ ⟨⟩ _ _ ⟨⟩
      exact ha _ rfl trap resume rfl
  | PassResult pass => exact .seq fun _ => .pure fun _ _ h => nomatch h
  | Interpreter c i =>
    intro h
    refine wp_bind.mpr (wp_withPart.mpr (wp_post (Interpreter.step_traps (.of_forall fun _ _ => id)
      Interpreter.trapsAllowed_depth hfits.1 trivial) ?_))
    rintro (e | _ | value | _ | trap) ⟨i', h'⟩ htraps
    · rintro _ ⟨⟩ _ _ ⟨⟩
    · trivial
    · rintro _ ⟨⟩ _ _ ⟨⟩
    · rintro _ ⟨⟩ _ _ ⟨⟩
    · rintro _ ⟨⟩ _ _ ⟨⟩
      exact htraps trap rfl

/-! ## The beginning and the end of a frame -/

omit [Keccak] in
theorem sub_balance_panics (a : Address) (v : U256) (mode : CleanupMode) (w : Ledger) :
    wp (Ledger.sub_balance a v mode) BalancePanic (fun _ _ => True) w := by
  refine wp_bind.mpr (wp_when (fun _ => ?_) fun _ => ?_)
  · refine wp_bind.mpr (wp_gets.mpr ?_)
    rcases w.accounts a with _ | u
    · trivial
    · show wp (Ledger.write_account a (u.sub_balance v)) _ _ w
      unfold AccountView.sub_balance
      rcases U256.checked_sub u.balance v with _ | balance
      · trivial
      · cases mode <;> trivial
  · cases mode <;> trivial

theorem add_balance_panics (a : Address) (v : U256) (mode : CleanupMode) (nonce : U256)
    (w : Ledger) :
    wp (Ledger.add_balance a v mode nonce) BalancePanic (fun _ _ => True) w := by
  refine wp_bind.mpr (wp_gets.mpr (wp_bind.mpr (wp_when (fun _ => ?_) fun _ => trivial)))
  refine wp_bind.mpr (wp_gets.mpr ?_)
  show wp (Ledger.write_account a ((w.accountOrNew a nonce).add_balance v)) _ _ w
  unfold AccountView.add_balance
  rcases U256.checked_add (w.accountOrNew a nonce).balance v with _ | balance
  · trivial
  · trivial

theorem transfer_balance_panics (a b : Address) (v : U256) (mode : CleanupMode) (nonce : U256)
    (w : Ledger) :
    wp (Ledger.transfer_balance a b v mode nonce) BalancePanic (fun _ _ => True) w := by
  refine wp_bind.mpr (wp_post (sub_balance_panics a v mode w) ?_)
  rintro (e | mode') w' -
  · trivial
  · exact add_balance_panics b v mode' nonce w'

/-- Moving the value of a frame does not panic on the status of the frame. -/
theorem pre_exec_status {params : ActionParams} {spec : Spec} {is_create : Bool} {db : StateDb}
    {saved : List Ledger} {h : Host State} {w : Ledger} (hrep : Rep db saved h.state w) :
    wp (CallCreateFrame.pre_exec params spec is_create) (· ≠ .frame_status)
      (fun _ _ => True) h := by
  have hpanic : ∀ p, BalancePanic p → p ≠ .frame_status := by
    rintro _ hp rfl
    exact hp
  refine wp_ite (fun _ => ?_) fun _ => ?_
  · unfold CallCreateFrame.transfer_exec_balance_and_init_contract
    cases params.value with
    | Transfer val =>
      refine wp_bind.mpr (wp_inState (balance_refines _) hrep (wp_gets.mpr fun s₁ hrep₁ => ?_))
      refine wp_bind.mpr (wp_inTouched (fun _ => sub_balance_refines _ _ _) hrep₁ ?_)
      refine wp_mono (sub_balance_panics _ _ _ _) hpanic ?_
      rintro (e | mode) w₂ - s₂ hrep₂
      · trivial
      · exact wp_inState (new_contract_refines _ _ _) hrep₂ (wp_update.mpr fun _ _ => trivial)
    | Apparent val => exact fun h => nomatch h
  · unfold CallCreateFrame.transfer_exec_balance
    cases params.value with
    | Transfer val =>
      refine wp_inTouched (fun _ => transfer_balance_refines _ _ _ _ _) hrep ?_
      refine wp_mono (transfer_balance_panics _ _ _ _ _ _) hpanic ?_
      rintro (e | mode) w₂ - s₂ hrep₂ <;> trivial
    | Apparent val => trivial

omit [Keccak] in
theorem push_panic {c : FrameStackInfo} {a : Address} {is_create : Bool} {p : Panic}
    (h : c.push a is_create = .error p) : p = .callstack_counter := by
  simp only [FrameStackInfo.push] at h
  split at h
  · cases h
  · cases h
    rfl

/-- A frame that has its input, and is a creation if its context says so, is begun without a panic
    on its status. -/
theorem frame_exec_status [HashOrder] {frame : CallCreateFrame} {params : ActionParams}
    {db : StateDb} {saved : List Ledger} {h : Host State} {w : Ledger}
    (hstatus : frame.status = .Input params)
    (hcreate : frame.create_address.isSome = frame.context.is_create)
    (hrep : Rep db saved h.state w) :
    wp (frame.exec g) (· ≠ .frame_status) (fun _ _ => True) h := by
  unfold CallCreateFrame.exec
  simp only [hstatus]
  refine wp_bind.mpr (wp_assert (fun hne => ?_) fun _ => ?_)
  · rw [hcreate] at hne
    simp at hne
  refine wp_bind.mpr (wp_assert (fun _ => by decide) fun _ => wp_bind.mpr (wp_update.mpr ?_))
  obtain ⟨s₁, hcheck, hrep₁⟩ := checkpoint_spec (x := ⟨w, saved⟩) hrep
  refine wp_bind.mpr (wp_zoom.mpr (wp_intro (fun p hp => ?_) fun r s hs => ?_))
  · rw [hcheck] at hp
    cases hp
  · rw [hcheck] at hs
    obtain ⟨rfl, rfl⟩ := Prod.mk.inj (Except.ok.inj hs)
    refine wp_bind.mpr
      (wp_gets.mpr (wp_bind.mpr (wp_ofPanic (fun p hp => ?_) fun callstack _ => ?_)))
    · exact push_panic hp ▸ by decide
    refine wp_bind.mpr (wp_update.mpr (wp_bind.mpr (wp_post (pre_exec_status hrep₁) ?_)))
    rintro (e | _) h₂ -
    · trivial
    refine wp_bind.mpr (wp_ofPanic (fun p hp => ?_) fun _ _ => trivial)
    have hobject : ∀ p, Exec.create params = .error p → p ≠ .frame_status := by
      intro p hp
      unfold Exec.create at hp
      split at hp
      · cases hp
      · cases hp
        decide
    rcases hkind : frame.kind with _ | _ | _ | _ | _ <;> rw [hkind] at hp
    · cases hp
    · cases hp
    · cases hp
    · exact hobject p hp
    · exact hobject p hp

/-! ## Taking up a result -/

/-- The panics of an object that takes up a result which it has waited for. -/
def ResumePanic (p : Panic) : Prop :=
  p = .resume_output_range_missing ∨ p = .memory_out_of_range ∨ p = .gas_left_cannot_be_greater ∨
    p = .abi_heads_length

section
omit [Keccak]

theorem unused_gas_panic {c : CostType} {gas_left : U256} {p : Panic}
    (h : (Interpreter.unused_gas gas_left : Except Panic (InstructionResult c)) = .error p) :
    ResumePanic p := by
  unfold Interpreter.unused_gas at h
  split at h
  · cases h
  · cases h
    exact .inr (.inr (.inl rfl))

theorem map_panic {α β : Type} {x : Except Panic α} {f : α → β} {p : Panic}
    (h : x.map f = .error p) : x = .error p := by
  cases x with
  | error q =>
    cases h
    rfl
  | ok a => cases h

theorem interpreter_resume_call_panic {c : CostType} {i : Interpreter c}
    {result : MessageCallResult} {p : Panic} (h : i.resume_call result = .error p) :
    ResumePanic p := by
  have hreturned : ∀ out flag gas_left data, i.returned out flag gas_left data = .error p →
      ResumePanic p := by
    intro out flag gas_left data h
    unfold Interpreter.returned at h
    split at h
    · cases h
      exact .inr (.inl rfl)
    · split at h
      · cases h
        exact .inr (.inl rfl)
      · exact unused_gas_panic (map_panic h)
  unfold Interpreter.resume_call at h
  split at h
  · cases h
    exact .inl rfl
  · cases result with
    | Success gas_left data => exact hreturned _ _ _ _ h
    | Reverted gas_left data => exact hreturned _ _ _ _ h
    | Failed err => cases h

theorem interpreter_resume_create_panic {c : CostType} {i : Interpreter c}
    {result : ContractCreateResult} {p : Panic} (h : i.resume_create result = .error p) :
    ResumePanic p := by
  cases result with
  | Created address gas_left => exact unused_gas_panic (map_panic h)
  | Reverted gas_left data => exact unused_gas_panic (map_panic h)
  | Failed err => cases h

theorem resume_call_panic {self : Suspended} {result : MessageCallResult} {p : Panic}
    (h : self.resume_call result = .error p) : ResumePanic p := by
  cases self with
  | Interpreter c i => exact interpreter_resume_call_panic (map_panic h)
  | Resume r =>
    have hr := map_panic h
    cases result with
    | Success gas_left data =>
      have hout := map_panic hr
      split at hout
      · exact .inr (.inr (.inr (abi_encode_panic rfl hout)))
      · cases hout
        exact .inr (.inl rfl)
    | Failed err => cases hr
    | Reverted gas_left data => cases hr

theorem resume_create_panic {self : Suspended} {result : ContractCreateResult} {p : Panic}
    (h : self.resume_create result = .error p) : ResumePanic p := by
  cases self with
  | Interpreter c i => exact interpreter_resume_create_panic (map_panic h)
  | Resume r =>
    have hr := map_panic h
    cases result with
    | Created address gas_left =>
      simp only [Resume.resume_create, Resume.pass_output] at hr
      have hout := map_panic hr
      exact .inr (.inr (.inr (abi_encode_panic rfl hout)))
    | Failed err => cases hr
    | Reverted gas_left data => cases hr

end

/-- A frame waits for the result of a creation, or for the one of a call. -/
def FrameStatus.Awaits (is_create : Bool) : FrameStatus → Prop
  | .ResumeCall _ => is_create = false
  | .ResumeCreate _ => is_create = true
  | _ => False

omit [Keccak] in
/-- A frame that waits for a result of the kind that it is given neither has the wrong status for it
    nor misses the address of a creation. -/
theorem frame_resume_panic {parent : CallCreateFrame} {r : Except VmError FrameReturn}
    {is_create : Bool} (hawaits : parent.status.Awaits is_create)
    (hkind : ∀ fr, r = .ok fr → fr.create_address.isSome = is_create) {p : Panic}
    (h : parent.resume r = .error p) : ResumePanic p := by
  have hobj : CallCreateFrame.resume_object parent.status r = .error p := map_panic h
  unfold CallCreateFrame.resume_object at hobj
  rcases hstatus : parent.status with _ | _ | resume | resume | _ <;>
    rw [hstatus] at hawaits hobj
  · exact hawaits.elim
  · exact hawaits.elim
  · exact resume_call_panic hobj
  · obtain rfl : is_create = true := hawaits
    rcases hc : into_contract_create_result r with q | result <;> rw [hc] at hobj
    · -- a creation that succeeded has an address
      unfold into_contract_create_result at hc
      split at hc
      · rename_i fr
        split at hc
        · split at hc
          · cases hc
          · rename_i hnone
            have hsome := hkind fr rfl
            rw [hnone] at hsome
            cases hsome
        · cases hc
      · cases hc
    · exact resume_create_panic hobj
  · exact hawaits.elim

end

/-! ## The frames of a stack -/

/-- Whether a trap asks for a creation. -/
def TrapKind.is_create : TrapKind → Bool
  | .Call _ => false
  | .Create _ => true

/-- The frame at hand, if it was entered and has no result yet. -/
def Phase.live : Phase → List CallCreateFrame
  | .Execute frame _ => [frame]
  | .LastRes (.SubCallCreate _ caller) => [caller]
  | .Enter _ | .LastRes (.Return _) => []

/-- The frame at hand, also if it is about to be entered. -/
def Phase.frame : Phase → List CallCreateFrame
  | .Enter frame => [frame]
  | phase => phase.live

/-- Each of the waiting frames waits for a result of the kind of the frame that was called by it;
    the first one for the result of a creation or of a call, as `is_create` says. -/
def Awaiting : (is_create : Bool) → List CallCreateFrame → Prop
  | _, [] => True
  | is_create, f :: rest => f.status.Awaits is_create ∧ Awaiting f.context.is_create rest

/-- The depth of every frame is the number of frames below it. -/
def Depths (max_depth : Nat) : List CallCreateFrame → Prop
  | [] => True
  | f :: rest => f.context.depth = rest.length ∧ rest.length ≤ max_depth ∧ Depths max_depth rest

namespace FrameStack

/-- The frames that were entered and have no result yet, the last one at the head. -/
def live (s : FrameStack) : List CallCreateFrame := s.phase.live ++ s.frame_stack

/-- All frames, with the one that is about to be entered, the last one at the head. -/
def frames (s : FrameStack) : List CallCreateFrame := s.phase.frame ++ s.frame_stack

/-- The status of every frame is the one that its next operation expects. -/
def StatusesFit (s : FrameStack) : Prop :=
  match s.phase with
  | .Enter frame => (∃ params, frame.status = .Input params) ∧
      Awaiting frame.context.is_create s.frame_stack
  | .Execute frame _ => frame.status = .Running ∧ Awaiting frame.context.is_create s.frame_stack
  | .LastRes (.SubCallCreate kind caller) => caller.status.Awaits kind.is_create ∧
      Awaiting caller.context.is_create s.frame_stack
  | .LastRes (.Return r) => ∃ is_create, Awaiting is_create s.frame_stack ∧
      ∀ fr, r = .ok fr → fr.create_address.isSome = is_create

/-- What the rounds keep about the frames of a stack. -/
structure Tidy (g : Globals) (s : FrameStack) : Prop where
  callstack : s.host.callstack.call_stack_recipient_addresses =
    s.live.map fun f => (f.context.origin.address, f.context.is_create)
  depths : Depths g.spec.max_depth s.frames
  /-- A frame that asks for another one can have it one level below. -/
  trap : ∀ kind caller, s.phase = .LastRes (.SubCallCreate kind caller) →
    caller.context.depth < g.spec.max_depth
  kinds : ∀ f ∈ s.frames, f.create_address.isSome = f.context.is_create
  statuses : s.StatusesFit

end FrameStack

theorem Depths.depth_eq {max_depth : Nat} {l : List CallCreateFrame} (h : Depths max_depth l)
    {n : Nat} {f : CallCreateFrame} (hf : l.reverse[n]? = some f) :
    f.context.depth = n ∧ n ≤ max_depth := by
  induction l with
  | nil => simp at hf
  | cons f' rest ih =>
    obtain ⟨hdepth, hle, hrest⟩ := h
    rw [List.reverse_cons] at hf
    by_cases hn : n < rest.length
    · rw [List.getElem?_append_left (by simpa using hn)] at hf
      exact ih hrest hf
    · rw [List.getElem?_append_right (by simpa using hn), List.length_reverse] at hf
      have hn0 : n - rest.length = 0 := by
        by_contra hne
        obtain ⟨k, hk⟩ := Nat.exists_eq_succ_of_ne_zero hne
        rw [hk] at hf
        simp at hf
      rw [hn0] at hf
      obtain rfl : f' = f := by simpa using hf
      omega

/-! ## Rounds -/

theorem push_addresses {c c' : FrameStackInfo} {a : Address} {is_create : Bool}
    (h : c.push a is_create = .ok c') :
    c'.call_stack_recipient_addresses = (a, is_create) :: c.call_stack_recipient_addresses := by
  simp only [FrameStackInfo.push] at h
  split at h
  · cases h
    rfl
  · cases h

theorem pop_addresses {c c' : FrameStackInfo} {top : Option (Address × Bool)}
    (h : c.pop = .ok (top, c')) :
    c'.call_stack_recipient_addresses = c.call_stack_recipient_addresses.tail := by
  unfold FrameStackInfo.pop at h
  split at h
  · rename_i hnil
    cases h
    rw [hnil]
    rfl
  · rename_i hcons
    split at h
    · cases h
    · cases h
    · cases h
      rw [hcons]
      rfl

section
variable [Keccak] [HashOrder] {g : Globals} {s s' s₀ : FrameStack}

theorem returned_create_address {frame : CallCreateFrame} {result : Except VmError GasLeft}
    {r : Except VmError FrameReturn} {h h' : Host State}
    (hret : (frame.process_return g result).run h = .ok (.ok r, h')) {fr : FrameReturn}
    (hr : r = .ok fr) : fr.create_address = frame.create_address := by
  obtain ⟨fin, h₁, substate, h₂, hends⟩ := process_return_inv hret
  have heq := hends.result_eq
  rw [hr] at heq
  rcases fin with e | fin
  · cases heq
  · cases heq
    rfl

theorem returned_callstack {frame : CallCreateFrame} {result : Except VmError GasLeft}
    {r : Except VmError FrameReturn} {h h' : Host State}
    (hret : (frame.process_return g result).run h = .ok (.ok r, h')) :
    h'.callstack.call_stack_recipient_addresses =
      h.callstack.call_stack_recipient_addresses.tail := by
  obtain ⟨fin, h₁, substate, h₂, hends⟩ := process_return_inv hret
  obtain ⟨top, hpop⟩ := hends.callstack
  have hfin : h₁.callstack = h.callstack :=
    (overlooks_callstack.finalize result).of_run hends.finalize
  have hclose : h₂.callstack = h₁.callstack :=
    (overlooks_callstack.close frame _).of_run hends.close
  rw [pop_addresses hpop, hclose, hfin]

namespace FrameStack

theorem tidy_initial (h : Initial g s) : s.Tidy g := by
  cases h with
  | call state cache substate observer base params hstate htype =>
    refine ⟨rfl, ⟨rfl, Nat.zero_le _, trivial⟩, fun _ _ h => (nomatch h), ?_,
      ⟨⟨params, rfl⟩, trivial⟩⟩
    intro f hf
    obtain rfl := List.mem_singleton.mp hf
    rfl
  | create state cache substate observer base params hstate =>
    refine ⟨rfl, ⟨rfl, Nat.zero_le _, trivial⟩, fun _ _ h => (nomatch h), ?_,
      ⟨⟨params, rfl⟩, trivial⟩⟩
    intro f hf
    obtain rfl := List.mem_singleton.mp hf
    rfl

theorem Tidy.round (hfits : s.GasFits) (h : s.Tidy g) (hround : Round g s s') : s'.Tidy g := by
  have hcall := h.callstack
  have hdepths := h.depths
  have hkinds := h.kinds
  have hstatus := h.statuses
  have hexec := hfits.1
  cases hround with
  | @enter frame frame' exec h' hphase hrun =>
    simp only [live, frames, StatusesFit, hphase, Phase.live, Phase.frame, List.nil_append]
      at hcall hdepths hkinds hstatus
    obtain ⟨params, h₁, hbegins⟩ := frame_exec_inv hrun
    obtain rfl := hbegins.frame_eq
    have hpre : h'.callstack = h₁.callstack :=
      (overlooks_callstack.pre_exec params g.spec _).of_run hbegins.pre_exec
    refine ⟨?_, hdepths, fun _ _ hp => (nomatch hp), ?_, rfl, hstatus.2⟩
    · show h'.callstack.call_stack_recipient_addresses = _
      rw [hpre, push_addresses hbegins.callstack, hbegins.is_create]
      exact congrArg _ hcall
    · intro f hf
      rcases List.mem_cons.mp hf with rfl | hf
      · exact hbegins.is_create
      · exact hkinds f (List.mem_cons_of_mem _ hf)
  | @go_on frame exec exec' h' hphase hrun =>
    simp only [live, frames, StatusesFit, hphase, Phase.live, Phase.frame]
      at hcall hdepths hkinds hstatus
    have hsame : h'.callstack = s.host.callstack :=
      (overlooks_callstack.exec_step (fun _ _ => rfl) exec).of_run hrun
    refine ⟨?_, hdepths, fun _ _ hp => (nomatch hp), hkinds, hstatus⟩
    show h'.callstack.call_stack_recipient_addresses = _
    rw [hsame]
    exact hcall
  | @returns frame exec result r h₁ h' hphase hrun hret =>
    simp only [live, frames, StatusesFit, hphase, Phase.live, Phase.frame]
      at hcall hdepths hkinds hstatus
    have hsame : h₁.callstack = s.host.callstack :=
      (overlooks_callstack.exec_step (fun _ _ => rfl) exec).of_run hrun
    refine ⟨?_, hdepths.2.2, fun _ _ hp => (nomatch hp), ?_, frame.context.is_create, hstatus.2, ?_⟩
    · show h'.callstack.call_stack_recipient_addresses = _
      rw [returned_callstack hret, hsame, hcall]
      rfl
    · exact fun f hf => hkinds f (List.mem_cons_of_mem _ hf)
    · intro fr hr
      rw [returned_create_address hret hr]
      exact hkinds frame (by simp)
  | @traps frame exec kind resume h' hphase hrun =>
    rw [hphase] at hexec
    simp only [live, frames, StatusesFit, hphase, Phase.live, Phase.frame]
      at hcall hdepths hkinds hstatus
    have hsame : h'.callstack = s.host.callstack :=
      (overlooks_callstack.exec_step (fun _ _ => rfl) exec).of_run hrun
    refine ⟨?_, hdepths, ?_, ?_, ?_, hstatus.2⟩
    · show h'.callstack.call_stack_recipient_addresses = _
      rw [hsame]
      exact hcall
    · rintro _ _ ⟨⟩
      exact (exec_step_depth hexec).of_run hrun kind resume rfl
    · intro f hf
      rcases List.mem_cons.mp hf with rfl | hf
      · exact hkinds frame (by simp)
      · exact hkinds f (List.mem_cons_of_mem _ hf)
    · cases kind <;> rfl
  | @calls kind caller hphase =>
    have hdeep := h.trap kind caller hphase
    simp only [live, frames, StatusesFit, hphase, Phase.live, Phase.frame]
      at hcall hdepths hkinds hstatus
    have hcaller : caller.context.depth = s.frame_stack.length := hdepths.1
    have hlen : s.frame_stack.length + 1 ≤ g.spec.max_depth := by omega
    refine ⟨hcall, ?_, fun _ _ hp => (nomatch hp), ?_, ?_⟩
    · cases kind <;> exact ⟨congrArg (· + 1) hcaller, hlen, hdepths⟩
    · intro f hf
      rcases List.mem_cons.mp hf with rfl | hf
      · cases kind <;> rfl
      · exact hkinds f hf
    · cases kind with
      | Call params => exact ⟨⟨params, rfl⟩, hstatus⟩
      | Create params => exact ⟨⟨params, rfl⟩, hstatus⟩
  | @resumes r parent parent' rest exec hphase hstack hresume =>
    simp only [live, frames, StatusesFit, hphase, Phase.live, Phase.frame, hstack, List.nil_append]
      at hcall hdepths hkinds hstatus
    obtain ⟨is_create, hawaiting, -⟩ := hstatus
    obtain ⟨-, rfl⟩ := resume_inv hresume
    refine ⟨hcall, hdepths, fun _ _ hp => (nomatch hp), ?_, rfl, hawaiting.2⟩
    intro f hf
    rcases List.mem_cons.mp hf with rfl | hf
    · exact hkinds parent (by simp)
    · exact hkinds f (List.mem_cons_of_mem _ hf)

theorem tidy_of_rounds (hspec : g.spec.GenesisConstants) (hinit : Initial g s₀)
    (hrun : Rounds (step g) s₀ s) : s.Tidy g := by
  refine (Rounds.invariant (I := fun s => s.GasFits ∧ s.Tidy g) (fun s s' hs hnext => ?_)
    ⟨gasFits_initial hinit, tidy_initial hinit⟩ hrun).2
  have hround := round_of_next hnext
  exact ⟨(gasStep_of_round hspec hs.1 hround).fits, hs.2.round hs.1 hround⟩

end FrameStack

/-! ## Whole runs -/

section
omit [HashOrder]

theorem length_unwind {db : StateDb} (l : List (HashMap Address (Option AccountEntry)))
    (cur : Address → Option AccountView) : (unwind db cur l).length = l.length := by
  induction l generalizing cur with
  | nil => rfl
  | cons c cs ih => exact congrArg (· + 1) (ih _)

/-- There are as many open checkpoints as ledgers that they stand for. -/
theorem length_checkpoints {db : StateDb} {saved : List Ledger} {state : State} {w : Ledger}
    (h : Rep db saved state w) : state.checkpoints.length = saved.length ∧
      state.world_statistics_checkpoints.length = saved.length := by
  obtain ⟨owner, h⟩ := h
  have hlen : saved.length = state.checkpoints.length := by
    rw [← h.saved_eq, State.savedLedgers, List.length_zipWith, length_unwind, h.ok.totals,
      Nat.min_self]
  exact ⟨hlen.symm, h.ok.totals.trans hlen.symm⟩

omit [Keccak] in
theorem opened_eq_live (phase : Phase) : phase.opened = phase.live.length := by
  rcases phase with _ | _ | _ | _ <;> rfl

end

/-- Every live frame has one open checkpoint. -/
theorem checkpoints_of_rounds (hinit : FrameStack.Initial g s₀)
    (hrun : Rounds (FrameStack.step g) s₀ s) :
    ∃ db saved w, Rep db saved s.host.state w ∧
      saved.length = s₀.host.state.checkpoints.length + s.live.length := by
  have hrep : ∃ frame db saved w, s₀.phase = .Enter frame ∧ s₀.frame_stack = [] ∧
      Rep db saved s₀.host.state w := by
    cases hinit with
    | call state _ _ _ _ params hstate =>
      obtain ⟨db, saved, w, hrep⟩ := hstate.rep
      exact ⟨_, db, saved, w, rfl, rfl, hrep⟩
    | create state _ _ _ _ params hstate =>
      obtain ⟨db, saved, w, hrep⟩ := hstate.rep
      exact ⟨_, db, saved, w, rfl, rfl, hrep⟩
  obtain ⟨frame, db, saved, w, hphase, hstack, hrep⟩ := hrep
  have htracks : Tracks Effect.any db saved w s₀.frame_stack s₀.tx_substate s₀ :=
    tracks_enter hphase hrep trivial
  rw [hstack] at htracks
  obtain ⟨T, ws, w', h⟩ := htracks.inside (fun s _ => permits_any s) (inside_of_rounds hrun)
  refine ⟨db, ws ++ saved, w', h.rep, ?_⟩
  have hT : s.frame_stack = T := h.stack.trans (List.append_nil T)
  rw [List.length_append, h.opened, (length_checkpoints hrep).1, FrameStack.live,
    List.length_append, hT, opened_eq_live]
  omega

/-- The bookkeeping of a stack `s` that is reached from the stack `s₀` at the beginning. -/
structure Balanced (g : Globals) (s₀ s : FrameStack) : Prop where
  /-- The checkpoints opened since the beginning, the call stack and the live frames go together. -/
  checkpoints : s.host.state.checkpoints.length =
    s₀.host.state.checkpoints.length + s.live.length
  statistics : s.host.state.world_statistics_checkpoints.length =
    s₀.host.state.checkpoints.length + s.live.length
  callstack : s.host.callstack.call_stack_recipient_addresses.length = s.live.length
  depth : ∀ n f, s.frames.reverse[n]? = some f → f.context.depth = n ∧ n ≤ g.spec.max_depth
  statuses : s.StatusesFit
  /-- No panic on the status of a frame that is executed ... -/
  enter : ∀ frame, s.phase = .Enter frame →
    (frame.exec g).run (s.activate frame.substate).host ≠ .error .frame_status
  /-- ... or of one that takes up a result. -/
  resume : ∀ r parent rest, s.phase = .LastRes (.Return r) → s.frame_stack = parent :: rest →
    parent.resume r ≠ .error .frame_status ∧ parent.resume r ≠ .error .create_address_missing
  /-- When a frame has its result, the frame that takes it up waits for a result of its kind. -/
  taken_up : ∀ frame r s', s.phase = .Enter frame → FrameStack.FrameRun g s r s' →
    ∀ parent rest, s'.frame_stack = parent :: rest → parent.status.Awaits frame.context.is_create

theorem balanced_of_rounds (hspec : g.spec.GenesisConstants) (hinit : FrameStack.Initial g s₀)
    (hrun : Rounds (FrameStack.step g) s₀ s) : Balanced g s₀ s := by
  have htidy := FrameStack.tidy_of_rounds hspec hinit hrun
  obtain ⟨db, saved, w, hrep, hsaved⟩ := checkpoints_of_rounds hinit hrun
  obtain ⟨hcheckpoints, hstatistics⟩ := length_checkpoints hrep
  have hstatus := htidy.statuses
  have hkinds := htidy.kinds
  refine ⟨hcheckpoints.trans hsaved, hstatistics.trans hsaved, ?_, ?_, hstatus, ?_, ?_, ?_⟩
  · rw [htidy.callstack, List.length_map]
  · exact fun n f hf => htidy.depths.depth_eq hf
  · intro frame hphase hpanic
    simp only [FrameStack.StatusesFit, hphase] at hstatus
    obtain ⟨⟨params, hinput⟩, -⟩ := hstatus
    have hkind : frame.create_address.isSome = frame.context.is_create := by
      refine hkinds frame ?_
      simp [FrameStack.frames, hphase, Phase.frame]
    have hrep' : Rep db saved (s.activate frame.substate).host.state w := hrep
    exact wp_of_panic (frame_exec_status hinput hkind hrep') hpanic rfl
  · intro r parent rest hphase hstack
    simp only [FrameStack.StatusesFit, hphase, hstack] at hstatus
    obtain ⟨is_create, hawaiting, hkind⟩ := hstatus
    refine ⟨fun hpanic => ?_, fun hpanic => ?_⟩
    · rcases frame_resume_panic hawaiting.1 hkind hpanic with h | h | h | h <;> cases h
    · rcases frame_resume_panic hawaiting.1 hkind hpanic with h | h | h | h <;> cases h
  · intro frame r s' hphase hframe parent rest hstack
    rw [hframe.frame_stack] at hstack
    simp only [FrameStack.StatusesFit, hphase, hstack] at hstatus
    exact hstatus.2.1

/-- Frame bookkeeping stays balanced. Whatever calls, creations, returns, failures and resumes lead
    from the beginning of a transaction to the stack `s`, its checkpoints, call stack, depths and
    statuses go together; and when the execution returns, no checkpoint, call stack entry or frame
    of it is left. -/
theorem frame_bookkeeping_stays_balanced (hspec : g.spec.GenesisConstants)
    (hinit : FrameStack.Initial g s₀) (hrun : Rounds (FrameStack.step g) s₀ s) :
    Balanced g s₀ s ∧ ∀ fuel output s',
      (FrameStack.exec g fuel).run s₀ = .ok (.ok (some output), s') →
      s'.host.state.checkpoints.length = s₀.host.state.checkpoints.length ∧
        s'.host.callstack.call_stack_recipient_addresses =
          s₀.host.callstack.call_stack_recipient_addresses ∧ s'.live = [] := by
  refine ⟨balanced_of_rounds hspec hinit hrun, fun fuel output s' hexec => ?_⟩
  obtain ⟨r, hrounds, hphase, hstack, -⟩ := rounds_of_exec hexec
  have hbalanced := balanced_of_rounds hspec hinit hrounds
  have hlive : s'.live = [] := by
    simp only [FrameStack.live, hphase, hstack, Phase.live, List.append_nil]
  refine ⟨?_, ?_, hlive⟩
  · have hcheckpoints := hbalanced.checkpoints
    rw [hlive] at hcheckpoints
    exact hcheckpoints
  · have hnil : s₀.host.callstack.call_stack_recipient_addresses = [] := by
      cases hinit <;> rfl
    have hlen := hbalanced.callstack
    rw [hlive] at hlen
    rw [hnil]
    exact List.length_eq_zero_iff.mp hlen

end

section
attribute [local instance] keccakOfEmpty HashOrder.asListed

/-- A call within a call: there are two checkpoints and two entries of the call stack while the
    callee runs, one when its caller has taken up the result, and none in the end. -/
theorem bookkeeping_of_nested_call :
    ∃ s₁ s₂ output s', Rounds (FrameStack.step bareMachine) payingStack s₁ ∧ s₁.live.length = 2 ∧
      Balanced bareMachine payingStack s₁ ∧ Rounds (FrameStack.step bareMachine) s₁ s₂ ∧
      s₂.live.length = 1 ∧ Balanced bareMachine payingStack s₂ ∧
      (FrameStack.exec bareMachine 20).run payingStack = .ok (.ok (some output), s') ∧
      s'.host.state.checkpoints.length = payingStack.host.state.checkpoints.length := by
  have hruns : ((FrameStack.after bareMachine 11 payingStack).any fun s₁ =>
      s₁.live.length = 2 && (FrameStack.after bareMachine 2 s₁).any fun s₂ =>
        s₂.live.length = 1) = true := by
    decide +kernel
  have hexec : (FrameStack.exec bareMachine 20).returns payingStack (fun output _ =>
    output.isSome) =
      true := by
    decide +kernel
  simp only [Option.any_eq_true, Bool.and_eq_true, decide_eq_true_iff] at hruns
  obtain ⟨s₁, h₁, hlive₁, s₂, h₂, hlive₂⟩ := hruns
  obtain ⟨output, s', hexec, hsome⟩ := exists_of_returns hexec
  obtain ⟨output, rfl⟩ := Option.isSome_iff_exists.mp hsome
  have hrounds := rounds_of_after h₁
  obtain ⟨hbalanced₁, hend⟩ :=
    frame_bookkeeping_stays_balanced (by decide) payingStack_initial hrounds
  obtain ⟨hbalanced₂, -⟩ := frame_bookkeeping_stays_balanced (by decide) payingStack_initial
    (hrounds.trans (rounds_of_after h₂))
  exact ⟨s₁, s₂, output, s', hrounds, hlive₁, hbalanced₁, rounds_of_after h₂, hlive₂,
    hbalanced₂, hexec,
    (hend 20 output s' hexec).1⟩

end

end CfxEvm
