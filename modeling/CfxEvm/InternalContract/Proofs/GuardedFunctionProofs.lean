import CfxEvm.Frame.Proofs.GuardProofs

/-!
# Proofs: guards of the internal contracts

The functions of the internal contracts move on the value that they were called with, or what a
mapped account was seen to hold.
-/

open Lib Lib.Prog

namespace CfxEvm

/-! ## Encodings -/

namespace Abi

/-- Every value of the type is encoded. -/
def Encodes (α : Type) [ABIVariable α] : Prop := ∀ x : α, ∃ data, ABIVariable.to_abi x = .ok data

theorem encodes_u256 : Encodes U256 := fun _ => ⟨_, rfl⟩

theorem encodes_bool : Encodes Bool := fun _ => ⟨_, rfl⟩

theorem encodes_bytes : Encodes Bytes := fun _ => ⟨_, rfl⟩

theorem encodes_address : Encodes Address := fun _ => ⟨_, rfl⟩

theorem encodes_fixed_bytes (n : Nat) : Encodes (FixedBytes n) := fun _ => ⟨_, rfl⟩

section
variable {α β γ : Type} [ABIVariable α] [ABIVariable β] [ABIVariable γ]

/-- A list of encoded values can only come out with a wrong length. -/
theorem ABIListWriter.write_down_panic (hα : Encodes α) {w : ABIListWriter} {x : α} {p : Panic}
    (h : w.write_down x = .error p) : p = .abi_heads_length := by
  obtain ⟨data, hdata⟩ := hα x
  simp only [write_down, hdata, bind, Except.bind] at h
  cases hlen : ABIVariable.STATIC_LENGTH α with
  | none =>
    rw [hlen] at h
    cases h
  | some len =>
    simp only [hlen] at h
    split at h
    · cases h
    · exact (Except.error.inj h).symm

theorem ABIListWriter.into_linked_bytes_panic {w : ABIListWriter} {p : Panic}
    (h : w.into_linked_bytes = .error p) : p = .abi_heads_length := by
  unfold into_linked_bytes at h
  split at h
  · cases h
  · exact (Except.error.inj h).symm

/-- What goes on after a part that panics in one place only. -/
theorem bind_panic {α β : Type} {x : Except Panic α} {f : α → Except Panic β} {p q : Panic}
    (h : (x >>= f) = .error p) (hx : ∀ p, x = .error p → p = q)
    (hf : ∀ a p, f a = .error p → p = q) : p = q := by
  cases x with
  | error e =>
    obtain rfl : e = p := Except.error.inj h
    exact hx e rfl
  | ok a => exact hf a p h

theorem encode_one_panic (hα : Encodes α) {x : α} {p : Panic} (h : abi_encode x = .error p) :
    p = .abi_heads_length :=
  bind_panic h (fun _ => ABIListWriter.write_down_panic hα) fun _ _ =>
    ABIListWriter.into_linked_bytes_panic

theorem encode_two_panic (hα : Encodes α) (hβ : Encodes β) {x : α × β} {p : Panic}
    (h : abi_encode x = .error p) : p = .abi_heads_length :=
  bind_panic h (fun _ => ABIListWriter.write_down_panic hα) fun _ _ h =>
    bind_panic h (fun _ => ABIListWriter.write_down_panic hβ) fun _ _ =>
      ABIListWriter.into_linked_bytes_panic

theorem encode_three_panic (hα : Encodes α) (hβ : Encodes β) (hγ : Encodes γ) {x : α × β × γ}
    {p : Panic} (h : abi_encode x = .error p) : p = .abi_heads_length :=
  bind_panic h (fun _ => ABIListWriter.write_down_panic hα) fun _ _ h =>
    bind_panic h (fun _ => ABIListWriter.write_down_panic hβ) fun _ _ h =>
      bind_panic h (fun _ => ABIListWriter.write_down_panic hγ) fun _ _ =>
        ABIListWriter.into_linked_bytes_panic

variable [Keccak]

theorem index_encode_ok (hα : Encodes α) (x : α) : ∃ topic, index_encode x = .ok topic := by
  obtain ⟨data, hdata⟩ := hα x
  unfold index_encode
  split
  · exact ⟨_, by rw [hdata]; rfl⟩
  · exact ⟨_, rfl⟩

theorem indexed_event_encode_ok (hα : Encodes α) (hβ : Encodes β) (x : α × β) :
    ∃ topics, indexed_event_encode x = .ok topics := by
  obtain ⟨a, ha⟩ := index_encode_ok hα x.1
  obtain ⟨b, hb⟩ := index_encode_ok hβ x.2
  refine ⟨[a, b], ?_⟩
  show (do return [← index_encode x.1, ← index_encode x.2]) = _
  rw [ha, hb]
  rfl

end

end Abi

open Abi

variable [Keccak] {g : Globals}

/-! ## Functions -/

section
variable {E : Panic → Prop} {F : VmError → Prop} {J : Host State → Prop} (hl : Lenient E F)
include hl

section
omit [Keccak]

theorem gas_sum_lenient (gas : Nat) : Safe E F J (gas_sum gas) :=
  .ite (fun _ => .pure _) fun _ => .abort (hl.panic id)

theorem transaction_gas_lenient (is_create : Bool) (data : Bytes) (spec : Spec) :
    Safe E F J (transaction_gas is_create data spec) :=
  .bind (hl.expect id) fun _ => .bind (.assert (hl.panic id)) fun _ => .pure _

theorem create_gas_lenient (spec : Spec) (code : Bytes) : Safe E F J (create_gas spec code) :=
  .bind (transaction_gas_lenient hl _ _ _) fun _ => gas_sum_lenient hl _

end

theorem call_gas_lenient
    (hexists : ∀ a, Safe E F J (Host.onState (State.exists_and_not_null a))) (receiver : Address)
    (params : ActionParams) (spec : Spec) (data : Bytes) :
    Safe E F J (call_gas receiver params spec data) :=
  .bind (transaction_gas_lenient hl _ _ _) fun _ => .bind (hexists receiver) fun _ =>
    gas_sum_lenient hl _

omit [Keccak] in
theorem split_gas_lenient (spec : Spec) (gas_left value : U256) :
    Safe E F J (split_gas spec gas_left value) :=
  .bind (gas_sum_lenient hl _) fun _ => .pure _

theorem log_event_lenient {α β : Type} [EventIndexEncodable α] [ABIEncodable β]
    (ctx : FrameContext) (params : ActionParams) (event_sig : H256) {indexed : α} {non_indexed : β}
    (hindexed : ∃ topics, indexed_event_encode indexed = .ok topics)
    (hencode : ∀ p, abi_encode non_indexed = .error p → p = .abi_heads_length) (h : Host State) :
    Tame E F (log_event event_sig ctx indexed non_indexed params) h := by
  obtain ⟨topics, htopics⟩ := hindexed
  refine .bind (.ofPanic fun p hp => ?_) fun _ _ _ => .bind (.ofPanic fun p hp => ?_) fun _ _ _ =>
    .ite (fun _ => .fail (hl.error id)) fun _ => ?_
  · rw [htopics] at hp
    cases hp
  · rw [hencode p hp]
    exact hl.panic id
  · exact fun _ he => nomatch he

section
omit [Keccak]

theorem pre_execution_check_lenient (t : FunctionType) (params : ActionParams) :
    Safe E F J (Prog.ofExcept (pre_execution_check t params) : HostM Unit) := by
  refine hl.ofExcept ?_
  unfold pre_execution_check
  exact noDbError_ite (noDbError_error id) (noDbError_ite (noDbError_error id) (noDbError_ok _))

/-- A function is safe if its price and its body are. -/
theorem run_function_tame {α β : Type} [ABIDecodable α] [ABIEncodable β] (spec : Spec)
    (t : FunctionType) {payment : α → HostM U256} {body : α → U256 → HostM (Answer β)}
    (hpayment : ∀ a, Safe E F J (payment a)) {h : Host State} (hh : J h)
    (hbody : ∀ a gas h, J h → Tame E F (body a gas) h)
    (hencode : ∀ (output : β) p, abi_encode output = .error p → p = .abi_heads_length)
    (input : Bytes) (params : ActionParams) :
    Tame E F (run_function spec t payment body input params) h := by
  have hdecode : Safe E F J (Prog.ofExcept ((abi_decode input : Except String α).mapError
      abi_decode_error) : HostM α) := by
    refine hl.ofExcept ?_
    rcases (abi_decode input : Except String α) with e | a
    · exact noDbError_error id
    · exact noDbError_ok a
  refine .after (pre_execution_check_lenient hl t params) hh fun _ h₁ hh₁ =>
    .after hdecode hh₁ fun a h₂ hh₂ => .after (hpayment a) hh₂ fun cost h₃ hh₃ =>
    .ite (fun _ => .fail (hl.error id)) fun _ => .bind (hbody a _ h₃ hh₃) fun answer h₄ _ => ?_
  cases answer with
  | Return output =>
    refine .bind (.ofPanic fun p hp => ?_) fun _ _ _ => .ite (fun _ => .fail (hl.error id))
      fun _ => .pure _
    rw [hencode output p hp]
    exact hl.panic id
  | SubCallCreate trap resume => exact .pure _

/-- So is one that cannot ask for a call. -/
theorem run_simple_tame {α β : Type} [ABIDecodable α] [ABIEncodable β] (spec : Spec)
    (t : FunctionType) {payment : α → HostM U256} {body : α → HostM β}
    (hpayment : ∀ a, Safe E F J (payment a)) {h : Host State} (hh : J h)
    (hbody : ∀ a h, J h → Tame E F (body a) h)
    (hencode : ∀ (output : β) p, abi_encode output = .error p → p = .abi_heads_length)
    (input : Bytes) (params : ActionParams) :
    Tame E F (run_function spec t payment (simple body) input params) h :=
  run_function_tame hl spec t hpayment hh (fun a _ h hh =>
    .bind (hbody a h hh) fun _ _ _ => .pure _)
    hencode input params

end

end

namespace Sites

variable {S : Sites} {I : FrameStack → Prop} {E : Panic → Prop} {F : DbError → Prop}
  {db : StateDb} {saved : List Ledger} {ctx : FrameContext} {w : Ledger} {h : Host State}
  {params : ActionParams}

/-- The host stands for the ledger `w`. -/
abbrev At (db : StateDb) (saved : List Ledger) (w : Ledger) (h : Host State) : Prop :=
  Rep db saved h.state w

theorem read_safe {α : Type} {x : StateM α} {f : Ledger → α} (hxy : StateRefines x (gets f)) :
    Safe E (VmError.Allowed F) (At db saved w) (Host.onState x) := by
  intro h hrep
  refine wp_mapErr.mpr (wp_inState hxy hrep (wp_gets.mpr fun s' hrep' => ⟨hrep', ?_⟩))
  exact fun _ he => nomatch he

section
variable (hG : S.Guards E F) (hS : S.Lawful g I)
include hG hS

omit hG in
/-- The state is read in the middle of a function. -/
theorem Lawful.reads {α : Type} {x : StateM α} {f : Ledger → α} (hxy : StateRefines x (gets f)) :
    Safe E (VmError.Allowed F) (S.Stands db saved fun _ => True) (Host.onState x) :=
  hS.safe (fun _ _ _ => id) (onState_keeps hxy (.gets _)) fun _ _ hrep _ _ => tame_read hxy hrep

theorem Guards.reads_code (a : Address) :
    Safe E (VmError.Allowed F) (S.Stands db saved fun _ => True) (Host.onState (State.code a)) :=
  hS.safe (fun _ _ _ => id) (hS.functions.functionsKeep.code a) fun _ _ hrep hw _ =>
    tame_onState (code_refines a) hrep (hG.read_code hw a)

theorem Guards.counts (a : Address) :
    Safe E (VmError.Allowed F) (S.Stands db saved fun _ => True)
      (Host.onState (State.inc_nonce a g.spec.account_start_nonce)) :=
  hS.safe (fun _ _ _ => id) (hS.functions.functionsKeep.inc_nonce a) fun _ _ hrep _ _ =>
    tame_onState (inc_nonce_refines _ _) hrep (Ledger.inc_nonce_tame (hG.panic id) _ _ _)

omit hG in
/-- After a part with the effect the host stands for a ledger with the property again. -/
theorem Lawful.followed_by {α β : Type} {x : HostM β} {f : β → HostM α}
    (hrep : Rep db saved h.state w)
    (hw : S.holds w) (hkeeps : Keeps S.effect.On x) (hx : Tame E (VmError.Allowed F) x h)
    (hf : ∀ b h', S.Stands db saved (fun _ => True) h' → Tame E (VmError.Allowed F) (f b) h') :
    Tame E (VmError.Allowed F) (x >>= f) h :=
  .bind hx fun b h' hrun =>
    hf b h' (hS.stands (fun _ _ _ => id) (hkeeps.of_run hrun) ⟨w, hrep, hw, trivial⟩)

omit hS in
/-- What can be paid is moved. -/
theorem Guards.transfer {from_ : Address} {v : U256} (hrep : Rep db saved h.state w)
    (hw : S.holds w) (hv : v.toNat ≤ w.balances from_) (to_ : Address) :
    Tame E (VmError.Allowed F) (Host.onTouched g.spec fun mode =>
      State.transfer_balance from_ to_ v mode g.spec.account_start_nonce) h :=
  tame_onTouched (fun _ => transfer_balance_refines _ _ _ _ _) hrep fun mode =>
    hG.transfer_balance hw hv to_ mode _

omit hS in
theorem Guards.forward_value (hrep : Rep db saved h.state w) (hw : S.holds w)
    (hv : params.value.value.toNat ≤ w.balances params.address) :
    Tame E (VmError.Allowed F) (CfxEvm.forward_value g params) h :=
  .bind (hG.transfer hrep hw hv _) fun _ _ _ _ he => nomatch he

theorem Guards.call_to_evmcore (hrep : Rep db saved h.state w) (hw : S.holds w)
    (hv : params.value.value.toNat ≤ w.balances params.address) (receiver : Address) (data : Bytes)
    (call_type : CallType) (gas_left : U256) :
    Tame E (VmError.Allowed F)
      (CfxEvm.call_to_evmcore g ctx receiver data call_type params gas_left) h := by
  have hl := hG.lenient
  refine .ite (fun _ => .fail trivial) fun _ => .after (I := At db saved w)
    (split_gas_lenient hl _ _ _) hrep fun _ h₁ hrep₁ => hS.followed_by hrep₁ hw
      (hS.functions.functionsKeep.forward_value params) (hG.forward_value hrep₁ hw hv) ?_
  intro _ h₂ hh₂
  refine .after (hG.reads_code hS receiver) hh₂ fun _ h₃ hh₃ =>
    .after (hS.reads (code_hash_refines receiver)) hh₃ fun _ h₄ hh₄ =>
    .bind (.when fun _ => ?_) fun _ _ _ => .pure _
  refine .after (hS.reads (nonce_refines _)) hh₄ fun _ h₅ hh₅ =>
    .after (hG.counts hS _) hh₅ fun _ h₆ _ => ?_
  exact log_event_lenient hl ctx params _
    (indexed_event_encode_ok (encodes_fixed_bytes 20) (encodes_fixed_bytes 20) _)
    (fun _ => encode_three_panic encodes_u256 encodes_u256 encodes_bytes) h₆

theorem Guards.create_to_evmcore (hrep : Rep db saved h.state w) (hw : S.holds w)
    (hv : params.value.value.toNat ≤ w.balances params.address) (init : Bytes) (salt : Option H256)
    (gas_left : U256) :
    Tame E (VmError.Allowed F) (CfxEvm.create_to_evmcore g ctx init salt params gas_left) h := by
  have hl := hG.lenient
  refine .ite (fun _ => .fail trivial) fun _ => .after (I := At db saved w)
    (split_gas_lenient hl _ _ _) hrep fun _ h₁ hrep₁ => hS.followed_by hrep₁ hw
      (hS.functions.functionsKeep.forward_value params) (hG.forward_value hrep₁ hw hv) ?_
  intro _ h₂ hh₂
  refine .after (hS.reads (nonce_refines _)) hh₂ fun _ h₃ hh₃ =>
    .after (hS.reads (nonce_refines _)) hh₃ fun _ h₄ hh₄ =>
    .after (hG.counts hS _) hh₄ fun _ h₅ _ => .bind ?_ fun _ _ _ => .pure _
  exact log_event_lenient hl ctx params _
    (indexed_event_encode_ok (encodes_fixed_bytes 20) (encodes_fixed_bytes 20) _)
    (fun _ => encode_three_panic encodes_u256 encodes_u256 encodes_bytes) h₅

/-- The mapped account pays what it was seen to have. -/
theorem Guards.withdraw_from_evmcore (hrep : Rep db saved h.state w) (hw : S.holds w)
    (sender : Address) (value : U256) :
    Tame E (VmError.Allowed F) (CfxEvm.withdraw_from_evmcore g ctx sender value params) h := by
  refine wp_bind.mpr (wp_mapErr.mpr (wp_inState (balance_refines _) hrep
    (wp_gets.mpr fun s₁ hrep₁ => ?_)))
  refine wp_ite (fun _ => Tame.fail (F := VmError.Allowed F) trivial) fun hle => ?_
  have hv : value.toNat ≤ w.balances (evm_map sender) := not_lt.mp hle
  refine hS.followed_by (h := { h with state := s₁ }) hrep₁ hw
    (hS.functions.functionsKeep.transfer _ _ _) (hG.transfer hrep₁ hw hv sender) fun _ h₂ hh₂ => ?_
  refine wp_bind.mpr (wp_update.mpr ?_)
  refine Tame.after (hS.reads (nonce_refines _)) hh₂ fun _ h₃ hh₃ =>
    .after (hG.counts hS _) hh₃ fun _ h₄ _ => ?_
  exact log_event_lenient hG.lenient ctx params _
    (indexed_event_encode_ok (encodes_fixed_bytes 20) encodes_address _)
    (fun _ => encode_two_panic encodes_u256 encodes_u256) h₄

omit hS in
/-- The registry gets its code right after its account was made. -/
theorem Guards.deploy_eip1820 (hrep : Rep db saved h.state w) :
    Tame E (VmError.Allowed F) CfxEvm.deploy_eip1820 h := by
  refine wp_bind.mpr (wp_mapErr.mpr (wp_inState (is_contract_with_code_refines _) hrep
    (wp_gets.mpr fun s₁ hrep₁ => ?_)))
  refine wp_ite (fun _ => Tame.fail (F := VmError.Allowed F) trivial) fun _ => ?_
  refine wp_bind.mpr (wp_mapErr.mpr (wp_inState (new_contract_refines _ _ _) (by exact hrep₁)
    (wp_update.mpr fun s₂ hrep₂ => ?_)))
  refine Tame.bind (tame_onState (init_code_refines _ _) (by exact hrep₂)
    (hG.init_code (.inr ?_) _)) fun _ _ _ => ?_
  · rw [Ledger.setAccount_same]
    rfl
  · exact fun _ he => nomatch he

/-- Every function of the internal contracts is safe. -/
theorem Guards.execute (hrep : Rep db saved h.state w) (hw : S.holds w)
    (hv : params.value.value.toNat ≤ w.balances params.address) (f : SolidityFunction)
    (input : Bytes) : Tame E (VmError.Allowed F) (f.execute g ctx input params) h := by
  have hl := hG.lenient
  have hexists : ∀ a, Safe E (VmError.Allowed F) (At db saved w)
      (Host.onState (State.exists_and_not_null a)) :=
        fun a => read_safe (exists_and_not_null_refines a)
  have hnum : ∀ (output : U256) p, abi_encode output = .error p → p = .abi_heads_length :=
    fun _ _ => encode_one_panic encodes_u256
  have hbytes : ∀ (output : Bytes) p, abi_encode output = .error p → p = .abi_heads_length :=
    fun _ _ => encode_one_panic encodes_bytes
  have hunit : ∀ (output : Unit) p, abi_encode output = .error p → p = .abi_heads_length :=
    fun _ _ hp => nomatch hp
  have hquery : ∀ answer, Tame E (VmError.Allowed F)
      (SolidityFunction.block_query g answer input params) h := fun answer =>
    run_simple_tame (J := At db saved w) hl _ _ (fun _ => gas_sum_lenient hl _) hrep
      (fun _ _ _ => .pure _) hnum _ _
  unfold SolidityFunction.execute
  cases f with
  | CreateToEVM =>
    exact run_function_tame (J := At db saved w) hl _ _ (fun _ => create_gas_lenient hl _ _) hrep
      (fun _ _ _ hrep₁ => hG.create_to_evmcore hS hrep₁ hw hv _ _ _)
      (fun _ _ => encode_one_panic (encodes_fixed_bytes 20)) _ _
  | TransferToEVM =>
    exact run_function_tame (J := At db saved w) hl _ _
      (fun _ => call_gas_lenient hl hexists _ _ _ _) hrep
      (fun _ _ _ hrep₁ => hG.call_to_evmcore hS hrep₁ hw hv _ _ _ _) hbytes _ _
  | CallToEVM =>
    exact run_function_tame (J := At db saved w) hl _ _
      (fun _ => call_gas_lenient hl hexists _ _ _ _) hrep
      (fun _ _ _ hrep₁ => hG.call_to_evmcore hS hrep₁ hw hv _ _ _ _) hbytes _ _
  | StaticCallToEVM =>
    exact run_function_tame (J := At db saved w) hl _ _ (fun _ => gas_sum_lenient hl _) hrep
      (fun _ _ _ hrep₁ => hG.call_to_evmcore hS hrep₁ hw hv _ _ _ _) hbytes _ _
  | Withdraw =>
    exact run_simple_tame (J := At db saved w) hl _ _ (fun _ => gas_sum_lenient hl _) hrep
      (fun _ _ hrep₁ => hG.withdraw_from_evmcore hS hrep₁ hw _ _) hunit _ _
  | MappedBalance =>
    exact run_simple_tame (J := At db saved w) hl _ _ (fun _ => gas_sum_lenient hl _) hrep
      (fun _ _ hrep₁ => tame_read (balance_refines _) hrep₁) hnum _ _
  | MappedNonce =>
    exact run_simple_tame (J := At db saved w) hl _ _ (fun _ => gas_sum_lenient hl _) hrep
      (fun _ _ hrep₁ => tame_read (nonce_refines _) hrep₁) hnum _ _
  | DeployEip1820 =>
    exact run_simple_tame (J := At db saved w) hl _ _ (fun _ => gas_sum_lenient hl _) hrep
      (fun _ _ hrep₁ => hG.deploy_eip1820 hrep₁) hunit _ _
  | EpochNumber => exact hquery _
  | PoSHeight => exact hquery _
  | FinalizedEpoch => exact hquery _

/-- So is a call of an internal contract that received the value that it was called with. -/
theorem Guards.internal_exec (hrep : Rep db saved h.state w) (hw : S.holds w)
    (hkind : params.OfKind)
    (hv : ∀ v, params.value = .Transfer v → v.toNat ≤ w.balances params.address)
    (c : InternalContract) : Tame E (VmError.Allowed F) (c.exec g ctx params) h := by
  refine .ite (fun htype => ?_) fun _ => .fail trivial
  have hpays : params.value.value.toNat ≤ w.balances params.address := by
    unfold ActionParams.OfKind at hkind
    simp only [Bool.or_eq_true, decide_eq_true_eq] at htype
    rcases htype with htype | htype
    · simp only [htype] at hkind
      obtain ⟨v, hvalue⟩ := hkind
      rw [hvalue]
      exact hv v hvalue
    · simp only [htype] at hkind
      rw [hkind]
      exact Nat.zero_le _
  have hload : NoDbError (InternalContract.load_solidity_fn params.data c.get_func_table
      g.spec) := by
    unfold InternalContract.load_solidity_fn
    cases params.data with
    | none => exact noDbError_error id
    | some data =>
      refine noDbError_ite (noDbError_error id) ?_
      dsimp only
      split
      · exact noDbError_ok _
      · exact noDbError_error id
  unfold InternalContract.execute
  rcases hfn : InternalContract.load_solidity_fn params.data c.get_func_table g.spec with
    e | ⟨f, input⟩
  · exact .fail (VmError.allowed_of_not (hload e hfn))
  · exact hG.execute hS hrep hw hpays f input

omit hS in
/-- The way back reports the outcome, unless the frame is static. -/
theorem Guards.pass_result {pass : PassResult} (hdata : NoDbError pass.return_data) :
    Tame E (VmError.Allowed F) (pass.exec g ctx) h := by
  have hl := hG.lenient
  refine .bind (.when fun _ => ?_) fun _ _ _ => .bind (.ofExcept fun e he => hl.error (hdata e he))
    fun _ _ _ => .bind (.expect (hl.panic id)) fun _ _ _ => .ite (fun _ => .fail trivial) fun _ =>
    .pure _
  refine .bind (wp_result.mpr (wp_post (log_event_lenient (hG.lenient) ctx pass.resume.params _
    ⟨_, rfl⟩ (fun _ => encode_one_panic encodes_bool) h) fun _ _ _ _ he => nomatch he)) fun _ _ _ =>
    .assert (hl.panic id)

end

end Sites

end CfxEvm
