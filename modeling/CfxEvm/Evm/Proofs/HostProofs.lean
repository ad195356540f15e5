import CfxEvm.Evm.Proofs.MemoryProofs
import CfxEvm.Lib.Safe

/-!
# Proofs: what an interpreter does to its host

The interpreter changes the host only through the functions of the context, and through the cache
of jump destinations. So an invariant of the host that those keep is kept by every step, and a step
meets a database error or a panic on a balance only in one of those.
-/

open Lib Lib.Prog

namespace CfxEvm

variable [Keccak]

/-- Every function of the context keeps the relation. -/
structure HostKeeps (g : Globals) (ctx : FrameContext) (R : Host State → Host State → Prop) :
    Prop where
  storage_at : ∀ key, Keeps R (Context.storage_at ctx key)
  set_storage : ∀ key value, Keeps R (Context.set_storage ctx key value)
  «exists» : ∀ a, Keeps R (Context.exists a)
  exists_and_not_null : ∀ a, Keeps R (Context.exists_and_not_null a)
  balance : ∀ a, Keeps R (Context.balance a)
  create : ∀ gas value code scheme, Keeps R (Context.create g ctx gas value code scheme)
  extcode : ∀ a, Keeps R (Context.extcode g a)
  extcodehash : ∀ a, Keeps R (Context.extcodehash g a)
  extcodesize : ∀ a, Keeps R (Context.extcodesize g a)
  log : ∀ topics data, Keeps R (Context.log ctx topics data)
  suicide : ∀ a nonce, Keeps R (Context.suicide g ctx a nonce)

/-- Every function of the context and a change of the cache keep the relation. -/
structure ContextKeeps (g : Globals) (ctx : FrameContext) (R : Host State → Host State → Prop) :
    Prop extends HostKeeps g ctx R where
  shared_cache : ∀ h cache, R h { h with shared_cache := cache }

theorem HostKeeps.mono {g : Globals} {ctx : FrameContext} {R R' : Host State → Host State → Prop}
    (h : HostKeeps g ctx R) (hR : ∀ a b, R a b → R' a b) : HostKeeps g ctx R' where
  storage_at _ := (h.storage_at _).mono hR
  set_storage _ _ := (h.set_storage _ _).mono hR
  «exists» _ := (h.exists _).mono hR
  exists_and_not_null _ := (h.exists_and_not_null _).mono hR
  balance _ := (h.balance _).mono hR
  create _ _ _ _ := (h.create _ _ _ _).mono hR
  extcode _ := (h.extcode _).mono hR
  extcodehash _ := (h.extcodehash _).mono hR
  extcodesize _ := (h.extcodesize _).mono hR
  log _ _ := (h.log _ _).mono hR
  suicide _ _ := (h.suicide _ _).mono hR

/-- Any relation that holds of all hosts. -/
theorem ContextKeeps.of_forall {g : Globals} {ctx : FrameContext}
    {R : Host State → Host State → Prop} (h : ∀ a b, R a b) : ContextKeeps g ctx R := by
  have hany : ∀ {α : Type} (x : HostM α), Keeps R x :=
    fun x s => wp_intro (fun _ _ => trivial) fun _ s' _ => h s s'
  exact ⟨⟨fun _ => hany _, fun _ _ => hany _, fun _ => hany _, fun _ => hany _, fun _ => hany _,
    fun _ _ _ _ => hany _, fun _ => hany _, fun _ => hany _, fun _ => hany _, fun _ _ => hany _,
    fun _ _ => hany _⟩, fun _ _ => h _ _⟩

/-! ## What the context leaves alone -/

/-- The relation holds whatever becomes of the state and the substate, and whichever transfers the
    observers are shown. -/
structure Overlooks (R : Host State → Host State → Prop) : Prop where
  state : ∀ h s, R h { h with state := s }
  substate : ∀ h t, R h { h with substate := t }
  transfer : ∀ h from_ to_ v,
    R h { h with observer := h.observer.trace_internal_transfer from_ to_ v }

namespace Overlooks

variable {g : Globals} {ctx : FrameContext} {R : Host State → Host State → Prop}
  [IsPreorder (Host State) R] (h : Overlooks R)
include h

section
omit [Keccak]

omit [IsPreorder (Host State) R] in
theorem inState {α : Type} (x : StateM α) : Keeps R (Host.inState x) :=
  .zoom (R := fun _ _ => True) (fun _ => wp_intro (fun _ _ => trivial) fun _ _ _ => trivial)
    fun k s _ => h.state k s

theorem inTouched (spec : Spec) (x : CleanupMode → StateM CleanupMode) :
    Keeps R (Host.inTouched spec x) :=
  .bind (.gets _) fun _ => .bind (h.inState _) fun _ => .update fun _ => h.substate _ _

omit [IsPreorder (Host State) R] in
theorem onState {α : Type} (x : StateM α) : Keeps R (Host.onState x) := .mapErr (h.inState x)

theorem onTouched (spec : Spec) (x : CleanupMode → StateM CleanupMode) :
    Keeps R (Host.onTouched spec x) :=
  .mapErr (h.inTouched spec x)

end

theorem extcode (a : Address) : Keeps R (Context.extcode g a) := by
  unfold Context.extcode
  cases g.machine.contract a g.spec with
  | none => exact h.onState _
  | some _ => exact .pure _

theorem extcodehash (a : Address) : Keeps R (Context.extcodehash g a) := by
  unfold Context.extcodehash
  cases g.machine.contract a g.spec with
  | none => exact h.onState _
  | some _ => exact .pure _

theorem extcodesize (a : Address) : Keeps R (Context.extcodesize g a) := by
  unfold Context.extcodesize
  cases g.machine.contract a g.spec with
  | none => exact h.onState _
  | some _ => exact .pure _

theorem suicide (contract_address refund_address : Address) (spec : Spec) (nonce : U256) :
    Keeps R (CfxEvm.suicide contract_address refund_address spec nonce) := by
  refine .bind (.update fun _ => h.substate _ _) fun _ => .bind (h.onState _) fun _ =>
    .ite (fun _ => ?_) fun _ => ?_
  · exact .bind (.update fun _ => h.transfer _ _ _ _) fun _ => .bind (h.onTouched _ _) fun _ =>
      h.onState _
  · exact .bind (.update fun _ => h.transfer _ _ _ _) fun _ => h.onTouched _ _

theorem context : HostKeeps g ctx R where
  storage_at _ := h.onState _
  set_storage _ _ := .ite (fun _ => .fail _) fun _ => h.onState _
  «exists» _ := h.onState _
  exists_and_not_null _ := h.onState _
  balance _ := h.onState _
  create _ _ _ _ := .bind (h.onState _) fun _ =>
    .bind (.when fun _ => h.onState _) fun _ => .pure _
  extcode := h.extcode
  extcodehash := h.extcodehash
  extcodesize := h.extcodesize
  log _ _ := .ite (fun _ => .fail _) fun _ => .update fun _ => h.substate _ _
  suicide _ _ := .ite (fun _ => .fail _) fun _ => h.suicide _ _ _ _

end Overlooks

/-- The call stack and the cache stay as they are. -/
def SameShared (h h' : Host State) : Prop :=
  h'.callstack = h.callstack ∧ h'.shared_cache = h.shared_cache

instance : IsPreorder (Host State) SameShared where
  refl _ := ⟨rfl, rfl⟩
  trans _ _ _ h h' := ⟨h'.1.trans h.1, h'.2.trans h.2⟩

theorem context_shared {g : Globals} {ctx : FrameContext} : HostKeeps g ctx SameShared :=
  Overlooks.context ⟨fun _ _ => ⟨rfl, rfl⟩, fun _ _ => ⟨rfl, rfl⟩, fun _ _ _ _ => ⟨rfl, rfl⟩⟩

/-! ## Panics and errors of the interpreter itself -/

/-- The panics of the operations on balances. -/
def BalancePanic : Panic → Prop
  | .balance_underflow | .balance_overflow => True
  | _ => False

/-- The errors of the database. -/
def VmError.OfDb : VmError → Prop
  | .StateDbError _ => True
  | _ => False

/-- All panics but those on balances and all errors but those of the database are allowed. -/
structure Lenient (E : Panic → Prop) (F : VmError → Prop) : Prop where
  panic : ∀ {p}, ¬BalancePanic p → E p
  error : ∀ {e : VmError}, ¬e.OfDb → F e

omit [Keccak] in
theorem lenient_any : Lenient (fun _ => True) fun _ => True := ⟨fun _ => trivial, fun _ => trivial⟩

/-- An error, if there is one, is none of the database. -/
def NoDbError {α : Type} (x : Except VmError α) : Prop := ∀ e, x = .error e → ¬e.OfDb

section
omit [Keccak]

theorem noDbError_ok {α : Type} (a : α) : NoDbError (.ok a) := fun _ h => (nomatch h)

theorem noDbError_error {α : Type} {e : VmError} (he : ¬e.OfDb) :
    NoDbError (.error e : Except VmError α) := by
  rintro _ ⟨⟩
  exact he

theorem noDbError_ite {α : Type} {c : Prop} [Decidable c] {x y : Except VmError α}
    (hx : NoDbError x)
    (hy : NoDbError y) : NoDbError (if c then x else y) := by
  split
  · exact hx
  · exact hy

end

section
variable {c : CostType}

section
omit [Keccak]

theorem Cost.from_u256_noDbError (v : U256) :
    NoDbError (Cost.from_u256 v : Except VmError (Cost c)) :=
  noDbError_ite (noDbError_ok _) (noDbError_error id)

theorem Cost.overflowing_noDbError (x : Cost c × Bool) : NoDbError (Cost.overflowing x) :=
  noDbError_ite (noDbError_error id) (noDbError_ok _)

theorem mem_needed_const_noDbError (mem : U256) (add : Nat) :
    NoDbError (mem_needed_const mem add : Except VmError (Cost c)) := by
  unfold mem_needed_const
  split
  · exact Cost.from_u256_noDbError _
  · exact noDbError_error id

theorem mem_needed_noDbError (offset size : U256) :
    NoDbError (mem_needed offset size : Except VmError (Cost c)) := by
  refine noDbError_ite (noDbError_ok _) ?_
  split
  · exact Cost.from_u256_noDbError _
  · exact noDbError_error id

theorem Gasometer.verify_gas_noDbError (m : Gasometer c) (cost : Cost c) :
    NoDbError (m.verify_gas cost) :=
  noDbError_ite (noDbError_error id) (noDbError_ok _)

theorem Gasometer.gas_provided_noDbError (m : Gasometer c) (spec : Spec) (needed : Cost c)
    (requested : Option U256) : NoDbError (m.gas_provided spec needed requested) := by
  have hrequested : ∀ r : Except VmError (Cost c), requested.map Cost.from_u256 = some r →
      NoDbError r := by
    intro r hr
    obtain ⟨v, -, rfl⟩ := Option.map_eq_some_iff.mp hr
    exact Cost.from_u256_noDbError v
  unfold gas_provided
  dsimp only
  split
  · split
    · exact noDbError_ok _
    · exact noDbError_ok _
  · split
    · exact hrequested _ ‹_›
    · exact noDbError_ok _

theorem Interpreter.verify_jump_noDbError (position : U256) (dests : Bits) :
    NoDbError (verify_jump position dests) :=
  noDbError_ite (noDbError_ok _) (noDbError_error id)

end

end

/-! ## Safe steps -/

/-- Every function of the context is safe. -/
structure HostSafe (g : Globals) (ctx : FrameContext) (E : Panic → Prop) (F : VmError → Prop)
    (I : Host State → Prop) : Prop where
  storage_at : ∀ key, Safe E F I (Context.storage_at ctx key)
  set_storage : ∀ key value, Safe E F I (Context.set_storage ctx key value)
  «exists» : ∀ a, Safe E F I (Context.exists a)
  exists_and_not_null : ∀ a, Safe E F I (Context.exists_and_not_null a)
  balance : ∀ a, Safe E F I (Context.balance a)
  create : ∀ gas value code scheme, Safe E F I (Context.create g ctx gas value code scheme)
  extcode : ∀ a, Safe E F I (Context.extcode g a)
  extcodehash : ∀ a, Safe E F I (Context.extcodehash g a)
  extcodesize : ∀ a, Safe E F I (Context.extcodesize g a)
  log : ∀ topics data, Safe E F I (Context.log ctx topics data)
  suicide : ∀ a nonce, Safe E F I (Context.suicide g ctx a nonce)

/-- So is a change of the cache. -/
structure ContextSafe (g : Globals) (ctx : FrameContext) (E : Panic → Prop) (F : VmError → Prop)
    (I : Host State → Prop) : Prop extends HostSafe g ctx E F I where
  shared_cache : ∀ h cache, I h → I { h with shared_cache := cache }

theorem HostKeeps.hostSafe {g : Globals} {ctx : FrameContext} {R : Host State → Host State → Prop}
    [IsPreorder (Host State) R] (h : HostKeeps g ctx R) (h₀ : Host State) :
    HostSafe g ctx (fun _ => True) (fun _ => True) (R h₀) where
  storage_at _ := (h.storage_at _).safe h₀
  set_storage _ _ := (h.set_storage _ _).safe h₀
  «exists» _ := (h.exists _).safe h₀
  exists_and_not_null _ := (h.exists_and_not_null _).safe h₀
  balance _ := (h.balance _).safe h₀
  create _ _ _ _ := (h.create _ _ _ _).safe h₀
  extcode _ := (h.extcode _).safe h₀
  extcodehash _ := (h.extcodehash _).safe h₀
  extcodesize _ := (h.extcodesize _).safe h₀
  log _ _ := (h.log _ _).safe h₀
  suicide _ _ := (h.suicide _ _).safe h₀

theorem ContextKeeps.contextSafe {g : Globals} {ctx : FrameContext}
    {R : Host State → Host State → Prop} [IsPreorder (Host State) R] (h : ContextKeeps g ctx R)
    (h₀ : Host State) : ContextSafe g ctx (fun _ => True) (fun _ => True) (R h₀) :=
  ⟨h.hostSafe h₀, fun _ _ hR => trans_of R hR (h.shared_cache _ _)⟩

section
variable {g : Globals} {ctx : FrameContext} {E : Panic → Prop} {F : VmError → Prop}
  {I : Host State → Prop}

theorem HostSafe.call (h : HostSafe g ctx E F I) (gas : U256) (sender receiver : Address)
    (value : Option U256) (data : Bytes) (code_address : Address) (call_type : CallType) :
    Safe E F I (Context.call g ctx gas sender receiver value data code_address call_type) :=
  .bind (h.extcode _) fun _ => .bind (h.extcodehash _) fun _ => .pure _

section
variable {σ α : Type} {J : σ → Prop} (hl : Lenient E F)
include hl

section
omit [Keccak]

theorem Lenient.expect {p : Panic} {o : Option α} (hp : ¬BalancePanic p) :
    Safe E F J (expect p o : Prog Panic σ VmError α) :=
  .expect (hl.panic hp)

theorem Lenient.ofExcept {x : Except VmError α} (hx : NoDbError x) :
    Safe E F J (ofExcept x : Prog Panic σ VmError α) :=
  .ofExcept fun e he => hl.error (hx e he)

theorem Lenient.from_u256 {c : CostType} (v : U256) :
    Safe E F J (Prog.ofExcept (Cost.from_u256 v) : Prog Panic σ VmError (Cost c)) :=
  hl.ofExcept (Cost.from_u256_noDbError v)

theorem Lenient.overflowing {c : CostType} (x : Cost c × Bool) :
    Safe E F J (Prog.ofExcept (Cost.overflowing x) : Prog Panic σ VmError (Cost c)) :=
  hl.ofExcept (Cost.overflowing_noDbError x)

end

end

omit [Keccak] in
theorem blockhash_lenient (hl : Lenient E F) (number : U256) :
    Safe E F I (Context.blockhash g number) :=
  .bind (hl.expect id) fun _ => .pure _

/-! ## Prices -/

namespace Gasometer

variable {c : CostType}

theorem is_new_account_lenient (h : HostSafe g ctx E F I) (is_value_transfer : Bool) (a : Address) :
    Safe E F I (is_new_account g is_value_transfer a) := by
  unfold is_new_account
  refine .ite (fun _ => ?_) fun _ => .bind (h.exists a) fun _ => .pure _
  exact .ite (fun _ => .bind (h.exists_and_not_null a) fun _ => .pure _) fun _ => .pure _

theorem calls_new_account_lenient (h : HostSafe g ctx E F I) (instruction : Instruction)
    (is_value_transfer : Bool) (a : Address) :
    Safe E F I (calls_new_account g instruction is_value_transfer a) :=
  .ite (fun _ => is_new_account_lenient h _ _) fun _ => .pure _

section
variable (hl : Lenient E F)
include hl

section
omit [Keccak]

theorem add_if_lenient (condition : Bool) (gas : Cost c) (amount : Nat) :
    Safe E F I (add_if condition gas amount) :=
  .ite (fun _ => hl.overflowing _) fun _ => .pure _

theorem peek_lenient (stack : List U256) (n : Nat) : Safe E F I (peek stack n) := hl.expect id

/-- A part of the memory that the stack gives. -/
theorem mem_needed_lenient (stack : List U256) (i j : Nat) {α : Type} {f : Cost c → HostM α}
    (hf : ∀ mem, Safe E F I (f mem)) :
    Safe E F I (peek stack i >>= fun offset => peek stack j >>= fun size =>
      Prog.ofExcept (mem_needed offset size) >>= f) :=
  .bind (peek_lenient hl _ _) fun _ => .bind (peek_lenient hl _ _) fun _ =>
    .bind (hl.ofExcept (mem_needed_noDbError _ _)) hf

theorem mem_needed_const_lenient (stack : List U256) (add : Nat) {α : Type} {f : Cost c → HostM α}
    (hf : ∀ mem, Safe E F I (f mem)) :
    Safe E F I (peek stack 0 >>= fun offset => Prog.ofExcept (mem_needed_const offset add) >>= f) :=
  .bind (peek_lenient hl _ _) fun _ => .bind (hl.ofExcept (mem_needed_const_noDbError _ _)) hf

end

/-- The price of an instruction is found without a change of the host. -/
theorem request_lenient (h : HostSafe g ctx E F I) (instruction : Instruction) (stack : List U256) :
    Safe E F I (request g ctx instruction stack : HostM (Request c)) := by
  unfold request
  cases instruction
  case SSTORE =>
    exact .bind (peek_lenient hl _ _) fun _ => .bind (peek_lenient hl _ _) fun _ =>
      .bind (h.storage_at _) fun _ => .pure _
  case SUICIDE =>
    exact .bind (h.balance _) fun _ => .bind (peek_lenient hl _ _) fun _ =>
      .bind (is_new_account_lenient h _ _) fun _ => .bind (add_if_lenient hl _ _ _) fun _ => .pure _
  case MSTORE | MLOAD | MSTORE8 => exact mem_needed_const_lenient hl _ _ fun _ => .pure _
  case RETURN | REVERT => exact mem_needed_lenient hl _ _ _ fun _ => .pure _
  case SHA3 =>
    exact .bind (peek_lenient hl _ _) fun _ => .bind (hl.from_u256 _) fun _ =>
      .bind (hl.overflowing _) fun _ =>
      .bind (hl.overflowing _) fun _ => .bind (hl.overflowing _) fun _ =>
        mem_needed_lenient hl _ _ _ fun _ => .pure _
  case CALLDATACOPY | CODECOPY | RETURNDATACOPY | EXTCODECOPY =>
    exact mem_needed_lenient hl _ _ _ fun _ => .bind (peek_lenient hl _ _) fun _ =>
      .bind (hl.from_u256 _) fun _ => .pure _
  case LOG =>
    exact .bind (peek_lenient hl _ _) fun _ => .bind (hl.from_u256 _) fun _ =>
      .bind (hl.overflowing _) fun _ =>
      .bind (hl.overflowing _) fun _ => mem_needed_lenient hl _ _ _ fun _ => .pure _
  case CALL | CALLCODE =>
    exact mem_needed_lenient hl _ _ _ fun _ => mem_needed_lenient hl _ _ _ fun _ =>
      .bind (peek_lenient hl _ _) fun _ => .bind (peek_lenient hl _ _) fun _ =>
        .bind (calls_new_account_lenient h _ _ _) fun _ => .bind (add_if_lenient hl _ _ _) fun _ =>
          .bind (add_if_lenient hl _ _ _) fun _ => .bind (peek_lenient hl _ _) fun _ => .pure _
  case DELEGATECALL | STATICCALL =>
    exact mem_needed_lenient hl _ _ _ fun _ => mem_needed_lenient hl _ _ _ fun _ =>
      .bind (peek_lenient hl _ _) fun _ => .pure _
  case CREATE | CREATE2 =>
    exact .bind (peek_lenient hl _ _) fun _ => .bind (peek_lenient hl _ _) fun _ =>
      .bind (hl.from_u256 _) fun _ =>
      .bind (hl.overflowing _) fun _ => .bind (hl.overflowing _) fun _ =>
      .bind (hl.overflowing _) fun _ =>
        .bind (hl.ofExcept (mem_needed_noDbError _ _)) fun _ => .pure _
  case EXP => exact .bind (peek_lenient hl _ _) fun _ => .pure _
  -- the other prices are fixed
  all_goals exact .pure _

section
omit [Keccak]

theorem growth_cost_lenient (m : Gasometer c) (spec : Spec) (size : Nat) (mem_size : Cost c) :
    Safe E F I (m.growth_cost spec size mem_size) := by
  refine .ite (fun _ => .bind ?_ fun _ => .bind (hl.expect id) fun _ => .pure _) fun _ => .pure _
  exact .bind (hl.overflowing _) fun _ => .bind (.assert (hl.panic id)) fun _ =>
    .bind (hl.overflowing _) fun _ => hl.overflowing _

theorem mem_gas_cost_lenient (m : Gasometer c) (spec : Spec) (size : Nat) (mem_size : Cost c) :
    Safe E F I (m.mem_gas_cost spec size mem_size) :=
  .bind (hl.overflowing _) fun _ => .bind (growth_cost_lenient hl _ _ _ _) fun _ =>
    .bind (hl.expect id) fun _ => .pure _

theorem with_mem_lenient (m : Gasometer c) (spec : Spec) (size : Nat) (gas mem_size : Cost c) :
    Safe E F I (m.with_mem spec size gas mem_size) :=
  .bind (mem_gas_cost_lenient hl m spec size mem_size) fun _ =>
  .bind (hl.overflowing _) fun _ => .pure _

end

theorem requirements_lenient (h : HostSafe g ctx E F I) (m : Gasometer c)
    (instruction : Instruction) (stack : List U256) (size : Nat) :
    Safe E F I (m.requirements g ctx instruction stack size) := by
  refine .bind (request_lenient hl h instruction stack) fun request => ?_
  cases request with
  | Gas gas => exact .pure _
  | GasMem gas mem_size => exact with_mem_lenient hl _ _ _ _ _
  | GasMemProvide gas mem_size requested =>
    exact .bind (with_mem_lenient hl _ _ _ _ _) fun _ =>
      .bind (hl.ofExcept (gas_provided_noDbError _ _ _ _)) fun _ =>
      .bind (hl.overflowing _) fun _ => .pure _
  | GasMemCopy gas mem_size copy =>
    exact .bind (mem_gas_cost_lenient hl _ _ _ _) fun _ => .bind (hl.overflowing _) fun _ =>
      .bind (hl.overflowing _) fun _ => .bind (hl.overflowing _) fun _ =>
      .bind (hl.overflowing _) fun _ => .pure _

end

end Gasometer

/-! ## Instructions -/

/-- A program over the local part alone is safe if its panics and errors are allowed. -/
abbrev LocalSafe (E : Panic → Prop) (F : VmError → Prop) {α : Type} (x : LocalM α) : Prop :=
  Safe E F (fun _ => True) x

namespace Local

variable (hl : Lenient E F)
include hl
omit [Keccak]

theorem pop_back_lenient : LocalSafe E F pop_back := by
  refine .bind (.gets _) fun stack => ?_
  cases stack with
  | nil => exact .abort (hl.panic id)
  | cons top rest => exact .bind (.update fun _ => id) fun _ => .pure _

omit hl in
theorem push_lenient (elem : U256) : LocalSafe E F (push elem) := .update fun _ => id

theorem peek_lenient (n : Nat) : LocalSafe E F (peek n) := .bind (.gets _) fun _ => hl.expect id

theorem swap_with_top_lenient (n : Nat) : LocalSafe E F (swap_with_top n) :=
  .bind (peek_lenient hl _) fun _ => .bind (peek_lenient hl _) fun _ => .update fun _ => id

theorem pop_n_lenient (n : Nat) : LocalSafe E F (pop_n n) := by
  induction n with
  | zero => exact .pure _
  | succ n ih => exact .bind (pop_back_lenient hl) fun _ => .bind ih fun _ => .pure _

theorem set_mem_lenient (mem : Option Bytes) : LocalSafe E F (set_mem mem) :=
  .bind (hl.expect id) fun _ => .update fun _ => id

theorem read_slice_lenient (offset size : U256) : LocalSafe E F (read_slice offset size) :=
  .bind (.gets _) fun _ => hl.expect id

theorem return_bytes_lenient : LocalSafe E F return_bytes := .bind (.gets _) fun _ => hl.expect id

theorem read_lenient (code : Bytes) (n : Nat) : LocalSafe E F (read code n) :=
  .bind (.gets _) fun _ => .bind (.update fun _ => id) fun _ =>
    .bind (.assert (hl.panic id)) fun _ => .pure _

theorem copy_data_to_memory_lenient (source : Bytes) :
    LocalSafe E F (copy_data_to_memory source) := by
  -- the copy that follows the zero fill, if there is one
  have hcopy : ∀ (dest source_offset : U256) (last : Nat), LocalSafe E F
      (Prog.when (source_offset.toNat < source.length) do
        let bytes ← Prog.expect .memory_out_of_range
          (Memory.slice source source_offset.low_u64 (last - source_offset.low_u64))
        set_mem (Memory.write_slice (← Prog.gets mem) dest bytes)) :=
    fun _ _ _ => .when fun _ => .bind (hl.expect id) fun _ => .bind (.gets _) fun _ =>
      set_mem_lenient hl _
  have hfill : ∀ (dest source_offset zero_offset zero_size : U256), LocalSafe E F
      (fill_and_copy source dest source_offset zero_offset zero_size) :=
    fun _ _ _ _ => .bind (.gets _) fun _ => .bind (hl.expect id) fun _ => .bind (.gets _) fun _ =>
      .bind (set_mem_lenient hl _) fun _ => .bind (.pure _) fun _ => hcopy _ _ _
  refine .bind (pop_back_lenient hl) fun _ => .bind (pop_back_lenient hl) fun _ =>
    .bind (pop_back_lenient hl) fun _ => ?_
  refine .ite (fun _ => .ite (fun _ => ?_) fun _ => ?_) fun _ => ?_
  · exact hfill _ _ _ _
  · exact .bind (hl.expect id) fun _ => .bind (hl.expect id) fun _ => .bind (hl.expect id) fun _ =>
      .bind (hl.expect id) fun _ => hfill _ _ _ _
  · exact hcopy _ _ _

end Local

namespace Interpreter

variable {c : CostType}

section
omit [Keccak]

theorem onLocal_lenient {α : Type} {x : LocalM α} (h : LocalSafe E F x) :
    Safe E F (fun p => I p.2) (onLocal x) :=
  .zoom h (fun _ _ => trivial) fun _ _ hp _ => hp

theorem onHost_lenient {α : Type} {x : HostM α} (h : Safe E F I x) :
    Safe E F (fun p => I p.2) (onHost x) :=
  .zoom h (fun _ hp => hp) fun _ _ _ hh => hh

theorem plain_lenient {x : LocalM Unit} (h : LocalSafe E F x) :
    Safe E F (fun p => I p.2) (plain x : ExecM (InstructionResult c)) :=
  .bind (onLocal_lenient h) fun _ => .pure _

end

section
variable (hl : Lenient E F)
include hl

section
omit [Keccak]

theorem pop_lenient : Safe E F (fun p => I p.2) (onLocal Local.pop_back) :=
  onLocal_lenient (Local.pop_back_lenient hl)

omit hl in
theorem push_lenient (value : U256) : Safe E F (fun p => I p.2) (onLocal (Local.push value)) :=
  onLocal_lenient (Local.push_lenient value)

theorem slice_lenient (offset size : U256) :
    Safe E F (fun p => I p.2) (onLocal (Local.read_slice offset size)) :=
  onLocal_lenient (Local.read_slice_lenient hl offset size)

omit hl in
theorem set_local_lenient (f : Local → Local) :
    Safe E F (fun p => I p.2) (onLocal (Prog.update f)) :=
  onLocal_lenient (.update fun _ => id)

theorem query_lenient {α : Type} {read : Address → HostM α} (hread : ∀ a, Safe E F I (read a))
    (f : α → U256) : Safe E F (fun p => I p.2) (query read f : ExecM (InstructionResult c)) :=
  .bind (pop_lenient hl) fun _ => .bind (onHost_lenient (hread _)) fun _ =>
    .bind (push_lenient _) fun _ => .pure _

omit hl in
theorem constant_lenient (value : U256) :
    Safe E F (fun p => I p.2) (constant value : ExecM (InstructionResult c)) :=
  plain_lenient (Local.push_lenient value)

theorem binary_lenient (f : U256 → U256 → U256) :
    Safe E F (fun p => I p.2) (binary f : ExecM (InstructionResult c)) :=
  plain_lenient (.bind (Local.pop_back_lenient hl) fun _ =>
    .bind (Local.pop_back_lenient hl) fun _ =>
    Local.push_lenient _)

theorem ternary_lenient (f : U256 → U256 → U256 → Option U256) :
    Safe E F (fun p => I p.2) (plain (do
      let a ← Local.pop_back
      let b ← Local.pop_back
      let c ← Local.pop_back
      Local.push (← Prog.expect .word_overflow (f a b c))) : ExecM (InstructionResult c)) :=
  plain_lenient (.bind (Local.pop_back_lenient hl) fun _ =>
    .bind (Local.pop_back_lenient hl) fun _ =>
    .bind (Local.pop_back_lenient hl) fun _ => .bind (hl.expect id) fun _ => Local.push_lenient _)

end

theorem exec_create_lenient (h : HostSafe g ctx E F I) (params : InterpreterParams)
    (instruction : Instruction) (provided : Option (Cost c)) :
    Safe E F (fun p => I p.2) (exec_create g ctx params instruction provided) := by
  have hscheme : LocalSafe E F (pop_address_scheme instruction) :=
    .ite (fun _ => .bind (Local.pop_back_lenient hl) fun _ => .pure _) fun _ => .pure _
  refine .bind (pop_lenient hl) fun endowment => .bind (pop_lenient hl) fun init_off =>
    .bind (pop_lenient hl) fun init_size => .bind (onLocal_lenient hscheme) fun scheme =>
    .bind (hl.expect id) fun gas => .ite (fun _ => .fail (hl.error id)) fun _ => ?_
  refine .bind (set_local_lenient _) fun _ => .bind (onHost_lenient (h.balance _)) fun balance => ?_
  refine .ite (fun _ => ?_) fun _ => .bind (push_lenient _) fun _ => .pure _
  exact .bind (slice_lenient hl _ _) fun _ => .bind (onHost_lenient (h.create _ _ _ _))
    fun _ => .pure _

theorem call_target_lenient (h : HostSafe g ctx E F I) (params : InterpreterParams)
    (instruction : Instruction) (code_address : Address) (value : Option U256) :
    Safe E F I (call_target ctx params instruction code_address value) := by
  unfold call_target
  split
  · exact .ite (fun _ => .fail (hl.error id)) fun _ => .bind (h.balance _) fun _ => .pure _
  · exact .bind (h.balance _) fun _ => .pure _
  · exact .pure _
  · exact .pure _

theorem exec_call_lenient (h : HostSafe g ctx E F I) (params : InterpreterParams)
    (instruction : Instruction) (provided : Option (Cost c)) :
    Safe E F (fun p => I p.2) (exec_call g ctx params instruction provided) := by
  have hvalue : LocalSafe E F (call_value instruction) :=
    .ite (fun _ => .pure _) fun _ => .ite (fun _ => .pure _) fun _ =>
      .bind (Local.pop_back_lenient hl) fun _ => .pure _
  refine .bind (.assert (hl.panic id)) fun _ => .bind (pop_lenient hl) fun _ =>
    .bind (hl.expect id) fun _ => .bind (pop_lenient hl) fun _ =>
    .bind (onLocal_lenient hvalue) fun _ =>
    .bind (pop_lenient hl) fun _ => .bind (pop_lenient hl) fun _ => .bind (pop_lenient hl) fun _ =>
    .bind (pop_lenient hl) fun _ => .bind (hl.expect id) fun _ =>
    .bind (onHost_lenient (call_target_lenient hl h _ _ _ _)) fun _ =>
    .bind (set_local_lenient _) fun _ => ?_
  refine .ite (fun _ => ?_) fun _ => .bind (push_lenient _) fun _ => .pure _
  exact .bind (slice_lenient hl _ _) fun _ => .bind (onHost_lenient (h.call _ _ _ _ _ _ _)) fun _ =>
    .bind (set_local_lenient _) fun _ => .pure _

theorem exec_instruction_lenient (h : HostSafe g ctx E F I) (params : InterpreterParams)
    (code : Bytes) (gas : Cost c) (instruction : Instruction) (provided : Option (Cost c)) :
    Safe E F (fun p => I p.2) (exec_instruction g ctx params code gas instruction provided) := by
  cases instruction
  case JUMP => exact .bind (pop_lenient hl) fun _ => .pure _
  case JUMPI => exact .bind (pop_lenient hl) fun _ => .bind (pop_lenient hl) fun _ => .pure _
  case JUMPDEST => exact .pure _
  case BEGINSUB => exact .fail (hl.error id)
  case JUMPSUB =>
    exact .bind (.gets _) fun _ => .ite (fun _ => .fail (hl.error id)) fun _ =>
      .bind (pop_lenient hl) fun _ => .pure _
  case RETURNSUB =>
    refine .bind (.gets _) fun stack => ?_
    cases stack with
    | nil => exact .fail (hl.error id)
    | cons pos rest => exact .bind (set_local_lenient _) fun _ => .pure _
  case CREATE => exact exec_create_lenient hl h _ _ _
  case CREATE2 => exact exec_create_lenient hl h _ _ _
  case CALL => exact exec_call_lenient hl h _ _ _
  case CALLCODE => exact exec_call_lenient hl h _ _ _
  case DELEGATECALL => exact exec_call_lenient hl h _ _ _
  case STATICCALL => exact exec_call_lenient hl h _ _ _
  case RETURN => exact .bind (pop_lenient hl) fun _ => .bind (pop_lenient hl) fun _ => .pure _
  case REVERT => exact .bind (pop_lenient hl) fun _ => .bind (pop_lenient hl) fun _ => .pure _
  case STOP => exact .pure _
  case SUICIDE =>
    exact .bind (pop_lenient hl) fun _ => .bind (onHost_lenient (h.suicide _ _)) fun _ => .pure _
  case LOG =>
    exact .bind (pop_lenient hl) fun _ => .bind (pop_lenient hl) fun _ =>
      .bind (onLocal_lenient (Local.pop_n_lenient hl _)) fun _ =>
      .bind (slice_lenient hl _ _) fun _ =>
      .bind (onHost_lenient (h.log _ _)) fun _ => .pure _
  case SLOAD =>
    exact .bind (pop_lenient hl) fun _ => .bind (onHost_lenient (h.storage_at _)) fun _ =>
      .bind (push_lenient _) fun _ => .pure _
  case SSTORE =>
    exact .bind (pop_lenient hl) fun _ => .bind (pop_lenient hl) fun _ =>
      .bind (onHost_lenient (h.set_storage _ _)) fun _ => .pure _
  case BALANCE => exact query_lenient hl h.balance _
  case EXTCODESIZE => exact query_lenient hl h.extcodesize _
  case EXTCODEHASH => exact query_lenient hl h.extcodehash _
  case EXTCODECOPY =>
    exact .bind (pop_lenient hl) fun _ => .bind (onHost_lenient (h.extcode _)) fun _ =>
      .bind (onLocal_lenient (Local.copy_data_to_memory_lenient hl _)) fun _ => .pure _
  case BLOCKHASH =>
    exact .bind (pop_lenient hl) fun _ => .bind (onHost_lenient (blockhash_lenient hl _)) fun _ =>
      .bind (push_lenient _) fun _ => .pure _
  case SELFBALANCE =>
    exact .bind (onHost_lenient (h.balance _)) fun _ => .bind (push_lenient _) fun _ => .pure _
  case RETURNDATACOPY =>
    exact plain_lenient (.bind (Local.peek_lenient hl _) fun _ =>
      .bind (Local.peek_lenient hl _) fun _ =>
      .bind (Local.return_bytes_lenient hl) fun _ => .ite (fun _ => .fail (hl.error id)) fun _ =>
      Local.copy_data_to_memory_lenient hl _)
  case SIGNEXTEND =>
    exact plain_lenient (.bind (Local.pop_back_lenient hl) fun _ => .when fun _ =>
      .bind (Local.pop_back_lenient hl) fun _ => Local.push_lenient _)
  case PUSH => exact plain_lenient (.bind (Local.read_lenient hl _ _) fun _ => Local.push_lenient _)
  case MLOAD =>
    exact plain_lenient (.bind (Local.pop_back_lenient hl) fun _ => .bind (.gets _) fun _ =>
      .bind (hl.expect id) fun _ => Local.push_lenient _)
  case MSTORE =>
    exact plain_lenient (.bind (Local.pop_back_lenient hl) fun _ =>
      .bind (Local.pop_back_lenient hl) fun _ =>
      .bind (.gets _) fun _ => Local.set_mem_lenient hl _)
  case MSTORE8 =>
    exact plain_lenient (.bind (Local.pop_back_lenient hl) fun _ =>
      .bind (Local.pop_back_lenient hl) fun _ =>
      .bind (.gets _) fun _ => Local.set_mem_lenient hl _)
  case MSIZE => exact plain_lenient (.bind (.gets _) fun _ => Local.push_lenient _)
  case SHA3 =>
    exact plain_lenient (.bind (Local.pop_back_lenient hl) fun _ =>
      .bind (Local.pop_back_lenient hl) fun _ =>
      .bind (Local.read_slice_lenient hl _ _) fun _ => Local.push_lenient _)
  case PC => exact plain_lenient (.bind (.gets _) fun _ => Local.push_lenient _)
  case CALLDATALOAD =>
    exact plain_lenient (.bind (Local.pop_back_lenient hl) fun _ => Local.push_lenient _)
  case RETURNDATASIZE =>
    exact plain_lenient (.bind (Local.return_bytes_lenient hl) fun _ => Local.push_lenient _)
  case CALLDATACOPY => exact plain_lenient (Local.copy_data_to_memory_lenient hl _)
  case CODECOPY => exact plain_lenient (Local.copy_data_to_memory_lenient hl _)
  case DUP => exact plain_lenient (.bind (Local.peek_lenient hl _) fun _ => Local.push_lenient _)
  case SWAP => exact plain_lenient (Local.swap_with_top_lenient hl _)
  case POP => exact plain_lenient (.bind (Local.pop_back_lenient hl) fun _ => .pure _)
  case NOT => exact plain_lenient (.bind (Local.pop_back_lenient hl) fun _ => Local.push_lenient _)
  case ISZERO =>
    exact plain_lenient (.bind (Local.pop_back_lenient hl) fun _ => Local.push_lenient _)
  case ADDMOD => exact ternary_lenient hl _
  case MULMOD => exact ternary_lenient hl _
  all_goals
    first
    | exact constant_lenient _
    | exact binary_lenient hl _

/-! ## Steps -/

section
omit [Keccak] hl

theorem onExec_lenient {α : Type} {x : ExecM α} (h : Safe E F (fun p => I p.2) x) :
    Safe E F (fun p => I p.2) (onExec x : StepM c α) :=
  .zoom h (fun _ hp => hp) fun _ _ _ hq => hq

theorem onStepHost_lenient {α : Type} {x : HostM α} (h : Safe E F I x) :
    Safe E F (fun p => I p.2) (onStepHost x : StepM c α) :=
  .zoom h (fun _ hp => hp) fun _ _ _ hh => hh

theorem modify_lenient (f : Interpreter c → Interpreter c) :
    Safe E F (fun p => I p.2) (modify f) :=
  .update fun _ hp => hp

end

omit [Keccak] in
theorem get_gasometer_lenient : Safe E F (fun p => I p.2) (get_gasometer : StepM c _) :=
  .bind (.gets _) fun _ => hl.expect id

omit [Keccak] in
theorem verify_instruction_lenient (spec : Spec) (size : Nat) (info : InstructionInfo) :
    Safe E F (fun p => I p.2) (verify_instruction spec size info : StepM c Unit) :=
  .ite (fun _ => .fail (hl.error id)) fun _ =>
    .ite (fun _ => .bind (.assert (hl.panic id)) fun _ => .fail (hl.error id)) fun _ => .pure _

theorem exec_next_lenient (h : HostSafe g ctx E F I) :
    Safe E F (fun p => I p.2) (exec_next g ctx : StepM c _) := by
  refine .bind (.gets _) fun self => .bind (hl.expect id) fun opcode =>
    .bind (modify_lenient _) fun _ => ?_
  cases Instruction.from_u8 opcode with
  | none => exact .fail (hl.error id)
  | some instruction =>
    exact .bind (verify_instruction_lenient hl _ _ _) fun _ =>
      .bind (get_gasometer_lenient hl) fun _ =>
      .bind (onStepHost_lenient (Gasometer.requirements_lenient hl h _ _ _ _)) fun _ =>
      .bind (hl.ofExcept (Gasometer.verify_gas_noDbError _ _)) fun _ =>
      .bind (hl.expect id) fun _ => .bind (modify_lenient _) fun _ =>
      onExec_lenient (exec_instruction_lenient hl h _ _ _ _ _)

omit hl in
theorem jump_destinations_lenient (h : ContextSafe g ctx E F I) :
    Safe E F (fun p => I p.2) (jump_destinations : StepM c Bits) := by
  refine .bind (.gets _) fun dests => ?_
  cases dests with
  | some dests => exact .pure _
  | none =>
    exact .bind (.gets _) fun _ => .bind (.update fun _ hp => h.shared_cache _ _ hp)
      fun _ => .pure _

omit hl in
theorem subroutine_destinations_lenient (h : ContextSafe g ctx E F I) :
    Safe E F (fun p => I p.2) (subroutine_destinations : StepM c Bits) := by
  refine .bind (.gets _) fun dests => ?_
  cases dests with
  | some dests => exact .pure _
  | none =>
    exact .bind (.gets _) fun _ => .bind (.update fun _ hp => h.shared_cache _ _ hp)
      fun _ => .pure _

omit [Keccak] in
theorem known_gas_lenient : Safe E F (fun p => I p.2) (known_gas : StepM c _) :=
  .bind (get_gasometer_lenient hl) fun _ => .pure _

omit [Keccak] in
theorem check_end_lenient : Safe E F (fun p => I p.2) (check_end : StepM c _) :=
  .bind (.gets _) fun _ => .ite (fun _ => known_gas_lenient hl) fun _ => .pure _

theorem advance_lenient (h : ContextSafe g ctx E F I) (result : InstructionResult c) :
    Safe E F (fun p => I p.2) (advance result) := by
  have hend : Safe E F (fun p => I p.2) (check_end : StepM c _) := check_end_lenient hl
  cases result with
  | Ok => exact hend
  | UnusedGas gas =>
    exact .bind (get_gasometer_lenient hl) fun _ => .bind (hl.expect id) fun _ =>
      .bind (modify_lenient _) fun _ => hend
  | JumpToPosition position =>
    exact .bind (jump_destinations_lenient h) fun _ =>
      .bind (hl.ofExcept (verify_jump_noDbError _ _)) fun _ =>
      .bind (modify_lenient _) fun _ => hend
  | JumpToSubroutine position =>
    exact .bind (subroutine_destinations_lenient h) fun _ =>
      .bind (hl.ofExcept (verify_jump_noDbError _ _)) fun _ =>
      .bind (modify_lenient _) fun _ => hend
  | ReturnFromSubroutine pos => exact .bind (modify_lenient _) fun _ => hend
  | StopExecutionNeedsReturn gas init_off init_size apply =>
    exact .bind (.gets _) fun _ => .bind (modify_lenient _) fun _ => .bind (hl.expect id) fun _ =>
      .pure _
  | StopExecution => exact known_gas_lenient hl
  | Trap trap => exact .pure _

theorem next_result_lenient (h : ContextSafe g ctx E F I) :
    Safe E F (fun p => I p.2) (next_result g ctx : StepM c _) := by
  refine .bind (.gets _) fun resume_result => ?_
  cases resume_result with
  | some result => exact .bind (modify_lenient _) fun _ => .pure _
  | none => exact exec_next_lenient hl h.toHostSafe

theorem step_inner_lenient (h : ContextSafe g ctx E F I) :
    Safe E F (fun p => I p.2) (step_inner g ctx : StepM c _) :=
  .bind (next_result_lenient hl h) fun _ => advance_lenient hl h _

omit [Keccak] hl in
theorem mark_done_lenient (result : InterpreterResult) :
    Safe E F (fun p => I p.2) (mark_done result : StepM c _) := by
  cases result with
  | Done r => exact .bind (modify_lenient _) fun _ => .pure _
  | Stopped => exact .pure _
  | Continue => exact .pure _
  | Trap trap => exact .pure _

/-- Where the functions of the context are safe, a step of the interpreter is. -/
theorem step_lenient (h : ContextSafe g ctx E F I) :
    Safe E F (fun p => I p.2) (step g ctx : StepM c _) := by
  refine .bind (.gets _) fun self => .ite (fun _ => .pure _) fun _ => ?_
  cases self.gasometer with
  | none => exact mark_done_lenient _
  | some gasometer =>
    refine .ite (fun _ => mark_done_lenient _) fun _ => .bind (.result (step_inner_lenient hl h)) ?_
    rintro (e | result)
    · exact mark_done_lenient _
    · exact mark_done_lenient _

end

end Interpreter

/-! ## Relations that the context keeps -/

end

section
variable {g : Globals} {ctx : FrameContext} {R : Host State → Host State → Prop}
  [IsPreorder (Host State) R] {c : CostType}

theorem Gasometer.requirements_keeps (h : HostKeeps g ctx R) (m : Gasometer c)
    (instruction : Instruction) (stack : List U256) (size : Nat) :
    Keeps R (m.requirements g ctx instruction stack size) :=
  .of_safe fun h₀ => requirements_lenient lenient_any (h.hostSafe h₀) m instruction stack size

namespace Interpreter

/-- The relation on what an instruction works on: the local part is free. -/
instance : IsPreorder (Local × Host State) fun p q => R p.2 q.2 where
  refl p := refl_of R p.2
  trans _ _ _ h h' := trans_of R h h'

instance : IsPreorder (Interpreter c × Host State) fun p q => R p.2 q.2 where
  refl p := refl_of R p.2
  trans _ _ _ h h' := trans_of R h h'

theorem exec_instruction_keeps (h : HostKeeps g ctx R) (params : InterpreterParams)
    (code : Bytes) (gas : Cost c) (instruction : Instruction) (provided : Option (Cost c)) :
    Keeps (fun p q => R p.2 q.2) (exec_instruction g ctx params code gas instruction provided) :=
  .of_safe fun p => exec_instruction_lenient lenient_any (h.hostSafe p.2) params code
    gas instruction
    provided

/-- What the functions of the context keep is kept by a step of the interpreter. -/
theorem step_keeps (h : ContextKeeps g ctx R) :
    Keeps (fun p q => R p.2 q.2) (step g ctx : StepM c _) :=
  .of_safe fun p => step_lenient lenient_any (h.contextSafe p.2)

end Interpreter

end

end CfxEvm
