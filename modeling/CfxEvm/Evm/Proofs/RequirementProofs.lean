import CfxEvm.Evm.Proofs.GasProofs
import CfxEvm.Evm.Proofs.MemoryProofs

/-!
# Proofs: the requirements of an instruction

The requirements of an instruction are found without a panic, as long as the host answers what it is
asked. They cover the memory that the instruction is going to use, and the gas of the memory is what
has been paid for its size.
-/

open Lib Lib.Prog

namespace CfxEvm

/-! ## Prices -/

/-- The gas for a memory of `n` bytes. -/
def memGas (spec : Spec) (n : Nat) : Nat := n / 32 * spec.memory_gas + n / 32 * (n / 32) / 512

theorem memGas_mono (spec : Spec) {n n' : Nat} (h : n ≤ n') : memGas spec n ≤ memGas spec n' := by
  have hdiv : n / 32 ≤ n' / 32 := Nat.div_le_div_right h
  exact Nat.add_le_add (Nat.mul_le_mul_right _ hdiv)
    (Nat.div_le_div_right (Nat.mul_le_mul hdiv hdiv))

/-- The memory that a request asks for. -/
def Request.mem {c : CostType} : Request c → Nat
  | Gas _ => 0
  | GasMem _ mem_size => mem_size.toNat
  | GasMemProvide _ mem_size _ => mem_size.toNat
  | GasMemCopy _ mem_size _ => mem_size.toNat

/-- The ranges of the memory that an instruction uses. -/
def ranges (instruction : Instruction) (stack : List U256) : List (U256 × U256) :=
  match instruction with
  | .MLOAD | .MSTORE => [(stack.getD 0 0, 32)]
  | .MSTORE8 => [(stack.getD 0 0, 1)]
  | .RETURN | .REVERT | .SHA3 | .LOG _ => [(stack.getD 0 0, stack.getD 1 0)]
  | .CALLDATACOPY | .CODECOPY | .RETURNDATACOPY => [(stack.getD 0 0, stack.getD 2 0)]
  | .EXTCODECOPY => [(stack.getD 1 0, stack.getD 3 0)]
  | .CREATE | .CREATE2 => [(stack.getD 1 0, stack.getD 2 0)]
  | .CALL | .CALLCODE => [(stack.getD 3 0, stack.getD 4 0), (stack.getD 5 0, stack.getD 6 0)]
  | .DELEGATECALL | .STATICCALL =>
    [(stack.getD 2 0, stack.getD 3 0), (stack.getD 4 0, stack.getD 5 0)]
  | _ => []

/-- The instructions that pass gas on. -/
def provides : Instruction → Bool
  | .CALL | .CALLCODE | .DELEGATECALL | .STATICCALL | .CREATE | .CREATE2 => true
  | _ => false

section
variable {c : CostType}

theorem fitsIn_of_mem_needed {offset size : U256} {mem : Cost c}
    (h : mem_needed offset size = .ok mem) : FitsIn mem.toNat (offset, size) := by
  unfold mem_needed at h
  split at h
  · rename_i hzero
    have : size = 0 := by simpa [U256.is_zero] using hzero
    exact .inl (by rw [this]; rfl)
  · rcases hsum : U256.checked_add offset size with _ | needed <;> rw [hsum] at h
    · cases h
    · refine .inr ?_
      rw [Cost.toNat_of_from_u256 h, U256.checked_add_eq_some.mp hsum]

theorem fitsIn_of_mem_needed_const {offset : U256} {add : Nat} {mem : Cost c}
    (h : mem_needed_const offset add = .ok mem) :
    FitsIn mem.toNat (offset, BitVec.ofNat 256 add) := by
  unfold mem_needed_const at h
  rcases hsum : U256.checked_add offset (BitVec.ofNat 256 add) with _ | needed <;> rw [hsum] at h
  · cases h
  · refine .inr ?_
    rw [Cost.toNat_of_from_u256 h, U256.checked_add_eq_some.mp hsum]

theorem FitsIn.mono {n n' : Nat} {range : U256 × U256} (h : FitsIn n range) (hle : n ≤ n') :
    FitsIn n' range := h.imp id fun h => h.trans hle

end

/-! ## The host -/

variable [Keccak] {g : Globals} {ctx : FrameContext}

/-- The host answers what an interpreter with the instruction asks, from hosts with `I`: the queries
    lead to such hosts again, and nothing is asked after an effect. -/
structure Answers (g : Globals) (ctx : FrameContext) (instruction : Option Instruction)
    (stack : List U256) (I : Host State → Prop) : Prop where
  storage_at : ∀ key h, I h → wp (Context.storage_at ctx key) (fun _ => False) (fun _ => I) h
  «exists» : ∀ a h, I h → wp (Context.exists a) (fun _ => False) (fun _ => I) h
  exists_and_not_null : ∀ a h, I h →
    wp (Context.exists_and_not_null a) (fun _ => False) (fun _ => I) h
  balance : ∀ a h, I h → wp (Context.balance a) (fun _ => False) (fun _ => I) h
  extcode : ∀ a h, I h → wp (Context.extcode g a) (fun _ => False)
    (fun r h' => I h' ∧ ∀ code, r = .ok (some code) → code.length < 2 ^ 64) h
  extcodehash : ∀ a h, I h → wp (Context.extcodehash g a) (fun _ => False) (fun _ => I) h
  extcodesize : ∀ a h, I h → wp (Context.extcodesize g a) (fun _ => False) (fun _ => I) h
  blockhash : instruction = some .BLOCKHASH → ∀ number h, stack.head? = some number → I h →
    wp (Context.blockhash g number) (fun _ => False) (fun _ _ => True) h
  set_storage : instruction = some .SSTORE → ∀ key value h, I h →
    wp (Context.set_storage ctx key value) (fun _ => False) (fun _ _ => True) h
  log : ∀ topics data h, I h →
    wp (Context.log ctx topics data) (fun _ => False) (fun _ _ => True) h
  suicide : instruction = some .SUICIDE → ∀ a nonce h, I h →
    wp (Context.suicide g ctx a nonce) (fun _ => False) (fun _ _ => True) h
  create : instruction = some .CREATE ∨ instruction = some .CREATE2 → ∀ gas value code scheme h,
    I h → wp (Context.create g ctx gas value code scheme) (fun _ => False) (fun _ _ => True) h

/-! ## The gasometer -/

namespace Gasometer

section
variable {c : CostType} {E : Panic → Prop} {h : Host State}

section
omit [Keccak]

theorem wp_peek {stack : List U256} {n : Nat} {Q : Except VmError U256 → Host State → Prop}
    (hn : n < stack.length) (hq : Q (.ok (stack.getD n 0)) h) : wp (peek stack n) E Q h := by
  have hget : stack[n]? = some (stack.getD n 0) := by
    rw [List.getD_eq_getElem?_getD, List.getElem?_eq_getElem hn, Option.getD_some]
  rw [peek, hget]
  exact hq

/-- The value of a computation, or its error. -/
theorem wp_ofExcept_bind {α β : Type} {x : Except VmError α} {f : α → HostM β}
    {Q : Except VmError β → Host State → Prop} (herr : ∀ e, Q (.error e) h)
    (hok : ∀ a, x = .ok a → wp (f a) E Q h) : wp (Prog.ofExcept x >>= f) E Q h := by
  refine wp_bind.mpr (wp_ofExcept.mpr ?_)
  cases x with
  | error e => exact herr e
  | ok a => exact hok a rfl

theorem toNat_of_overflow_mul_shr {x y z : Cost c} {k : Nat}
    (hmul : Cost.overflowing (Cost.overflow_mul_shr x y k) = .ok z) :
    z.toNat = x.toNat * y.toNat / 2 ^ k := by
  unfold Cost.overflowing Cost.overflow_mul_shr at hmul
  split at hmul
  · cases hmul
  · rename_i hlt
    have hlt' : x.toNat * y.toNat < 2 ^ c.bits := by simpa using hlt
    rw [← Except.ok.inj hmul, BitVec.toNat_ofNat,
      Nat.mod_eq_of_lt ((Nat.div_le_self _ _).trans_lt hlt')]

theorem gas_for_mem_safe {spec : Spec} (hspec : spec.GenesisConstants) (mem_size : Cost c)
    (h : Host State) : wp (gas_for_mem spec mem_size) E (fun r h' => h' = h ∧ ∀ gas, r = .ok gas →
      gas.toNat = memGas spec mem_size.toNat) h := by
  have hquad : spec.quad_coeff_div = 512 := congrArg Spec.quad_coeff_div hspec
  have hmem : spec.memory_gas = 3 := congrArg Spec.memory_gas hspec
  refine wp_ofExcept_bind (fun _ => ⟨rfl, fun _ h => (nomatch h)⟩) fun a ha => ?_
  refine wp_bind.mpr (wp_assert (fun hfalse => ?_) fun _ => ?_)
  · rw [hquad] at hfalse
    cases hfalse
  refine wp_ofExcept_bind (fun _ => ⟨rfl, fun _ h => (nomatch h)⟩) fun b hb => ?_
  refine wp_ofExcept.mpr ⟨rfl, fun gas hgas => ?_⟩
  have hshift : (mem_size >>> 5).toNat = mem_size.toNat / 32 := by
    rw [BitVec.toNat_ushiftRight, Nat.shiftRight_eq_div_pow]
  rw [Cost.toNat_of_overflow_add hgas, Cost.toNat_of_overflow_mul ha, toNat_of_overflow_mul_shr hb,
    Cost.toNat_from (by omega), hshift]
  rfl

end

end

section
variable {spec : Spec} {m : Gasometer .usize} {size : Nat}

/-- The memory of a gasometer: its size is a number of words, and its gas has been paid. -/
structure Paid (spec : Spec) (m : Gasometer .usize) (size : Nat) : Prop where
  words : size % 32 = 0
  small : size < 2 ^ 64
  gas : m.current_mem_gas.toNat = memGas spec size

/-- What the new size of the memory is good for. -/
structure Grown (spec : Spec) (size needed : Nat) (mem_gas : Cost .usize) (new_size : Nat) :
    Prop where
  words : new_size % 32 = 0
  small : new_size < 2 ^ 64
  enough : needed ≤ new_size
  gas : mem_gas.toNat = memGas spec (max size new_size)

section
omit [Keccak]

theorem growth_cost_safe (hspec : spec.GenesisConstants) (hpaid : Paid spec m size)
    (mem_size : Cost .usize) (h : Host State) :
    wp (m.growth_cost spec size mem_size) (fun _ => False) (fun r h' => h' = h ∧
      ∀ costs, r = .ok costs → costs.2.toNat = memGas spec (max size mem_size.toNat)) h := by
  unfold growth_cost
  rw [Cost.toNat_from hpaid.small]
  refine wp_ite (fun hlt => ?_) fun hle => ?_
  · refine wp_bind.mpr (wp_post (gas_for_mem_safe hspec mem_size h) ?_)
    rintro (e | gas) _ ⟨rfl, hgas⟩
    · exact ⟨rfl, fun _ h => (nomatch h)⟩
    have hgas' := hgas gas rfl
    refine wp_bind.mpr (wp_expect (fun hnone => ?_) fun cost _ => ?_)
    · have hmono := memGas_mono spec hlt.le
      rw [← hpaid.gas, ← hgas'] at hmono
      rw [Cost.checked_sub, if_pos hmono] at hnone
      cases hnone
    · refine ⟨rfl, ?_⟩
      rintro _ ⟨⟩
      rw [hgas', Nat.max_eq_right hlt.le]
  · refine ⟨rfl, ?_⟩
    rintro _ ⟨⟩
    rw [hpaid.gas, Nat.max_eq_left (not_lt.mp hle)]

/-- The number of words that are needed for the size. -/
theorem toNat_of_to_word_size {c : CostType} {value words : Cost c}
    (hwords : Cost.overflowing (to_word_size value) = .ok words) :
    words.toNat = (value.toNat + 31) / 32 ∧ value.toNat + 31 < 2 ^ c.bits := by
  unfold to_word_size at hwords
  have h31 := Cost.toNat_from (c := c) (n := 31) (by decide)
  simp only [Cost.overflow_add, h31] at hwords
  split at hwords
  · rename_i hover
    rw [Cost.overflowing, if_pos hover] at hwords
    cases hwords
  · rename_i hlt
    have hlt' : value.toNat + 31 < 2 ^ c.bits := by simpa using hlt
    cases hwords
    rw [BitVec.toNat_ushiftRight, BitVec.toNat_add, h31, Nat.mod_eq_of_lt hlt',
      Nat.shiftRight_eq_div_pow]
    exact ⟨rfl, hlt'⟩

theorem mem_gas_cost_safe (hspec : spec.GenesisConstants) (hpaid : Paid spec m size)
    (mem_size : Cost .usize) (h : Host State) :
    wp (m.mem_gas_cost spec size mem_size) (fun _ => False) (fun r h' => h' = h ∧
      ∀ costs, r = .ok costs → Grown spec size mem_size.toNat costs.2.1 costs.2.2) h := by
  refine wp_ofExcept_bind (fun _ => ⟨rfl, fun _ h => (nomatch h)⟩) fun words hwords => ?_
  obtain ⟨hnumber, hlt⟩ := toNat_of_to_word_size hwords
  have hlt' : mem_size.toNat + 31 < 2 ^ 64 := hlt
  have hround : (words <<< 5).toNat = (mem_size.toNat + 31) / 32 * 32 := by
    rw [BitVec.toNat_shiftLeft, hnumber, Nat.shiftLeft_eq]
    exact Nat.mod_eq_of_lt (show (mem_size.toNat + 31) / 32 * 32 < 2 ^ 64 by omega)
  refine wp_bind.mpr (wp_post (growth_cost_safe hspec hpaid (words <<< 5) h) ?_)
  rintro (e | costs) _ ⟨rfl, hcosts⟩
  · exact ⟨rfl, fun _ h => (nomatch h)⟩
  have husize : Cost.as_usize (words <<< 5) = some (words <<< 5).toNat := if_pos (words <<< 5).isLt
  refine wp_bind.mpr (wp_expect (fun hnone => ?_) fun new_size hsize => ?_)
  · rw [husize] at hnone
    cases hnone
  · rw [husize] at hsize
    obtain rfl := Option.some_inj.mp hsize
    refine ⟨rfl, ?_⟩
    rintro _ ⟨⟩
    refine ⟨?_, (words <<< 5).isLt, ?_, hcosts costs rfl⟩
    · rw [hround]
      exact Nat.mul_mod_left _ _
    · rw [hround]
      show mem_size.toNat ≤ (mem_size.toNat + 31) / 32 * 32
      omega

end

end

section
variable {I : Host State → Prop} {instruction : Instruction} {stack : List U256}

/-- What a request is good for: it covers the memory that the instruction uses, and provides gas to
    those that pass gas on. -/
structure Requested (I : Host State → Prop) (instruction : Instruction) (stack : List U256)
    (r : Except VmError (Request .usize)) (h : Host State) : Prop where
  host : I h
  covers : ∀ request, r = .ok request → ∀ range ∈ ranges instruction stack,
    FitsIn request.mem range
  provides : ∀ request, r = .ok request → provides instruction = true →
    ∃ gas mem_size requested, request = .GasMemProvide gas mem_size requested

section
omit [Keccak]

theorem requested_error {h : Host State} (hh : I h) (e : VmError) :
    Requested I instruction stack (.error e) h :=
  ⟨hh, fun _ hr => (nomatch hr), fun _ hr => (nomatch hr)⟩

theorem requested_ok {h : Host State} (hh : I h) {request : Request .usize}
    (hcovers : ∀ range ∈ ranges instruction stack, FitsIn request.mem range)
    (hprovides : provides instruction = true →
      ∃ gas mem_size requested, request = .GasMemProvide gas mem_size requested) :
    Requested I instruction stack (.ok request) h := by
  refine ⟨hh, ?_, ?_⟩ <;>
  · rintro _ ⟨⟩
    assumption

/-- An instruction without memory. -/
theorem requested_gas {h : Host State} (hh : I h) (hranges : ranges instruction stack = [])
    (hprovides : provides instruction = false) (gas : Cost .usize) :
    Requested I instruction stack (.ok (.Gas gas)) h := by
  refine requested_ok hh ?_ fun htrue => ?_
  · rw [hranges]
    exact fun _ hmem => (nomatch hmem)
  · rw [hprovides] at htrue
    cases htrue

end

theorem is_new_account_safe (hans : Answers g ctx (some instruction) stack I) {h : Host State}
    (hh : I h) (is_value_transfer : Bool) (a : Address) :
    wp (is_new_account g is_value_transfer a) (fun _ => False) (fun _ => I) h := by
  refine wp_ite (fun _ => wp_ite (fun _ => ?_) fun _ => hh) fun _ => ?_
  · refine wp_bind.mpr (wp_post (hans.exists_and_not_null a h hh) ?_)
    rintro (e | _) h' hh' <;> exact hh'
  · refine wp_bind.mpr (wp_post (hans.exists a h hh) ?_)
    rintro (e | _) h' hh' <;> exact hh'

section
omit [Keccak]

theorem add_if_safe {h : Host State} (hh : I h) (condition : Bool) (gas : Cost .usize)
    (amount : Nat) : wp (add_if condition gas amount) (fun _ => False) (fun _ => I) h :=
  wp_ite (fun _ => wp_ofExcept.mpr hh) fun _ => hh

/-- The larger of two amounts of memory covers both ranges. -/
theorem covers_both {in_ out : U256 × U256} {mem_in mem_out : Cost .usize}
    (hin : FitsIn mem_in.toNat in_) (hout : FitsIn mem_out.toNat out) :
    ∀ range ∈ [in_, out], FitsIn
      (if mem_in.toNat ≤ mem_out.toNat then mem_out else mem_in : Cost .usize).toNat range := by
  intro range hrange
  rw [List.mem_cons, List.mem_singleton] at hrange
  split
  · rcases hrange with rfl | rfl
    · exact hin.mono ‹_›
    · exact hout
  · rcases hrange with rfl | rfl
    · exact hin
    · exact hout.mono (by omega)

theorem covers_one {mem : Nat} {range : U256 × U256} (h : FitsIn mem range) :
    ∀ range' ∈ [range], FitsIn mem range' := by
  intro range' hrange
  rw [List.mem_singleton] at hrange
  exact hrange ▸ h

end

/-- The price of a call with a value. -/
theorem request_call_safe (hcall : instruction = .CALL ∨ instruction = .CALLCODE)
    (hans : Answers g ctx (some instruction) stack I) (hargs : 7 ≤ stack.length) {h : Host State}
    (hh : I h) :
    wp (request g ctx instruction stack) (fun _ => False) (Requested I instruction stack) h := by
  have hnew : ∀ (is_value_transfer : Bool) (a : Address) (h : Host State), I h →
      wp (calls_new_account g instruction is_value_transfer a) (fun _ => False) (fun _ => I) h :=
    fun _ _ _ hh => wp_ite (fun _ => is_new_account_safe hans hh _ _) fun _ => hh
  rcases hcall with rfl | rfl <;> unfold request <;>
  · refine wp_bind.mpr (wp_peek (by omega) (wp_bind.mpr (wp_peek (by omega) ?_)))
    refine wp_ofExcept_bind (requested_error hh) fun mem_out hout => ?_
    refine wp_bind.mpr (wp_peek (by omega) (wp_bind.mpr (wp_peek (by omega) ?_)))
    refine wp_ofExcept_bind (requested_error hh) fun mem_in hin => ?_
    refine wp_bind.mpr (wp_peek (by omega) (wp_bind.mpr (wp_peek (by omega) ?_)))
    refine wp_bind.mpr (wp_post (hnew _ _ h hh) ?_)
    rintro (e | is_new) h₁ hh₁
    · exact requested_error hh₁ e
    refine wp_bind.mpr (wp_post (add_if_safe hh₁ _ _ _) ?_)
    rintro (e | gas) h₂ hh₂
    · exact requested_error hh₂ e
    refine wp_bind.mpr (wp_post (add_if_safe hh₂ _ _ _) ?_)
    rintro (e | gas') h₃ hh₃
    · exact requested_error hh₃ e
    refine wp_bind.mpr (wp_peek (by omega) ?_)
    exact requested_ok hh₃ (covers_both (fitsIn_of_mem_needed hin) (fitsIn_of_mem_needed hout))
      fun _ => ⟨_, _, _, rfl⟩

/-- The price of an instruction is found without a panic. -/
theorem request_safe (hans : Answers g ctx (some instruction) stack I)
    (hargs : instruction.info.args ≤ stack.length) {h : Host State} (hh : I h) :
    wp (request g ctx instruction stack) (fun _ => False) (Requested I instruction stack) h := by
  by_cases hcall : instruction = .CALL ∨ instruction = .CALLCODE
  · refine request_call_safe hcall hans ?_ hh
    rcases hcall with rfl | rfl <;> exact hargs
  cases instruction
  case CALL => exact absurd (.inl rfl) hcall
  case CALLCODE => exact absurd (.inr rfl) hcall
  case SSTORE =>
    have hargs : 2 ≤ stack.length := hargs
    refine wp_bind.mpr (wp_peek (by omega) (wp_bind.mpr (wp_peek (by omega) ?_)))
    refine wp_bind.mpr (wp_post (hans.storage_at _ h hh) ?_)
    rintro (e | val) h₁ hh₁
    · exact requested_error hh₁ e
    · exact requested_gas hh₁ rfl rfl _
  case SUICIDE =>
    have hargs : 1 ≤ stack.length := hargs
    refine wp_bind.mpr (wp_post (hans.balance _ h hh) ?_)
    rintro (e | balance) h₁ hh₁
    · exact requested_error hh₁ e
    refine wp_bind.mpr (wp_peek (by omega) (wp_bind.mpr (wp_post
      (is_new_account_safe hans hh₁ _ _) ?_)))
    rintro (e | is_new) h₂ hh₂
    · exact requested_error hh₂ e
    refine wp_bind.mpr (wp_post (add_if_safe hh₂ _ _ _) ?_)
    rintro (e | gas) h₃ hh₃
    · exact requested_error hh₃ e
    · exact requested_gas hh₃ rfl rfl _
  case MLOAD =>
    have hargs : 1 ≤ stack.length := hargs
    refine wp_bind.mpr (wp_peek (by omega) (wp_ofExcept_bind (requested_error hh)
      fun mem hmem => ?_))
    exact requested_ok hh (covers_one (fitsIn_of_mem_needed_const hmem)) fun h => (nomatch h)
  case MSTORE =>
    have hargs : 2 ≤ stack.length := hargs
    refine wp_bind.mpr (wp_peek (by omega) (wp_ofExcept_bind (requested_error hh)
      fun mem hmem => ?_))
    exact requested_ok hh (covers_one (fitsIn_of_mem_needed_const hmem)) fun h => (nomatch h)
  case MSTORE8 =>
    have hargs : 2 ≤ stack.length := hargs
    refine wp_bind.mpr (wp_peek (by omega) (wp_ofExcept_bind (requested_error hh)
      fun mem hmem => ?_))
    exact requested_ok hh (covers_one (fitsIn_of_mem_needed_const hmem)) fun h => (nomatch h)
  case RETURN | REVERT =>
    have hargs : 2 ≤ stack.length := hargs
    refine wp_bind.mpr (wp_peek (by omega) (wp_bind.mpr (wp_peek (by omega) ?_)))
    refine wp_ofExcept_bind (requested_error hh) fun mem hmem => ?_
    exact requested_ok hh (covers_one (fitsIn_of_mem_needed hmem)) fun h => (nomatch h)
  case SHA3 =>
    have hargs : 2 ≤ stack.length := hargs
    refine wp_bind.mpr (wp_peek (by omega) (wp_ofExcept_bind (requested_error hh) fun size _ => ?_))
    refine wp_ofExcept_bind (requested_error hh) fun words _ => ?_
    refine wp_ofExcept_bind (requested_error hh) fun word_gas _ => ?_
    refine wp_ofExcept_bind (requested_error hh) fun gas _ => ?_
    refine wp_bind.mpr (wp_peek (by omega) (wp_bind.mpr (wp_peek (by omega) ?_)))
    refine wp_ofExcept_bind (requested_error hh) fun mem hmem => ?_
    exact requested_ok hh (covers_one (fitsIn_of_mem_needed hmem)) fun h => (nomatch h)
  case CALLDATACOPY | CODECOPY | RETURNDATACOPY =>
    have hargs : 3 ≤ stack.length := hargs
    refine wp_bind.mpr (wp_peek (by omega) (wp_bind.mpr (wp_peek (by omega) ?_)))
    refine wp_ofExcept_bind (requested_error hh) fun mem hmem => ?_
    refine wp_bind.mpr (wp_peek (by omega) (wp_ofExcept_bind (requested_error hh) fun _ _ => ?_))
    exact requested_ok hh (covers_one (fitsIn_of_mem_needed hmem)) fun h => (nomatch h)
  case EXTCODECOPY =>
    have hargs : 4 ≤ stack.length := hargs
    refine wp_bind.mpr (wp_peek (by omega) (wp_bind.mpr (wp_peek (by omega) ?_)))
    refine wp_ofExcept_bind (requested_error hh) fun mem hmem => ?_
    refine wp_bind.mpr (wp_peek (by omega) (wp_ofExcept_bind (requested_error hh) fun _ _ => ?_))
    exact requested_ok hh (covers_one (fitsIn_of_mem_needed hmem)) fun h => (nomatch h)
  case LOG n =>
    have hargs : n.val + 2 ≤ stack.length := hargs
    refine wp_bind.mpr (wp_peek (by omega) (wp_ofExcept_bind (requested_error hh) fun size _ => ?_))
    refine wp_ofExcept_bind (requested_error hh) fun data_gas _ => ?_
    refine wp_ofExcept_bind (requested_error hh) fun gas _ => ?_
    refine wp_bind.mpr (wp_peek (by omega) (wp_bind.mpr (wp_peek (by omega) ?_)))
    refine wp_ofExcept_bind (requested_error hh) fun mem hmem => ?_
    exact requested_ok hh (covers_one (fitsIn_of_mem_needed hmem)) fun h => (nomatch h)
  case DELEGATECALL | STATICCALL =>
    have hargs : 6 ≤ stack.length := hargs
    refine wp_bind.mpr (wp_peek (by omega) (wp_bind.mpr (wp_peek (by omega) ?_)))
    refine wp_ofExcept_bind (requested_error hh) fun mem_out hout => ?_
    refine wp_bind.mpr (wp_peek (by omega) (wp_bind.mpr (wp_peek (by omega) ?_)))
    refine wp_ofExcept_bind (requested_error hh) fun mem_in hin => ?_
    refine wp_bind.mpr (wp_peek (by omega) ?_)
    exact requested_ok hh (covers_both (fitsIn_of_mem_needed hin) (fitsIn_of_mem_needed hout))
      fun _ => ⟨_, _, _, rfl⟩
  case CREATE =>
    have hargs : 3 ≤ stack.length := hargs
    refine wp_bind.mpr (wp_peek (by omega) (wp_bind.mpr (wp_peek (by omega) ?_)))
    refine wp_ofExcept_bind (requested_error hh) fun word _ => ?_
    refine wp_ofExcept_bind (requested_error hh) fun words _ => ?_
    refine wp_ofExcept_bind (requested_error hh) fun word_gas _ => ?_
    refine wp_ofExcept_bind (requested_error hh) fun gas _ => ?_
    refine wp_ofExcept_bind (requested_error hh) fun mem hmem => ?_
    exact requested_ok hh (covers_one (fitsIn_of_mem_needed hmem)) fun _ => ⟨_, _, _, rfl⟩
  case CREATE2 =>
    have hargs : 4 ≤ stack.length := hargs
    refine wp_bind.mpr (wp_peek (by omega) (wp_bind.mpr (wp_peek (by omega) ?_)))
    refine wp_ofExcept_bind (requested_error hh) fun word _ => ?_
    refine wp_ofExcept_bind (requested_error hh) fun words _ => ?_
    refine wp_ofExcept_bind (requested_error hh) fun word_gas _ => ?_
    refine wp_ofExcept_bind (requested_error hh) fun gas _ => ?_
    refine wp_ofExcept_bind (requested_error hh) fun mem hmem => ?_
    exact requested_ok hh (covers_one (fitsIn_of_mem_needed hmem)) fun _ => ⟨_, _, _, rfl⟩
  case EXP =>
    have hargs : 2 ≤ stack.length := hargs
    exact wp_bind.mpr (wp_peek (by omega) (requested_gas hh rfl rfl _))
  -- the others cost a fixed amount
  all_goals exact requested_gas hh rfl rfl _

/-- What the requirements of an instruction are good for. -/
structure Required (spec : Spec) (I : Host State → Prop) (instruction : Instruction)
    (stack : List U256) (size : Nat) (r : Except VmError (InstructionRequirements .usize))
    (h : Host State) : Prop where
  host : I h
  words : ∀ req, r = .ok req → req.memory_required_size % 32 = 0
  small : ∀ req, r = .ok req → req.memory_required_size < 2 ^ 64
  gas : ∀ req, r = .ok req →
    req.memory_total_gas.toNat = memGas spec (max size req.memory_required_size)
  covers : ∀ req, r = .ok req → ∀ range ∈ ranges instruction stack,
    FitsIn (max size req.memory_required_size) range
  provides : ∀ req, r = .ok req → provides instruction = true → req.provide_gas.isSome

section
omit [Keccak]

theorem required_error {spec : Spec} {size : Nat} {h : Host State} (hh : I h) (e : VmError) :
    Required spec I instruction stack size (.error e) h :=
  ⟨hh, fun _ hr => (nomatch hr), fun _ hr => (nomatch hr), fun _ hr => (nomatch hr),
    fun _ hr => (nomatch hr), fun _ hr => (nomatch hr)⟩

theorem required_ok {spec : Spec} {size needed : Nat} {h : Host State} (hh : I h)
    {req : InstructionRequirements .usize}
    (hgrown : Grown spec size needed req.memory_total_gas req.memory_required_size)
    (hcovers : ∀ range ∈ ranges instruction stack, FitsIn needed range)
    (hprovides : CfxEvm.provides instruction = true → req.provide_gas.isSome) :
    Required spec I instruction stack size (.ok req) h := by
  refine ⟨hh, ?_, ?_, ?_, ?_, ?_⟩ <;> rintro _ ⟨⟩
  · exact hgrown.words
  · exact hgrown.small
  · exact hgrown.gas
  · exact fun range hrange => (hcovers range hrange).mono (hgrown.enough.trans (le_max_right _ _))
  · exact hprovides

theorem with_mem_safe {spec : Spec} {m : Gasometer .usize} {size : Nat}
    (hspec : spec.GenesisConstants) (hpaid : Paid spec m size) (gas mem_size : Cost .usize)
    (h : Host State) :
    wp (m.with_mem spec size gas mem_size) (fun _ => False) (fun r h' => h' = h ∧
      ∀ req, r = .ok req →
        Grown spec size mem_size.toNat req.memory_total_gas req.memory_required_size) h := by
  refine wp_bind.mpr (wp_post (mem_gas_cost_safe hspec hpaid mem_size h) ?_)
  rintro (e | costs) _ ⟨rfl, hcosts⟩
  · exact ⟨rfl, fun _ h => (nomatch h)⟩
  refine wp_ofExcept_bind (fun _ => ⟨rfl, fun _ h => (nomatch h)⟩) fun gas' _ => ⟨rfl, ?_⟩
  rintro _ ⟨⟩
  exact hcosts costs rfl

end

/-- The requirements of an instruction are found without a panic, and are good for it. -/
theorem requirements_safe (hspec : g.spec.GenesisConstants) {m : Gasometer .usize} {size : Nat}
    (hpaid : Paid g.spec m size) (hans : Answers g ctx (some instruction) stack I)
    (hargs : instruction.info.args ≤ stack.length) {h : Host State} (hh : I h) :
    wp (m.requirements g ctx instruction stack size) (fun _ => False)
      (Required g.spec I instruction stack size) h := by
  refine wp_bind.mpr (wp_post (request_safe hans hargs hh) ?_)
  rintro (e | request) h₁ ⟨hh₁, hcovers, hprovides⟩
  · exact required_error hh₁ e
  have hcovers := hcovers request rfl
  have hprovides := hprovides request rfl
  cases request with
  | Gas gas =>
    have hgrown : Grown g.spec size 0 m.current_mem_gas 0 :=
      ⟨rfl, by decide, le_refl 0, by rw [hpaid.gas, Nat.max_eq_left (Nat.zero_le _)]⟩
    refine required_ok hh₁ hgrown hcovers fun h => ?_
    obtain ⟨_, _, _, h⟩ := hprovides h
    cases h
  | GasMem gas mem_size =>
    refine wp_post (with_mem_safe hspec hpaid gas mem_size h₁) ?_
    rintro (e | req) _ ⟨rfl, hgrown⟩
    · exact required_error hh₁ e
    refine required_ok hh₁ (hgrown req rfl) hcovers fun h => ?_
    obtain ⟨_, _, _, h⟩ := hprovides h
    cases h
  | GasMemProvide gas mem_size requested =>
    refine wp_bind.mpr (wp_post (with_mem_safe hspec hpaid gas mem_size h₁) ?_)
    rintro (e | req) _ ⟨rfl, hgrown⟩
    · exact required_error hh₁ e
    refine wp_ofExcept_bind (required_error hh₁) fun provided _ => ?_
    refine wp_ofExcept_bind (required_error hh₁) fun total_gas _ => ?_
    exact wp_pure.mpr (required_ok hh₁ (hgrown req rfl) hcovers fun _ => rfl)
  | GasMemCopy gas mem_size copy =>
    refine wp_bind.mpr (wp_post (mem_gas_cost_safe hspec hpaid mem_size h₁) ?_)
    rintro (e | costs) _ ⟨rfl, hcosts⟩
    · exact required_error hh₁ e
    refine wp_ofExcept_bind (required_error hh₁) fun copy' _ => ?_
    refine wp_ofExcept_bind (required_error hh₁) fun copy_gas _ => ?_
    refine wp_ofExcept_bind (required_error hh₁) fun gas₁ _ => ?_
    refine wp_ofExcept_bind (required_error hh₁) fun gas₂ _ => ?_
    refine required_ok hh₁ (hcosts costs rfl) hcovers fun h => ?_
    obtain ⟨_, _, _, h⟩ := hprovides h
    cases h

end

end Gasometer

end CfxEvm
