import CfxEvm.Evm.Proofs.RequirementProofs
import CfxEvm.Frame.Proofs.EffectProofs

/-!
# Proofs: prices as numbers

The prices of the instructions over the natural numbers, without widths and overflows, and how far
the gasometers of both widths agree with them. The only instruction that is refused although its
price could be paid is one that needs a memory so large that the square of the number of its words
does not fit the width.
-/

open Lib Lib.Prog

namespace CfxEvm

/-! ## Prices without widths -/

/-- The number of words of so many bytes. -/
def wordCount (n : Nat) : Nat := (n + 31) / 32

/-- Where a range ends; an empty one needs nothing. -/
def extent (range : U256 × U256) : Nat :=
  if range.2.is_zero then 0 else range.1.toNat + range.2.toNat

/-- The bytes of memory that an instruction needs. -/
def memNeeded (instruction : Instruction) (stack : List U256) : Nat :=
  ((ranges instruction stack).map extent).foldr max 0

/-- The words of memory that an instruction needs. -/
def wordsNeeded (instruction : Instruction) (stack : List U256) : Nat :=
  wordCount (memNeeded instruction stack)

/-- The bytes that an instruction copies at a price. -/
def bytesCopied (instruction : Instruction) (stack : List U256) : Nat :=
  match instruction with
  | .CALLDATACOPY | .CODECOPY | .RETURNDATACOPY => (stack.getD 2 0).toNat
  | .EXTCODECOPY => (stack.getD 3 0).toNat
  | _ => 0

/-- The gas that an instruction asks to pass on; a creation asks for no particular amount. -/
def gasRequested (instruction : Instruction) (stack : List U256) : Option (Option U256) :=
  match instruction with
  | .CALL | .CALLCODE | .DELEGATECALL | .STATICCALL => some (some (stack.getD 0 0))
  | .CREATE | .CREATE2 => some none
  | _ => none

section
variable [Keccak] (g : Globals) (ctx : FrameContext) (w : Ledger)

/-- Whether an account that does not exist yet is to receive something. -/
def receivesAnew (is_value_transfer : Bool) (address : Address) : Bool :=
  if g.spec.no_empty then
    is_value_transfer && !(w.accounts address).any fun v => !v.is_null
  else !(w.accounts address).isSome

/-- The price of an instruction, without that of the memory, of what is copied and of what is passed
    on. -/
def ownPrice (instruction : Instruction) (stack : List U256) : Nat :=
  let spec := g.spec
  match instruction with
  | .JUMPDEST => 1
  | .SSTORE =>
    if (w.storageOf ctx.origin.address (stack.getD 0 0).to_big_endian).is_zero &&
      !(stack.getD 1 0).is_zero
    then spec.sstore_set_gas * spec.evm_gas_ratio else spec.sstore_reset_gas
  | .SLOAD => spec.sload_gas
  | .BALANCE => spec.balance_gas
  | .EXTCODESIZE => spec.extcodesize_gas
  | .EXTCODEHASH => spec.extcodehash_gas
  | .SUICIDE =>
    spec.suicide_gas +
      if receivesAnew g w (!(w.balanceOf ctx.origin.address).is_zero)
        (u256_to_address (stack.getD 0 0))
      then spec.suicide_to_new_account_cost * spec.evm_gas_ratio else 0
  | .SHA3 => spec.sha3_gas + spec.sha3_word_gas * wordCount (stack.getD 1 0).toNat
  | .EXTCODECOPY => spec.extcodecopy_base_gas
  | .LOG no_of_topics =>
    (stack.getD 1 0).toNat * spec.log_data_gas +
      (spec.log_gas + spec.log_topic_gas * no_of_topics.val)
  | .CALL =>
    spec.call_gas +
      (if receivesAnew g w (!(stack.getD 2 0).is_zero) (u256_to_address (stack.getD 1 0))
        then spec.call_new_account_gas * spec.evm_gas_ratio else 0) +
      if !(stack.getD 2 0).is_zero then spec.call_value_transfer_gas else 0
  | .CALLCODE =>
    spec.call_gas + if !(stack.getD 2 0).is_zero then spec.call_value_transfer_gas else 0
  | .DELEGATECALL | .STATICCALL => spec.call_gas
  | .CREATE => spec.create_gas
  | .CREATE2 => spec.create_gas + spec.sha3_word_gas * wordCount (stack.getD 2 0).toNat
  | .EXP => spec.exp_gas + spec.exp_byte_gas * ((U256.bits (stack.getD 1 0) + 7) / 8)
  | .BLOCKHASH => spec.blockhash_gas
  | _ => (spec.tier_step_gas[instruction.info.tier.idx]?).getD 0

/-- What is passed on of the gas: all but one 64th of the rest at most, if there is a rest. -/
def passedOn (current_gas needed : Nat) (requested : Option U256) : Nat :=
  if needed ≤ current_gas then
    let rest := current_gas - needed
    match requested with
    | some r => min r.toNat (rest - rest / 64)
    | none => rest - rest / 64
  else
    match requested with
    | some r => r.toNat
    | none => 0

/-- The requirements of an instruction, as numbers. -/
structure TrueRequirements where
  gas_cost : Nat
  provide_gas : Option Nat
  memory_total_gas : Nat
  memory_required_size : Nat
  deriving DecidableEq

/-- What an instruction costs apart from what it passes on, with a memory of `size` bytes. -/
def trueNeeded (instruction : Instruction) (stack : List U256) (size : Nat) : Nat :=
  ownPrice g ctx w instruction stack +
    g.spec.copy_gas * wordCount (bytesCopied instruction stack) +
    (memGas g.spec (max size (wordsNeeded instruction stack * 32)) - memGas g.spec size)

/-- The formulas of the gasometer over unbounded numbers. -/
def trueRequirements (instruction : Instruction) (stack : List U256) (current_gas size : Nat) :
    TrueRequirements :=
  let needed := trueNeeded g ctx w instruction stack size
  let provided := (gasRequested instruction stack).map (passedOn current_gas needed)
  { gas_cost := needed + provided.getD 0
    provide_gas := provided
    memory_total_gas := memGas g.spec (max size (wordsNeeded instruction stack * 32))
    memory_required_size := wordsNeeded instruction stack * 32 }

end

/-! ## Operations with overflow -/

section
variable {c : CostType} {E : Panic → Prop} {σ : Type} {h : σ} {β : Type}
  {Q : Except VmError β → σ → Prop}

theorem wp_overflow_add {x y : Cost c} {f : Cost c → Prog Panic σ VmError β}
    (herr : 2 ^ c.bits ≤ x.toNat + y.toNat → Q (.error .OutOfGas) h)
    (hok : ∀ z : Cost c, z.toNat = x.toNat + y.toNat → wp (f z) E Q h) :
    wp (Prog.ofExcept (Cost.overflowing (Cost.overflow_add x y)) >>= f) E Q h := by
  by_cases hover : 2 ^ c.bits ≤ x.toNat + y.toNat
  · have hres : Cost.overflowing (Cost.overflow_add x y) = .error .OutOfGas :=
      if_pos (decide_eq_true hover)
    rw [hres]
    exact herr hover
  · have hres : Cost.overflowing (Cost.overflow_add x y) = .ok (x + y) :=
      if_neg (by simpa [Cost.overflow_add] using hover)
    rw [hres]
    exact hok _ (Cost.toNat_of_overflow_add hres)

theorem wp_overflow_mul {x y : Cost c} {f : Cost c → Prog Panic σ VmError β}
    (herr : 2 ^ c.bits ≤ x.toNat * y.toNat → Q (.error .OutOfGas) h)
    (hok : ∀ z : Cost c, z.toNat = x.toNat * y.toNat → wp (f z) E Q h) :
    wp (Prog.ofExcept (Cost.overflowing (Cost.overflow_mul x y)) >>= f) E Q h := by
  by_cases hover : 2 ^ c.bits ≤ x.toNat * y.toNat
  · have hres : Cost.overflowing (Cost.overflow_mul x y) = .error .OutOfGas :=
      if_pos (decide_eq_true hover)
    rw [hres]
    exact herr hover
  · have hres : Cost.overflowing (Cost.overflow_mul x y) = .ok (x * y) :=
      if_neg (by simpa [Cost.overflow_mul] using hover)
    rw [hres]
    exact hok _ (Cost.toNat_of_overflow_mul hres)

theorem wp_overflow_mul_shr {x y : Cost c} {k : Nat} {f : Cost c → Prog Panic σ VmError β}
    (herr : 2 ^ c.bits ≤ x.toNat * y.toNat → Q (.error .OutOfGas) h)
    (hok : ∀ z : Cost c, x.toNat * y.toNat < 2 ^ c.bits → z.toNat = x.toNat * y.toNat / 2 ^ k →
      wp (f z) E Q h) :
    wp (Prog.ofExcept (Cost.overflowing (Cost.overflow_mul_shr x y k)) >>= f) E Q h := by
  by_cases hover : 2 ^ c.bits ≤ x.toNat * y.toNat
  · have hres : Cost.overflowing (Cost.overflow_mul_shr x y k) = .error .OutOfGas :=
      if_pos (decide_eq_true hover)
    rw [hres]
    exact herr hover
  · have hres : Cost.overflowing (Cost.overflow_mul_shr x y k) =
        .ok (BitVec.ofNat c.bits (x.toNat * y.toNat / 2 ^ k)) :=
      if_neg (by simpa [Cost.overflow_mul_shr] using hover)
    rw [hres]
    exact hok _ (by omega) (Gasometer.toNat_of_overflow_mul_shr hres)

theorem wp_from_u256 {v : U256} {f : Cost c → Prog Panic σ VmError β}
    (herr : 2 ^ c.bits ≤ v.toNat → Q (.error .OutOfGas) h)
    (hok : ∀ x : Cost c, x.toNat = v.toNat → wp (f x) E Q h) :
    wp (Prog.ofExcept (Cost.from_u256 v) >>= f) E Q h := by
  by_cases hlt : v.toNat < 2 ^ c.bits
  · have hres := Cost.from_u256_of_lt hlt
    rw [hres]
    exact hok _ (Cost.toNat_of_from_u256 hres)
  · have hres : (Cost.from_u256 v : Except VmError (Cost c)) = .error .OutOfGas := if_neg hlt
    rw [hres]
    exact herr (not_lt.mp hlt)

end

section
variable {c : CostType} {E : Panic → Prop} {h : Host State} {β : Type}
  {Q : Except VmError β → Host State → Prop}

theorem wp_to_word_size {x : Cost c} {f : Cost c → HostM β}
    (herr : 2 ^ c.bits ≤ x.toNat + 31 → Q (.error .OutOfGas) h)
    (hok : ∀ z : Cost c, x.toNat + 31 < 2 ^ c.bits → z.toNat = wordCount x.toNat → wp (f z) E Q h) :
    wp (Prog.ofExcept (Cost.overflowing (to_word_size x)) >>= f) E Q h := by
  have h31 := Cost.toNat_from (c := c) (n := 31) (by decide)
  by_cases hover : 2 ^ c.bits ≤ x.toNat + 31
  · have hres : Cost.overflowing (to_word_size x) = .error .OutOfGas := by
      simp [to_word_size, Cost.overflow_add, h31, hover, Cost.overflowing]
    rw [hres]
    exact herr hover
  · have hres : Cost.overflowing (to_word_size x) = .ok ((x + Cost.from 31) >>> 5) := by
      simp [to_word_size, Cost.overflow_add, h31, hover, Cost.overflowing]
    rw [hres]
    exact hok _ (by omega) (Gasometer.toNat_of_to_word_size hres).1

/-- A range whose end is no word needs more than can be paid. -/
theorem wp_mem_needed {offset size : U256} {f : Cost c → HostM β}
    (herr : 2 ^ c.bits ≤ extent (offset, size) → Q (.error .OutOfGas) h)
    (hok : ∀ x : Cost c, x.toNat = extent (offset, size) → wp (f x) E Q h) :
    wp (Prog.ofExcept (mem_needed offset size) >>= f) E Q h := by
  unfold mem_needed
  unfold extent at herr hok
  by_cases hzero : size.is_zero = true
  · simp only [hzero, if_true] at hok ⊢
    exact hok _ (Cost.toNat_from (by decide))
  · simp only [hzero] at herr hok ⊢
    rcases hsum : U256.checked_add offset size with _ | needed
    · have hover := U256.checked_add_eq_none.mp hsum
      have hbits : 2 ^ c.bits ≤ 2 ^ 256 := Nat.pow_le_pow_right (by decide) Cost.bits_le
      exact herr (hbits.trans hover)
    · rw [← U256.checked_add_eq_some.mp hsum] at herr hok
      exact wp_from_u256 herr hok

theorem wp_mem_needed_const {offset : U256} {add : Nat} (hadd : 0 < add) (hword : add < 2 ^ 256)
    {f : Cost c → HostM β}
    (herr : 2 ^ c.bits ≤ extent (offset, BitVec.ofNat 256 add) → Q (.error .OutOfGas) h)
    (hok : ∀ x : Cost c, x.toNat = extent (offset, BitVec.ofNat 256 add) → wp (f x) E Q h) :
    wp (Prog.ofExcept (mem_needed_const offset add) >>= f) E Q h := by
  have hzero : U256.is_zero (BitVec.ofNat 256 add) = false := by
    have hne : BitVec.ofNat 256 add ≠ 0 := by
      intro heq
      have hnat := congrArg BitVec.toNat heq
      rw [BitVec.toNat_ofNat, Nat.mod_eq_of_lt hword] at hnat
      exact hadd.ne' hnat
    simpa [U256.is_zero] using hne
  have hwp := wp_mem_needed herr hok
  rwa [mem_needed, hzero] at hwp

end

/-! ## The price of an instruction -/

/-- The bytes that a request copies. -/
def Request.copied {c : CostType} : Request c → Nat
  | GasMemCopy _ _ copy => copy.toNat
  | _ => 0

/-- The gas that a request asks to pass on. -/
def Request.requested {c : CostType} : Request c → Option (Option U256)
  | GasMemProvide _ _ requested => some requested
  | _ => none

variable [Keccak]

/-- The request has the price of the instruction. -/
structure Prices {c : CostType} (g : Globals) (ctx : FrameContext) (w : Ledger)
    (instruction : Instruction) (stack : List U256) (request : Request c) : Prop where
  gas : request.gas.toNat = ownPrice g ctx w instruction stack
  mem : request.mem = memNeeded instruction stack
  copied : request.copied = bytesCopied instruction stack
  requested : request.requested = gasRequested instruction stack

/-- What a request comes to: the price of the instruction, or a memory that is far too large. -/
structure Priced {c : CostType} (g : Globals) (ctx : FrameContext) (db : StateDb)
    (saved : List Ledger) (w : Ledger) (instruction : Instruction) (stack : List U256)
    (r : Except VmError (Request c)) (h : Host State) : Prop where
  rep : Rep db saved h.state w
  prices : ∀ request, r = .ok request → Prices g ctx w instruction stack request
  error : ∀ e, r = .error e → e = .OutOfGas ∧ 2 ^ (c.bits - 4) ≤ memNeeded instruction stack

namespace Gasometer

section
variable {c : CostType} {g : Globals} {ctx : FrameContext} {db : StateDb} {saved : List Ledger}
  {w : Ledger} {h : Host State} {instruction : Instruction} {stack : List U256} {E : Panic → Prop}

theorem priced_ok {request : Request c} (hrep : Rep db saved h.state w)
    (hprices : Prices g ctx w instruction stack request) :
    Priced g ctx db saved w instruction stack (.ok request) h := by
  refine ⟨hrep, ?_, by rintro _ ⟨⟩⟩
  rintro _ ⟨⟩
  exact hprices

theorem priced_error (hrep : Rep db saved h.state w)
    (hmem : 2 ^ (c.bits - 4) ≤ memNeeded instruction stack) :
    Priced g ctx db saved w instruction stack
      (.error .OutOfGas : Except VmError (Request c)) h := by
  refine ⟨hrep, by rintro _ ⟨⟩, ?_⟩
  rintro _ ⟨⟩
  exact ⟨rfl, hmem⟩

/-- An instruction with a fixed price. -/
theorem priced_gas (hrep : Rep db saved h.state w) {n : Nat} (hn : n < 2 ^ 64)
    (hprice : ownPrice g ctx w instruction stack = n) (hranges : ranges instruction stack = [])
    (hcopied : bytesCopied instruction stack = 0)
    (hrequested : gasRequested instruction stack = none) :
    Priced g ctx db saved w instruction stack (.ok (.Gas (Cost.from n) : Request c)) h := by
  refine priced_ok hrep ⟨?_, ?_, hcopied.symm, hrequested.symm⟩
  · rw [hprice]
    exact Cost.toNat_from hn
  · rw [memNeeded, hranges]
    rfl

/-- A read of the state is answered from the ledger. -/
theorem wp_onState_read {α β : Type} {x : StateM α} {f : Ledger → α} {k : α → HostM β}
    {Q : Except VmError β → Host State → Prop} (hx : StateRefines x (Prog.gets f))
    (hrep : Rep db saved h.state w)
    (hk : ∀ h' : Host State, Rep db saved h'.state w → wp (k (f w)) E Q h') :
    wp (Host.onState x >>= k) E Q h := by
  refine wp_bind.mpr (wp_mapErr.mpr (wp_inState hx hrep (wp_gets.mpr fun s' hrep' => ?_)))
  exact hk _ hrep'

theorem wp_is_new_account {β : Type} {is_value_transfer : Bool} {a : Address} {k : Bool → HostM β}
    {Q : Except VmError β → Host State → Prop} (hrep : Rep db saved h.state w)
    (hk : ∀ h' : Host State, Rep db saved h'.state w →
      wp (k (receivesAnew g w is_value_transfer a)) E Q h') :
    wp (is_new_account g is_value_transfer a >>= k) E Q h := by
  unfold is_new_account
  unfold receivesAnew at hk
  by_cases hempty : g.spec.no_empty = true
  · simp only [hempty, if_true] at hk ⊢
    cases is_value_transfer with
    | true =>
      refine wp_bind.mpr (wp_onState_read (exists_and_not_null_refines a) hrep fun h' hrep' => ?_)
      exact hk h' hrep'
    | false => exact hk h hrep
  · simp only [hempty] at hk ⊢
    refine wp_bind.mpr (wp_onState_read (exists_refines a) hrep fun h' hrep' => ?_)
    exact hk h' hrep'

theorem wp_calls_new_account {β : Type} {is_value_transfer : Bool} {a : Address}
    {k : Bool → HostM β} {Q : Except VmError β → Host State → Prop} (hrep : Rep db saved h.state w)
    (hk : ∀ h' : Host State, Rep db saved h'.state w →
      wp (k (if instruction = .CALL then receivesAnew g w is_value_transfer a else false)) E Q h') :
    wp (calls_new_account g instruction is_value_transfer a >>= k) E Q h := by
  unfold calls_new_account
  by_cases hcall : instruction = .CALL
  · simp only [hcall, if_true] at hk ⊢
    exact wp_is_new_account hrep hk
  · simp only [hcall, if_false] at hk ⊢
    exact hk h hrep

section
omit [Keccak]

theorem wp_add_if {β : Type} {condition : Bool} {gas : Cost c} {amount : Nat} {k : Cost c → HostM β}
    {Q : Except VmError β → Host State → Prop} (hamount : amount < 2 ^ 64)
    (hsmall : gas.toNat + amount < 2 ^ 64)
    (hk : ∀ z : Cost c, z.toNat = gas.toNat + (if condition then amount else 0) →
      z.toNat ≤ gas.toNat + amount → wp (k z) E Q h) :
    wp (add_if condition gas amount >>= k) E Q h := by
  have hbits : 2 ^ 64 ≤ 2 ^ c.bits := by cases c <;> decide
  unfold add_if
  cases condition with
  | false => exact hk gas rfl (Nat.le_add_right _ _)
  | true =>
    refine wp_overflow_add (fun hover => ?_) fun z hz => ?_
    · rw [Cost.toNat_from hamount] at hover
      omega
    · rw [Cost.toNat_from hamount] at hz
      exact hk z hz hz.le

theorem size_le_extent (offset size : U256) : size.toNat ≤ extent (offset, size) := by
  unfold extent
  split
  · rename_i hzero
    have hsize : size = 0 := by simpa [U256.is_zero] using hzero
    rw [hsize]
    rfl
  · exact Nat.le_add_left _ _

theorem bits_split (c : CostType) : 2 ^ c.bits = 16 * 2 ^ (c.bits - 4) ∧
    2 ^ 60 ≤ 2 ^ (c.bits - 4) := by
  cases c <;> decide

theorem memNeeded_one {range : U256 × U256} (hranges : ranges instruction stack = [range]) :
    memNeeded instruction stack = extent range := by
  rw [memNeeded, hranges]
  exact Nat.max_eq_left (Nat.zero_le _)

theorem memNeeded_two {in_ out : U256 × U256} (hranges : ranges instruction stack = [in_, out])
    {mem_in mem_out : Cost c} (hin : mem_in.toNat = extent in_)
    (hout : mem_out.toNat = extent out) :
    (if mem_in.toNat ≤ mem_out.toNat then mem_out else mem_in : Cost c).toNat =
      memNeeded instruction stack := by
  have hmem : memNeeded instruction stack = max (extent in_) (extent out) := by
    rw [memNeeded, hranges]
    exact congrArg (max _) (Nat.max_eq_left (Nat.zero_le _))
  rw [hmem, ← hin, ← hout]
  split
  · exact (Nat.max_eq_right ‹_›).symm
  · exact (Nat.max_eq_left (by omega)).symm

theorem extent_le_memNeeded {range : U256 × U256} (hmem : range ∈ ranges instruction stack) :
    extent range ≤ memNeeded instruction stack := by
  unfold memNeeded
  generalize ranges instruction stack = l at hmem
  induction l with
  | nil => cases hmem
  | cons r l ih =>
    rcases List.mem_cons.mp hmem with rfl | hmem
    · exact le_max_left _ _
    · exact (ih hmem).trans (le_max_right _ _)

/-- What is copied lies in the memory. -/
theorem copied_le_memNeeded (instruction : Instruction) (stack : List U256) :
    bytesCopied instruction stack ≤ memNeeded instruction stack := by
  cases instruction
  case CALLDATACOPY | CODECOPY | RETURNDATACOPY | EXTCODECOPY =>
    exact (size_le_extent _ _).trans (extent_le_memNeeded List.mem_cons_self)
  all_goals exact Nat.zero_le _

end

/-- A range of the instruction, or its size, is too large for the width. -/
theorem priced_overflow {range : U256 × U256} (hrep : Rep db saved h.state w)
    (hmem : range ∈ ranges instruction stack) (hover : 2 ^ (c.bits - 4) ≤ extent range) :
    Priced g ctx db saved w instruction stack (.error .OutOfGas : Except VmError (Request c)) h :=
  priced_error hrep (hover.trans (extent_le_memNeeded hmem))

/-- The price of a call with a value. -/
theorem request_call_spec (hspec : g.spec.GenesisConstants)
    (hcall : instruction = .CALL ∨ instruction = .CALLCODE) (hargs : 7 ≤ stack.length)
    (hrep : Rep db saved h.state w) :
    wp (request g ctx instruction stack : HostM (Request c)) E
      (Priced g ctx db saved w instruction stack) h := by
  obtain ⟨hbits, hlarge⟩ := bits_split c
  have hgas : g.spec.call_gas = 700 := congrArg Spec.call_gas hspec
  have htransfer : g.spec.call_value_transfer_gas = 9000 :=
    congrArg Spec.call_value_transfer_gas hspec
  have hnew : g.spec.call_new_account_gas * g.spec.evm_gas_ratio = 50000 := by
    rw [show g.spec.call_new_account_gas = 25000 from congrArg Spec.call_new_account_gas hspec,
      show g.spec.evm_gas_ratio = 2 from congrArg Spec.evm_gas_ratio hspec]
  have hbase := Cost.toNat_from (c := c) (n := g.spec.call_gas) (by omega)
  have hsmall : ∀ {n : Nat}, 2 ^ c.bits ≤ n → 2 ^ (c.bits - 4) ≤ n := by omega
  rcases hcall with rfl | rfl <;> unfold request <;>
  · refine wp_bind.mpr (wp_peek (by omega) (wp_bind.mpr (wp_peek (by omega) ?_)))
    refine wp_mem_needed (fun hover => ?_) fun mem_out hout => ?_
    · exact priced_overflow hrep (List.mem_cons_of_mem _ (List.mem_singleton_self _)) (hsmall hover)
    refine wp_bind.mpr (wp_peek (by omega) (wp_bind.mpr (wp_peek (by omega) ?_)))
    refine wp_mem_needed (fun hover => ?_) fun mem_in hin => ?_
    · exact priced_overflow hrep List.mem_cons_self (hsmall hover)
    refine wp_bind.mpr (wp_peek (by omega) (wp_bind.mpr (wp_peek (by omega) ?_)))
    refine wp_calls_new_account hrep fun h₁ hrep₁ => ?_
    refine wp_add_if (by omega) (by omega) fun gas₁ hgas₁ hle₁ => ?_
    refine wp_add_if (by omega) (by omega) fun gas₂ hgas₂ _ => ?_
    refine wp_bind.mpr (wp_peek (by omega)
      (priced_ok hrep₁ ⟨?_, memNeeded_two rfl hin hout, rfl, rfl⟩))
    show gas₂.toNat = _
    rw [hgas₂, hgas₁, hbase]
    rfl

/-- The price of an instruction is found, unless it needs far too much memory. -/
theorem request_spec (hspec : g.spec.GenesisConstants)
    (hargs : instruction.info.args ≤ stack.length)
    (hrep : Rep db saved h.state w) :
    wp (request g ctx instruction stack : HostM (Request c)) E
      (Priced g ctx db saved w instruction stack) h := by
  by_cases hcall : instruction = .CALL ∨ instruction = .CALLCODE
  · refine request_call_spec hspec hcall ?_ hrep
    rcases hcall with rfl | rfl <;> exact hargs
  have htier : g.spec.tier_step_gas = [0, 2, 3, 5, 8, 10, 20, 0] :=
    congrArg Spec.tier_step_gas hspec
  have hratio : g.spec.evm_gas_ratio = 2 := congrArg Spec.evm_gas_ratio hspec
  have hword : g.spec.sha3_word_gas = 6 := congrArg Spec.sha3_word_gas hspec
  have hcreate : g.spec.create_gas = 32000 := congrArg Spec.create_gas hspec
  obtain ⟨hbits, hlarge⟩ := bits_split c
  have hsmall : ∀ {n : Nat}, 2 ^ c.bits ≤ n → 2 ^ (c.bits - 4) ≤ n := by omega
  have hdefault : (Cost.from ((g.spec.tier_step_gas[instruction.info.tier.idx]?).getD 0) :
    Cost c).toNat =
      (g.spec.tier_step_gas[instruction.info.tier.idx]?).getD 0 := by
    refine Cost.toNat_from ?_
    rw [htier]
    cases instruction.info.tier <;> decide
  cases instruction
  case CALL => exact absurd (.inl rfl) hcall
  case CALLCODE => exact absurd (.inr rfl) hcall
  case SSTORE =>
    have hargs : 2 ≤ stack.length := hargs
    have hset : g.spec.sstore_set_gas = 20000 := congrArg Spec.sstore_set_gas hspec
    have hreset : g.spec.sstore_reset_gas = 5000 := congrArg Spec.sstore_reset_gas hspec
    refine wp_bind.mpr (wp_peek (by omega) (wp_bind.mpr (wp_peek (by omega) ?_)))
    refine wp_onState_read (storage_at_refines _ _) hrep fun h₁ hrep₁ => ?_
    refine priced_gas hrep₁ ?_ rfl rfl rfl rfl
    rw [hset, hreset, hratio]
    split <;> decide
  case SUICIDE =>
    have hargs : 1 ≤ stack.length := hargs
    have hprice : g.spec.suicide_gas = 5000 := congrArg Spec.suicide_gas hspec
    have hnew : g.spec.suicide_to_new_account_cost * g.spec.evm_gas_ratio = 50000 := by
      rw [hratio, show g.spec.suicide_to_new_account_cost = 25000 from
        congrArg Spec.suicide_to_new_account_cost hspec]
    have hbase := Cost.toNat_from (c := c) (n := g.spec.suicide_gas) (by omega)
    refine wp_onState_read (balance_refines _) hrep fun h₁ hrep₁ => ?_
    refine wp_bind.mpr (wp_peek (by omega) (wp_is_new_account hrep₁ fun h₂ hrep₂ => ?_))
    refine wp_add_if (by omega) (by omega) fun gas hgas _ => priced_ok hrep₂ ⟨?_, rfl, rfl, rfl⟩
    show gas.toNat = _
    rw [hgas, hbase]
    rfl
  case MLOAD =>
    have hargs : 1 ≤ stack.length := hargs
    refine wp_bind.mpr (wp_peek (by omega) ?_)
    refine wp_mem_needed_const (by decide) (by decide) (fun hover => ?_) fun mem hmem => ?_
    · exact priced_overflow hrep List.mem_cons_self (hsmall hover)
    · exact priced_ok hrep ⟨hdefault, hmem.trans (memNeeded_one rfl).symm, rfl, rfl⟩
  case MSTORE =>
    have hargs : 2 ≤ stack.length := hargs
    refine wp_bind.mpr (wp_peek (by omega) ?_)
    refine wp_mem_needed_const (by decide) (by decide) (fun hover => ?_) fun mem hmem => ?_
    · exact priced_overflow hrep List.mem_cons_self (hsmall hover)
    · exact priced_ok hrep ⟨hdefault, hmem.trans (memNeeded_one rfl).symm, rfl, rfl⟩
  case MSTORE8 =>
    have hargs : 2 ≤ stack.length := hargs
    refine wp_bind.mpr (wp_peek (by omega) ?_)
    refine wp_mem_needed_const (by decide) (by decide) (fun hover => ?_) fun mem hmem => ?_
    · exact priced_overflow hrep List.mem_cons_self (hsmall hover)
    · exact priced_ok hrep ⟨hdefault, hmem.trans (memNeeded_one rfl).symm, rfl, rfl⟩
  case RETURN | REVERT =>
    have hargs : 2 ≤ stack.length := hargs
    refine wp_bind.mpr (wp_peek (by omega) (wp_bind.mpr (wp_peek (by omega) ?_)))
    refine wp_mem_needed (fun hover => ?_) fun mem hmem => ?_
    · exact priced_overflow hrep List.mem_cons_self (hsmall hover)
    · exact priced_ok hrep ⟨hdefault, hmem.trans (memNeeded_one rfl).symm, rfl, rfl⟩
  case SHA3 =>
    have hargs : 2 ≤ stack.length := hargs
    have hprice : g.spec.sha3_gas = 30 := congrArg Spec.sha3_gas hspec
    have hbase := Cost.toNat_from (c := c) (n := g.spec.sha3_gas) (by omega)
    have hper := Cost.toNat_from (c := c) (n := g.spec.sha3_word_gas) (by omega)
    have hle := size_le_extent (stack.getD 0 0) (stack.getD 1 0)
    refine wp_bind.mpr (wp_peek (by omega) (wp_from_u256 (fun hover => ?_) fun size hsize => ?_))
    · exact priced_overflow hrep List.mem_cons_self (hsmall (hover.trans hle))
    refine wp_to_word_size (fun hover => ?_) fun words _ hwords => ?_
    · exact priced_overflow hrep List.mem_cons_self (by omega)
    rw [hsize] at hwords
    refine wp_overflow_mul (fun hover => ?_) fun word_gas hword_gas => ?_
    · rw [hper, hword, hwords, wordCount] at hover
      exact priced_overflow hrep List.mem_cons_self (by omega)
    rw [hper, hwords] at hword_gas
    refine wp_overflow_add (fun hover => ?_) fun gas hgas => ?_
    · rw [hbase, hword_gas, hprice, hword, wordCount] at hover
      exact priced_overflow hrep List.mem_cons_self (by omega)
    rw [hbase, hword_gas] at hgas
    refine wp_bind.mpr (wp_peek (by omega) (wp_bind.mpr (wp_peek (by omega) ?_)))
    refine wp_mem_needed (fun hover => ?_) fun mem hmem => ?_
    · exact priced_overflow hrep List.mem_cons_self (hsmall hover)
    · exact priced_ok hrep ⟨hgas, hmem.trans (memNeeded_one rfl).symm, rfl, rfl⟩
  case CALLDATACOPY | CODECOPY | RETURNDATACOPY =>
    have hargs : 3 ≤ stack.length := hargs
    have hle := size_le_extent (stack.getD 0 0) (stack.getD 2 0)
    refine wp_bind.mpr (wp_peek (by omega) (wp_bind.mpr (wp_peek (by omega) ?_)))
    refine wp_mem_needed (fun hover => ?_) fun mem hmem => ?_
    · exact priced_overflow hrep List.mem_cons_self (hsmall hover)
    refine wp_bind.mpr (wp_peek (by omega) (wp_from_u256 (fun hover => ?_) fun size hsize => ?_))
    · exact priced_overflow hrep List.mem_cons_self (hsmall (hover.trans hle))
    · exact priced_ok hrep ⟨hdefault, hmem.trans (memNeeded_one rfl).symm, hsize, rfl⟩
  case EXTCODECOPY =>
    have hargs : 4 ≤ stack.length := hargs
    have hprice : g.spec.extcodecopy_base_gas = 700 := congrArg Spec.extcodecopy_base_gas hspec
    have hbase := Cost.toNat_from (c := c) (n := g.spec.extcodecopy_base_gas) (by omega)
    have hle := size_le_extent (stack.getD 1 0) (stack.getD 3 0)
    refine wp_bind.mpr (wp_peek (by omega) (wp_bind.mpr (wp_peek (by omega) ?_)))
    refine wp_mem_needed (fun hover => ?_) fun mem hmem => ?_
    · exact priced_overflow hrep List.mem_cons_self (hsmall hover)
    refine wp_bind.mpr (wp_peek (by omega) (wp_from_u256 (fun hover => ?_) fun size hsize => ?_))
    · exact priced_overflow hrep List.mem_cons_self (hsmall (hover.trans hle))
    · exact priced_ok hrep ⟨hbase, hmem.trans (memNeeded_one rfl).symm, hsize, rfl⟩
  case LOG n =>
    have hargs : n.val + 2 ≤ stack.length := hargs
    have hdata : g.spec.log_data_gas = 8 := congrArg Spec.log_data_gas hspec
    have hprice : g.spec.log_gas = 375 := congrArg Spec.log_gas hspec
    have htopic : g.spec.log_topic_gas = 375 := congrArg Spec.log_topic_gas hspec
    have hfixed : g.spec.log_gas + g.spec.log_topic_gas * n.val ≤ 375 * 5 := by
      rw [hprice, htopic]
      omega
    have hbase := Cost.toNat_from (c := c) (n := g.spec.log_gas + g.spec.log_topic_gas * n.val)
      (by omega)
    have hper := Cost.toNat_from (c := c) (n := g.spec.log_data_gas) (by omega)
    have hle := size_le_extent (stack.getD 0 0) (stack.getD 1 0)
    refine wp_bind.mpr (wp_peek (by omega) (wp_from_u256 (fun hover => ?_) fun size hsize => ?_))
    · exact priced_overflow hrep List.mem_cons_self (hsmall (hover.trans hle))
    refine wp_overflow_mul (fun hover => ?_) fun data_gas hdata_gas => ?_
    · rw [hper, hdata, hsize] at hover
      exact priced_overflow hrep List.mem_cons_self (by omega)
    rw [hper, hsize] at hdata_gas
    refine wp_overflow_add (fun hover => ?_) fun gas hgas => ?_
    · rw [hbase, hdata_gas, hdata] at hover
      exact priced_overflow hrep List.mem_cons_self (by omega)
    rw [hbase, hdata_gas] at hgas
    refine wp_bind.mpr (wp_peek (by omega) (wp_bind.mpr (wp_peek (by omega) ?_)))
    refine wp_mem_needed (fun hover => ?_) fun mem hmem => ?_
    · exact priced_overflow hrep List.mem_cons_self (hsmall hover)
    · exact priced_ok hrep ⟨hgas, hmem.trans (memNeeded_one rfl).symm, rfl, rfl⟩
  case DELEGATECALL | STATICCALL =>
    have hargs : 6 ≤ stack.length := hargs
    have hprice : g.spec.call_gas = 700 := congrArg Spec.call_gas hspec
    have hbase := Cost.toNat_from (c := c) (n := g.spec.call_gas) (by omega)
    refine wp_bind.mpr (wp_peek (by omega) (wp_bind.mpr (wp_peek (by omega) ?_)))
    refine wp_mem_needed (fun hover => ?_) fun mem_out hout => ?_
    · exact priced_overflow hrep (List.mem_cons_of_mem _ (List.mem_singleton_self _)) (hsmall hover)
    refine wp_bind.mpr (wp_peek (by omega) (wp_bind.mpr (wp_peek (by omega) ?_)))
    refine wp_mem_needed (fun hover => ?_) fun mem_in hin => ?_
    · exact priced_overflow hrep List.mem_cons_self (hsmall hover)
    exact wp_bind.mpr (wp_peek (by omega)
      (priced_ok hrep ⟨hbase, memNeeded_two rfl hin hout, rfl, rfl⟩))
  case CREATE =>
    have hargs : 3 ≤ stack.length := hargs
    have hbase := Cost.toNat_from (c := c) (n := g.spec.create_gas) (by omega)
    have hper := Cost.toNat_from (c := c) (n := g.spec.sha3_word_gas) (by omega)
    have hle := size_le_extent (stack.getD 1 0) (stack.getD 2 0)
    refine wp_bind.mpr (wp_peek (by omega) (wp_bind.mpr (wp_peek (by omega) ?_)))
    refine wp_from_u256 (fun hover => ?_) fun size hsize => ?_
    · exact priced_overflow hrep List.mem_cons_self (hsmall (hover.trans hle))
    refine wp_to_word_size (fun hover => ?_) fun words _ hwords => ?_
    · exact priced_overflow hrep List.mem_cons_self (by omega)
    rw [hsize] at hwords
    refine wp_overflow_mul (fun hover => ?_) fun word_gas hword_gas => ?_
    · rw [hper, hword, hwords, wordCount] at hover
      exact priced_overflow hrep List.mem_cons_self (by omega)
    rw [hper, hwords] at hword_gas
    have hzero := Cost.toNat_from (c := c) (n := 0) (by decide)
    refine wp_overflow_add (fun hover => ?_) fun gas hgas => ?_
    · rw [if_pos rfl, hbase, hzero, hcreate] at hover
      exact priced_overflow hrep List.mem_cons_self (by omega)
    rw [if_pos rfl, hbase, hzero] at hgas
    refine wp_mem_needed (fun hover => ?_) fun mem hmem => ?_
    · exact priced_overflow hrep List.mem_cons_self (hsmall hover)
    · exact priced_ok hrep ⟨hgas, hmem.trans (memNeeded_one rfl).symm, rfl, rfl⟩
  case CREATE2 =>
    have hargs : 4 ≤ stack.length := hargs
    have hbase := Cost.toNat_from (c := c) (n := g.spec.create_gas) (by omega)
    have hper := Cost.toNat_from (c := c) (n := g.spec.sha3_word_gas) (by omega)
    have hle := size_le_extent (stack.getD 1 0) (stack.getD 2 0)
    refine wp_bind.mpr (wp_peek (by omega) (wp_bind.mpr (wp_peek (by omega) ?_)))
    refine wp_from_u256 (fun hover => ?_) fun size hsize => ?_
    · exact priced_overflow hrep List.mem_cons_self (hsmall (hover.trans hle))
    refine wp_to_word_size (fun hover => ?_) fun words _ hwords => ?_
    · exact priced_overflow hrep List.mem_cons_self (by omega)
    rw [hsize] at hwords
    refine wp_overflow_mul (fun hover => ?_) fun word_gas hword_gas => ?_
    · rw [hper, hword, hwords, wordCount] at hover
      exact priced_overflow hrep List.mem_cons_self (by omega)
    rw [hper, hwords] at hword_gas
    refine wp_overflow_add (fun hover => ?_) fun gas hgas => ?_
    · rw [if_neg (by decide), hbase, hword_gas, hcreate, hword, wordCount] at hover
      exact priced_overflow hrep List.mem_cons_self (by omega)
    rw [if_neg (by decide), hbase, hword_gas] at hgas
    refine wp_mem_needed (fun hover => ?_) fun mem hmem => ?_
    · exact priced_overflow hrep List.mem_cons_self (hsmall hover)
    · exact priced_ok hrep ⟨hgas, hmem.trans (memNeeded_one rfl).symm, rfl, rfl⟩
  case EXP =>
    have hargs : 2 ≤ stack.length := hargs
    have hprice : g.spec.exp_gas = 10 := congrArg Spec.exp_gas hspec
    have hbyte : g.spec.exp_byte_gas = 50 := congrArg Spec.exp_byte_gas hspec
    refine wp_bind.mpr (wp_peek (by omega) (priced_gas hrep ?_ rfl rfl rfl rfl))
    have hbits := U256.bits_le (stack.getD 1 0)
    rw [hprice, hbyte]
    omega
  case JUMPDEST => exact priced_gas hrep (by decide) rfl rfl rfl rfl
  case SLOAD =>
    have hprice : g.spec.sload_gas = 200 := congrArg Spec.sload_gas hspec
    exact priced_gas hrep (by omega) rfl rfl rfl rfl
  case BALANCE =>
    have hprice : g.spec.balance_gas = 400 := congrArg Spec.balance_gas hspec
    exact priced_gas hrep (by omega) rfl rfl rfl rfl
  case EXTCODESIZE =>
    have hprice : g.spec.extcodesize_gas = 700 := congrArg Spec.extcodesize_gas hspec
    exact priced_gas hrep (by omega) rfl rfl rfl rfl
  case EXTCODEHASH =>
    have hprice : g.spec.extcodehash_gas = 400 := congrArg Spec.extcodehash_gas hspec
    exact priced_gas hrep (by omega) rfl rfl rfl rfl
  case BLOCKHASH =>
    have hprice : g.spec.blockhash_gas = 20 := congrArg Spec.blockhash_gas hspec
    exact priced_gas hrep (by omega) rfl rfl rfl rfl
  -- the others have the price of their tier
  all_goals exact priced_ok hrep ⟨hdefault, rfl, rfl, rfl⟩

end

/-! ## The gas of the memory -/

/-- The memory of a gasometer of either width: its size is a number of words, and its gas has been
    paid. -/
structure MemoryPaid {c : CostType} (spec : Spec) (m : Gasometer c) (size : Nat) : Prop where
  words : size % 32 = 0
  small : size < 2 ^ 64
  gas : m.current_mem_gas.toNat = memGas spec size

section
variable {c : CostType} {spec : Spec} {m : Gasometer c} {size : Nat} {h : Host State}
  {E : Panic → Prop}

omit [Keccak] in
theorem square_lt_iff (c : CostType) (n : Nat) : n * n < 2 ^ c.bits ↔ n < 2 ^ (c.bits / 2) := by
  have hsplit : 2 ^ c.bits = 2 ^ (c.bits / 2) * 2 ^ (c.bits / 2) := by cases c <;> decide
  rw [hsplit]
  exact Nat.mul_self_lt_mul_self_iff

omit [Keccak] in
/-- The gas for a memory is found just if the square of its words fits the width. -/
theorem gas_for_mem_exact (hspec : spec.GenesisConstants) (mem_size : Cost c) :
    wp (gas_for_mem spec mem_size) E (fun r h' => h' = h ∧
      (∀ gas, r = .ok gas → gas.toNat = memGas spec mem_size.toNat ∧
        mem_size.toNat / 32 < 2 ^ (c.bits / 2)) ∧
      ∀ e, r = .error e → e = .OutOfGas ∧ 2 ^ (c.bits / 2) ≤ mem_size.toNat / 32) h := by
  have hquad : spec.quad_coeff_div = 512 := congrArg Spec.quad_coeff_div hspec
  have hmem : spec.memory_gas = 3 := congrArg Spec.memory_gas hspec
  have hper := Cost.toNat_from (c := c) (n := spec.memory_gas) (by omega)
  have hwords : (mem_size >>> 5).toNat = mem_size.toNat / 32 := by
    rw [BitVec.toNat_ushiftRight, Nat.shiftRight_eq_div_pow]
  have hhalf : 4 * 2 ^ (c.bits / 2) ≤ 2 ^ c.bits / 512 := by cases c <;> decide
  unfold gas_for_mem
  refine wp_overflow_mul (fun hover => ?_) fun a ha => ?_
  · rw [hwords, hper, hmem] at hover
    refine ⟨rfl, fun _ h => (by cases h), ?_⟩
    rintro _ ⟨⟩
    exact ⟨rfl, by omega⟩
  refine wp_bind.mpr (wp_assert (fun hfalse => ?_) fun _ => ?_)
  · rw [hquad] at hfalse
    cases hfalse
  refine wp_overflow_mul_shr (fun hover => ?_) fun b hlt hb => ?_
  · rw [hwords] at hover
    refine ⟨rfl, fun _ h => (by cases h), ?_⟩
    rintro _ ⟨⟩
    exact ⟨rfl, not_lt.mp fun hlt => absurd ((square_lt_iff c _).mpr hlt) (not_lt.mpr hover)⟩
  rw [hwords] at ha hb hlt
  rw [hper, hmem] at ha
  have hlt' := (square_lt_iff c _).mp hlt
  have hsum : a.toNat + b.toNat < 2 ^ c.bits := by
    have hdiv := Nat.div_le_div_right (c := 2 ^ 9) hlt.le
    omega
  have hres : Cost.overflowing (Cost.overflow_add a b) = .ok (a + b) :=
    if_neg (by simpa [Cost.overflow_add] using hsum)
  rw [hres]
  refine ⟨rfl, ?_, fun _ h => by cases h⟩
  rintro _ ⟨⟩
  refine ⟨?_, hlt'⟩
  have hvalue := Cost.toNat_of_overflow_add hres
  rw [ha, hb] at hvalue
  rw [memGas, hmem]
  exact hvalue

/-- What the memory costs when it grows from `size` to `new_size`. -/
structure GrowthPaid (spec : Spec) (size new_size : Nat) (cost total : Cost c) : Prop where
  cost : cost.toNat = memGas spec (max size new_size) - memGas spec size
  total : total.toNat = memGas spec (max size new_size)
  fits : size < new_size → new_size / 32 < 2 ^ (c.bits / 2)

section
omit [Keccak]

theorem growth_cost_exact (hspec : spec.GenesisConstants) (hpaid : MemoryPaid spec m size)
    (mem_size : Cost c) :
    wp (m.growth_cost spec size mem_size) E (fun r h' => h' = h ∧
      (∀ costs, r = .ok costs → GrowthPaid spec size mem_size.toNat costs.1 costs.2) ∧
      ∀ e, r = .error e →
        e = .OutOfGas ∧ size < mem_size.toNat ∧ 2 ^ (c.bits / 2) ≤ mem_size.toNat / 32) h := by
  unfold growth_cost
  rw [Cost.toNat_from hpaid.small]
  refine wp_ite (fun hlt => ?_) fun hle => ?_
  · refine wp_bind.mpr (wp_post (gas_for_mem_exact hspec mem_size) ?_)
    rintro (e | gas) _ ⟨rfl, hgas, herr⟩
    · refine ⟨rfl, fun _ h => (by cases h), ?_⟩
      rintro _ ⟨⟩
      obtain ⟨rfl, hlarge⟩ := herr e rfl
      exact ⟨rfl, hlt, hlarge⟩
    obtain ⟨hvalue, hfits⟩ := hgas gas rfl
    have hmono := memGas_mono spec hlt.le
    rw [← hpaid.gas, ← hvalue] at hmono
    refine wp_bind.mpr (wp_expect (fun hnone => ?_) fun cost hcost => ?_)
    · rw [Cost.checked_sub, if_pos hmono] at hnone
      cases hnone
    · refine ⟨rfl, ?_, fun _ h => by cases h⟩
      rintro _ ⟨⟩
      have hsub := Cost.toNat_of_checked_sub hcost
      have hmax : max size mem_size.toNat = mem_size.toNat := Nat.max_eq_right hlt.le
      refine ⟨?_, ?_, fun _ => hfits⟩
      · rw [hmax, ← hvalue, ← hpaid.gas]
        show cost.toNat = _
        omega
      · rw [hmax]
        exact hvalue
  · refine ⟨rfl, ?_, fun _ h => by cases h⟩
    rintro _ ⟨⟩
    have hmax : max size mem_size.toNat = size := Nat.max_eq_left (not_lt.mp hle)
    refine ⟨?_, ?_, fun hlt => absurd hlt hle⟩
    · rw [hmax, Nat.sub_self]
      exact Cost.toNat_from (by decide)
    · rw [hmax]
      exact hpaid.gas

/-- The memory is grown to whole words. The wide gasometer panics on a size that is no `usize`,
    unless the square of the words does not even fit in 256 bits. -/
theorem mem_gas_cost_exact (hspec : spec.GenesisConstants) (hpaid : MemoryPaid spec m size)
    (mem_size : Cost c) :
    wp (m.mem_gas_cost spec size mem_size)
      (fun _ => c = .U256 ∧ 2 ^ 59 ≤ wordCount mem_size.toNat ∧ wordCount mem_size.toNat < 2 ^ 128)
      (fun r h' => h' = h ∧
        (∀ costs, r = .ok costs →
          GrowthPaid spec size (wordCount mem_size.toNat * 32) costs.1 costs.2.1 ∧
          costs.2.2 = wordCount mem_size.toNat * 32 ∧ wordCount mem_size.toNat < 2 ^ 59) ∧
        ∀ e, r = .error e → e = .OutOfGas ∧ size < wordCount mem_size.toNat * 32 ∧
          2 ^ (c.bits / 2) ≤ wordCount mem_size.toNat) h := by
  have hsize := hpaid.small
  have hbits : 2 ^ (c.bits / 2) * 2 ^ 5 ≤ 2 ^ c.bits ∧ 2 ^ 64 ≤ 2 ^ c.bits := by cases c <;> decide
  refine wp_to_word_size (fun hover => ?_) fun words hlt hwords => ?_
  · refine ⟨rfl, fun _ h => (nomatch h), ?_⟩
    rintro _ ⟨⟩
    unfold wordCount
    exact ⟨rfl, by omega, by omega⟩
  have hround : (words <<< 5).toNat = wordCount mem_size.toNat * 32 := by
    rw [BitVec.toNat_shiftLeft, hwords, Nat.shiftLeft_eq, wordCount]
    exact Nat.mod_eq_of_lt (by omega)
  have hdiv : wordCount mem_size.toNat * 32 / 32 = wordCount mem_size.toNat :=
    Nat.mul_div_cancel _ (by decide)
  refine wp_bind.mpr (wp_post (growth_cost_exact hspec hpaid (words <<< 5)) ?_)
  rw [hround]
  rintro (e | costs) _ ⟨rfl, hcosts, herr⟩
  · refine ⟨rfl, fun _ h => (nomatch h), ?_⟩
    rintro _ ⟨⟩
    have hlarge := herr e rfl
    rwa [hdiv] at hlarge
  have hgrowth := hcosts costs rfl
  refine wp_bind.mpr (wp_expect (fun hnone => ?_) fun new_size husize => ?_)
  · have hlarge : ¬(words <<< 5).toNat < 2 ^ 64 := by
      intro hfits
      rw [Cost.as_usize, if_pos hfits] at hnone
      cases hnone
    rw [hround] at hlarge
    have hfits := hgrowth.fits (by omega)
    rw [hdiv] at hfits
    cases c with
    | usize =>
      have hlt : mem_size.toNat + 31 < 2 ^ 64 := hlt
      unfold wordCount at hlarge
      omega
    | U256 => exact ⟨rfl, by omega, hfits⟩
  · unfold Cost.as_usize at husize
    split at husize
    · rename_i hfits
      rw [hround] at hfits
      refine ⟨rfl, ?_, fun _ h => (nomatch h)⟩
      rintro _ ⟨⟩
      refine ⟨hgrowth, ?_, by omega⟩
      rw [← hround]
      exact (Option.some_inj.mp husize).symm
    · cases husize

/-- A memory that has been paid is small for the width. -/
theorem MemoryPaid.size_lt (hspec : spec.GenesisConstants) (hpaid : MemoryPaid spec m size) :
    size < 2 ^ (c.bits - 4) := by
  cases c with
  | usize =>
    by_contra hlarge
    have hmem : spec.memory_gas = 3 := congrArg Spec.memory_gas hspec
    have hmono := memGas_mono spec (not_lt.mp hlarge)
    have hlt : m.current_mem_gas.toNat < 2 ^ 64 := m.current_mem_gas.isLt
    have hvalue : 2 ^ 64 ≤ memGas spec (2 ^ (CostType.usize.bits - 4)) := by
      rw [memGas, hmem]
      decide
    rw [hpaid.gas] at hlt
    omega
  | U256 => exact hpaid.small.trans (by decide)

/-- What is passed on is what the numbers say, unless the gas does not suffice anyway. -/
theorem gas_provided_exact (hspec : spec.GenesisConstants) (m : Gasometer c) (needed : Cost c)
    (requested : Option U256) :
    (∀ provided, m.gas_provided spec needed requested = .ok provided →
      provided.toNat = passedOn m.current_gas.toNat needed.toNat requested) ∧
    ∀ e, m.gas_provided spec needed requested = .error e →
      e = .OutOfGas ∧ m.current_gas.toNat < needed.toNat := by
  have hcap : spec.sub_gas_cap_divisor = some 64 := congrArg Spec.sub_gas_cap_divisor hspec
  unfold gas_provided passedOn
  by_cases hle : needed.toNat ≤ m.current_gas.toNat
  · have hrest : (m.current_gas - needed).toNat = m.current_gas.toNat - needed.toNat :=
      BitVec.toNat_sub_of_le (BitVec.le_def.mpr hle)
    have hmax : (m.current_gas - needed - (m.current_gas - needed) >>> 6).toNat =
        m.current_gas.toNat - needed.toNat - (m.current_gas.toNat - needed.toNat) / 64 := by
      have hshift : ((m.current_gas - needed) >>> 6).toNat =
          (m.current_gas.toNat - needed.toNat) / 64 := by
        rw [BitVec.toNat_ushiftRight, hrest, Nat.shiftRight_eq_div_pow]
      rw [BitVec.toNat_sub_of_le (BitVec.le_def.mpr (by rw [hshift, hrest]; omega)), hrest, hshift]
    simp only [hcap, hle, decide_true, if_true]
    cases requested with
    | none =>
      refine ⟨?_, fun _ h => (nomatch h)⟩
      rintro _ ⟨⟩
      exact hmax
    | some r =>
      by_cases hfits : r.toNat < 2 ^ c.bits
      · simp only [Option.map_some, Cost.from_u256_of_lt hfits]
        refine ⟨?_, fun _ h => (nomatch h)⟩
        rintro _ ⟨⟩
        have hr : (BitVec.ofNat c.bits r.toNat).toNat = r.toNat :=
          Cost.toNat_of_from_u256 (Cost.from_u256_of_lt hfits)
        rw [← hmax]
        split
        · rename_i hmin
          rw [hr] at hmin ⊢
          exact (Nat.min_eq_left hmin).symm
        · rename_i hmin
          rw [hr] at hmin
          exact (Nat.min_eq_right (by omega)).symm
      · simp only [Option.map_some, Cost.from_u256, if_neg hfits]
        refine ⟨?_, fun _ h => (nomatch h)⟩
        rintro _ ⟨⟩
        have hlt := m.current_gas.isLt
        rw [hmax]
        exact (Nat.min_eq_right (by omega)).symm
  · simp only [hcap, hle, decide_false, if_false]
    cases requested with
    | none =>
      refine ⟨?_, fun _ h => (nomatch h)⟩
      rintro _ ⟨⟩
      exact Cost.toNat_from (by decide)
    | some r =>
      refine ⟨fun provided hok => Cost.toNat_of_from_u256 hok, fun e herr => ?_⟩
      simp only [Option.map_some, Cost.from_u256] at herr
      split at herr
      · cases herr
      · cases herr
        exact ⟨rfl, not_le.mp hle⟩

end

end

/-! ## The requirements -/

/-- The requirements are the numbers they stand for. -/
structure Exact {c : CostType} (req : InstructionRequirements c) (t : TrueRequirements) : Prop where
  gas_cost : req.gas_cost.toNat = t.gas_cost
  provide_gas : req.provide_gas.map BitVec.toNat = t.provide_gas
  memory_total_gas : req.memory_total_gas.toNat = t.memory_total_gas
  memory_required_size : req.memory_required_size = t.memory_required_size

/-- The memory grows to so many words that their square does not fit the width. -/
def Outgrows (c : CostType) (instruction : Instruction) (stack : List U256) (size : Nat) : Prop :=
  size < wordsNeeded instruction stack * 32 ∧ 2 ^ (c.bits / 2) ≤ wordsNeeded instruction stack

/-- What the requirements come to: they are exact, or the instruction cannot be paid, or the memory
    outgrows the width. -/
structure Found {c : CostType} (g : Globals) (ctx : FrameContext) (db : StateDb)
    (saved : List Ledger) (w : Ledger) (instruction : Instruction) (stack : List U256)
    (m : Gasometer c) (size : Nat) (r : Except VmError (InstructionRequirements c))
    (h : Host State) : Prop where
  rep : Rep db saved h.state w
  exact : ∀ req, r = .ok req →
    Exact req (trueRequirements g ctx w instruction stack m.current_gas.toNat size) ∧
      wordsNeeded instruction stack < 2 ^ 59 ∧ ¬Outgrows c instruction stack size
  error : ∀ e, r = .error e → e = .OutOfGas ∧
    (wordsNeeded instruction stack < 2 ^ 59 ∧ m.current_gas.toNat <
      (trueRequirements g ctx w instruction stack m.current_gas.toNat size).gas_cost ∨
      Outgrows c instruction stack size)

section
variable {c : CostType} {g : Globals} {ctx : FrameContext} {db : StateDb} {saved : List Ledger}
  {w : Ledger} {h : Host State} {instruction : Instruction} {stack : List U256} {m : Gasometer c}
  {size : Nat}

theorem found_error {e : VmError} (hrep : Rep db saved h.state w) (he : e = .OutOfGas)
    (hcause : wordsNeeded instruction stack < 2 ^ 59 ∧ m.current_gas.toNat <
      (trueRequirements g ctx w instruction stack m.current_gas.toNat size).gas_cost ∨
      Outgrows c instruction stack size) :
    Found g ctx db saved w instruction stack m size (.error e) h := by
  refine ⟨hrep, fun _ h => (nomatch h), ?_⟩
  rintro _ ⟨⟩
  exact ⟨he, hcause⟩

theorem found_ok {req : InstructionRequirements c} (hrep : Rep db saved h.state w)
    (hexact : Exact req (trueRequirements g ctx w instruction stack m.current_gas.toNat size))
    (hwords : wordsNeeded instruction stack < 2 ^ 59) (hnot : ¬Outgrows c instruction stack size) :
    Found g ctx db saved w instruction stack m size (.ok req) h := by
  refine ⟨hrep, ?_, fun _ h => (nomatch h)⟩
  rintro _ ⟨⟩
  exact ⟨hexact, hwords, hnot⟩

theorem needed_le_cost (n : Nat) : trueNeeded g ctx w instruction stack size ≤
    (trueRequirements g ctx w instruction stack n size).gas_cost := Nat.le_add_right _ _

omit [Keccak] in
theorem GrowthPaid.not_outgrows {cost total : Cost c}
    (hgrowth : GrowthPaid g.spec size (wordsNeeded instruction stack * 32) cost total) :
    ¬Outgrows c instruction stack size := by
  rintro ⟨hlt, hlarge⟩
  have hfits := hgrowth.fits hlt
  rw [Nat.mul_div_cancel _ (by decide)] at hfits
  omega

/-- The requirements without what is passed on. -/
theorem with_mem_spec (hspec : g.spec.GenesisConstants) (hpaid : MemoryPaid g.spec m size)
    {request : Request c} (hprices : Prices g ctx w instruction stack request)
    (hcopied : request.copied = 0) {gas mem_size : Cost c} (hgas : gas.toNat = request.gas.toNat)
    (hmem : mem_size.toNat = request.mem) :
    wp (m.with_mem g.spec size gas mem_size)
      (fun _ => c = .U256 ∧ 2 ^ 59 ≤ wordsNeeded instruction stack ∧
        wordsNeeded instruction stack < 2 ^ 128)
      (fun r h' => h' = h ∧
        (∀ req, r = .ok req → req.gas_cost.toNat = trueNeeded g ctx w instruction stack size ∧
          req.provide_gas = none ∧
          req.memory_total_gas.toNat =
            memGas g.spec (max size (wordsNeeded instruction stack * 32)) ∧
          req.memory_required_size = wordsNeeded instruction stack * 32 ∧
          wordsNeeded instruction stack < 2 ^ 59 ∧ ¬Outgrows c instruction stack size) ∧
        ∀ e, r = .error e → e = .OutOfGas ∧
          (wordsNeeded instruction stack < 2 ^ 59 ∧
            m.current_gas.toNat < trueNeeded g ctx w instruction stack size ∨
            Outgrows c instruction stack size)) h := by
  have hwords : wordCount mem_size.toNat = wordsNeeded instruction stack := by
    rw [hmem, hprices.mem]
    rfl
  have hcost := mem_gas_cost_exact (h := h) hspec hpaid mem_size
  rw [hwords] at hcost
  refine wp_bind.mpr (wp_post hcost ?_)
  rintro (e | costs) _ ⟨rfl, hcosts, herr⟩
  · refine ⟨rfl, fun _ h => (nomatch h), ?_⟩
    rintro _ ⟨⟩
    obtain ⟨rfl, hgrows, hlarge⟩ := herr e rfl
    exact ⟨rfl, .inr ⟨hgrows, hlarge⟩⟩
  obtain ⟨hgrowth, hsize, hsmall⟩ := hcosts costs rfl
  have hneeded : gas.toNat + costs.1.toNat = trueNeeded g ctx w instruction stack size := by
    have hzero : wordCount (bytesCopied instruction stack) = 0 := by
      rw [← hprices.copied, hcopied]; rfl
    rw [trueNeeded, hzero, hgas, hprices.gas, hgrowth.cost]
    rfl
  refine wp_overflow_add (fun hover => ?_) fun total htotal => ?_
  · refine ⟨rfl, fun _ h => (nomatch h), ?_⟩
    rintro _ ⟨⟩
    rw [hneeded] at hover
    exact ⟨rfl, .inl ⟨hsmall, m.current_gas.isLt.trans_le hover⟩⟩
  · refine ⟨rfl, ?_, fun _ h => (nomatch h)⟩
    rintro _ ⟨⟩
    exact ⟨htotal.trans hneeded, rfl, hgrowth.total, hsize, hsmall, hgrowth.not_outgrows⟩

theorem trueRequirements_of_none (hnone : gasRequested instruction stack = none) (n : Nat) :
    trueRequirements g ctx w instruction stack n size =
      ⟨trueNeeded g ctx w instruction stack size, none,
        memGas g.spec (max size (wordsNeeded instruction stack * 32)),
        wordsNeeded instruction stack * 32⟩ := by
  rw [trueRequirements, hnone]
  rfl

/-- The requirements of an instruction are exact, or refused for one of two causes; the wide
    gasometer may also panic. -/
theorem requirements_spec (ctx : FrameContext) (hspec : g.spec.GenesisConstants)
    (hpaid : MemoryPaid g.spec m size)
    (hargs : instruction.info.args ≤ stack.length) (hrep : Rep db saved h.state w) :
    wp (m.requirements g ctx instruction stack size)
      (fun _ => c = .U256 ∧ 2 ^ 59 ≤ wordsNeeded instruction stack ∧
        wordsNeeded instruction stack < 2 ^ 128)
      (Found g ctx db saved w instruction stack m size) h := by
  refine wp_bind.mpr (wp_post (request_spec hspec hargs hrep) ?_)
  rintro (e | request) h₁ ⟨hrep₁, hprices, herr⟩
  · obtain ⟨rfl, hlarge⟩ := herr e rfl
    have hsize := hpaid.size_lt hspec
    have hhalf : 2 ^ (c.bits / 2) * 2 ^ 5 ≤ 2 ^ (c.bits - 4) := by cases c <;> decide
    refine found_error hrep₁ rfl (.inr ⟨?_, ?_⟩) <;>
    · unfold wordsNeeded wordCount
      omega
  have hprices := hprices request rfl
  cases request with
  | Gas gas =>
    have hnone : gasRequested instruction stack = none := hprices.requested.symm
    have hwords : wordsNeeded instruction stack = 0 := by
      rw [wordsNeeded, ← hprices.mem]
      exact (rfl : wordCount 0 = 0)
    have hneeded : gas.toNat = trueNeeded g ctx w instruction stack size := by
      have hzero : wordCount (bytesCopied instruction stack) = 0 := by
        rw [← hprices.copied]
        exact (rfl : wordCount 0 = 0)
      rw [trueNeeded, hzero, hwords, Nat.zero_mul, Nat.max_eq_left (Nat.zero_le _), Nat.sub_self]
      exact hprices.gas
    refine found_ok hrep₁ ?_ (by omega) ?_
    · rw [trueRequirements_of_none hnone, hwords]
      refine ⟨hneeded, rfl, ?_, rfl⟩
      rw [Nat.zero_mul, Nat.max_eq_left (Nat.zero_le _)]
      exact hpaid.gas
    · rintro ⟨hlt, -⟩
      rw [hwords] at hlt
      omega
  | GasMem gas mem_size =>
    have hnone : gasRequested instruction stack = none := hprices.requested.symm
    refine wp_post (with_mem_spec hspec hpaid hprices rfl rfl rfl) ?_
    rintro (e | req) _ ⟨rfl, hok, herr⟩
    · obtain ⟨rfl, hcause⟩ := herr e rfl
      refine found_error hrep₁ rfl (hcause.imp_left fun hcost => ⟨hcost.1, ?_⟩)
      exact hcost.2.trans_le (needed_le_cost _)
    · obtain ⟨hcost, hprovide, htotal, hsize, hsmall, hnot⟩ := hok req rfl
      refine found_ok hrep₁ ?_ hsmall hnot
      rw [trueRequirements_of_none hnone]
      exact ⟨hcost, congrArg _ hprovide, htotal, hsize⟩
  | GasMemProvide gas mem_size requested =>
    have hsome : gasRequested instruction stack = some requested := hprices.requested.symm
    refine wp_bind.mpr (wp_post (with_mem_spec hspec hpaid hprices rfl rfl rfl) ?_)
    rintro (e | req) _ ⟨rfl, hok, herr⟩
    · obtain ⟨rfl, hcause⟩ := herr e rfl
      refine found_error hrep₁ rfl (hcause.imp_left fun hcost => ⟨hcost.1, ?_⟩)
      exact hcost.2.trans_le (needed_le_cost _)
    obtain ⟨hcost, -, htotal, hsize, hsmall, hnot⟩ := hok req rfl
    obtain ⟨hprovided, hrefused⟩ := gas_provided_exact hspec m req.gas_cost requested
    rw [hcost] at hprovided hrefused
    have htrue : (trueRequirements g ctx w instruction stack m.current_gas.toNat size).provide_gas =
        some (passedOn m.current_gas.toNat (trueNeeded g ctx w instruction stack size)
            requested) := by
      rw [trueRequirements, hsome]
      rfl
    have hgas : (trueRequirements g ctx w instruction stack m.current_gas.toNat size).gas_cost =
        trueNeeded g ctx w instruction stack size +
          passedOn m.current_gas.toNat (trueNeeded g ctx w instruction stack size) requested := by
      rw [trueRequirements, hsome]
      rfl
    refine wp_bind.mpr (wp_ofExcept.mpr ?_)
    rcases hres : m.gas_provided g.spec req.gas_cost requested with e | provided
    · obtain ⟨rfl, hlt⟩ := hrefused e hres
      exact found_error hrep₁ rfl (.inl ⟨hsmall, hlt.trans_le (needed_le_cost _)⟩)
    have hvalue := hprovided provided hres
    refine wp_overflow_add (fun hover => ?_) fun total hsum => ?_
    · rw [hcost, hvalue, ← hgas] at hover
      exact found_error hrep₁ rfl (.inl ⟨hsmall, m.current_gas.isLt.trans_le hover⟩)
    · rw [hcost, hvalue, ← hgas] at hsum
      refine found_ok hrep₁ ⟨hsum, ?_, htotal, hsize⟩ hsmall hnot
      rw [htrue, ← hvalue]
      rfl
  | GasMemCopy gas mem_size copy =>
    have hnone : gasRequested instruction stack = none := hprices.requested.symm
    have hcopy : g.spec.copy_gas = 3 := congrArg Spec.copy_gas hspec
    have hper := Cost.toNat_from (c := c) (n := g.spec.copy_gas) (by omega)
    have hwords : wordCount mem_size.toNat = wordsNeeded instruction stack := by
      rw [show mem_size.toNat = _ from hprices.mem]
      rfl
    have hmemcost := mem_gas_cost_exact (h := h₁) hspec hpaid mem_size
    rw [hwords] at hmemcost
    refine wp_bind.mpr (wp_post hmemcost ?_)
    rintro (e | costs) h₂ ⟨rfl, hcosts, herr⟩
    · obtain ⟨rfl, hgrows, hlarge⟩ := herr e rfl
      exact found_error hrep₁ rfl (.inr ⟨hgrows, hlarge⟩)
    obtain ⟨hgrowth, hsize, hsmall⟩ := hcosts costs rfl
    have hneeded : trueNeeded g ctx w instruction stack size =
        gas.toNat + g.spec.copy_gas * wordCount copy.toNat + costs.1.toNat := by
      rw [trueNeeded, hgrowth.cost, ← hprices.gas, ← hprices.copied]
      rfl
    have hrefuse : 2 ^ c.bits ≤ trueNeeded g ctx w instruction stack size →
        Found g ctx db saved w instruction stack m size (.error .OutOfGas) h₂ := fun hlarge =>
      found_error hrep₁ rfl
        (.inl ⟨hsmall, (m.current_gas.isLt.trans_le hlarge).trans_le (needed_le_cost _)⟩)
    refine wp_to_word_size (fun hover => ?_) fun words _ hwords' => ?_
    · -- what is copied lies in the memory, whose size is known to be small
      have hle := copied_le_memNeeded instruction stack
      have hbits : 2 ^ 64 ≤ 2 ^ c.bits := by cases c <;> decide
      rw [← hprices.copied, show (Request.GasMemCopy gas mem_size copy).copied =
        copy.toNat from rfl]
        at hle
      unfold wordsNeeded wordCount at hsmall
      omega
    refine wp_overflow_mul (fun hover => hrefuse ?_) fun copy_gas hcopy_gas => ?_
    · rw [hper, hwords'] at hover
      omega
    rw [hper, hwords'] at hcopy_gas
    refine wp_overflow_add (fun hover => hrefuse ?_) fun gas₁ hgas₁ => ?_
    · rw [hcopy_gas] at hover
      omega
    refine wp_overflow_add (fun hover => hrefuse ?_) fun gas₂ hgas₂ => ?_
    · rw [hgas₁, hcopy_gas, ← hneeded] at hover
      exact hover
    · rw [hgas₁, hcopy_gas, ← hneeded] at hgas₂
      refine found_ok hrep₁ ?_ hsmall hgrowth.not_outgrows
      rw [trueRequirements_of_none hnone]
      exact ⟨hgas₂, rfl, hgrowth.total, hsize⟩

end

end Gasometer

end CfxEvm
