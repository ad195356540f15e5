import CfxEvm.Evm.Proofs.InstructionProofs
import CfxEvm.Evm.Proofs.PricingProofs
import CfxEvm.Evm.Proofs.StepProofs

/-!
# Proofs: the memory and its gas stay in step

The gas that has been charged for the memory is the price of its size, and its size is that of the
largest word that was touched. So neither the order nor the number of the expansions matters. The
ranges of an instruction lie in the memory when it is executed, and the one for an output when it is
resumed.
-/

open Lib Lib.Prog

namespace CfxEvm

section
variable [Keccak] {g : Globals} {ctx : FrameContext} {c : CostType}

/-! ## The gasometer -/

/-- The price of what is requested, without the memory and the gas that is provided. -/
def Request.price (spec : Spec) : Request c → ℕ
  | .Gas gas | .GasMem gas _ | .GasMemProvide gas _ _ => gas.toNat
  | .GasMemCopy gas _ copy =>
    gas.toNat + (Cost.from spec.copy_gas : Cost c).toNat * wordCount copy.toNat

namespace Gasometer

variable {instruction : Instruction} {stack : List U256}

omit [Keccak] in
theorem toNat_of_mem_needed {offset size : U256} {mem : Cost c}
    (h : mem_needed offset size = .ok mem) : mem.toNat = extent (offset, size) := by
  unfold mem_needed at h
  unfold extent
  split at h
  · rename_i hzero
    rw [if_pos hzero, ← Except.ok.inj h]
    exact Cost.toNat_from (by decide)
  · rename_i hzero
    rw [if_neg hzero]
    rcases hsum : U256.checked_add offset size with _ | needed
    · rw [hsum] at h
      cases h
    · rw [hsum] at h
      rw [Cost.toNat_of_from_u256 h, U256.checked_add_eq_some.mp hsum]

omit [Keccak] in
theorem toNat_of_mem_needed_const {offset : U256} {add : ℕ} {mem : Cost c} (hadd : 0 < add)
    (hword : add < 2 ^ 256) (h : mem_needed_const offset add = .ok mem) :
    mem.toNat = extent (offset, BitVec.ofNat 256 add) := by
  have hnat : (BitVec.ofNat 256 add).toNat = add := Nat.mod_eq_of_lt hword
  have hzero : ¬U256.is_zero (BitVec.ofNat 256 add) = true := by
    intro hzero
    have heq : (BitVec.ofNat 256 add : U256) = 0 := by simpa [U256.is_zero] using hzero
    rw [heq] at hnat
    exact absurd hnat.symm hadd.ne'
  unfold mem_needed_const at h
  rw [extent, if_neg hzero]
  rcases hsum : U256.checked_add offset (BitVec.ofNat 256 add) with _ | needed
  · rw [hsum] at h
    cases h
  · rw [hsum] at h
    rw [Cost.toNat_of_from_u256 h, U256.checked_add_eq_some.mp hsum]

section
variable {β : Type} {Q : β → Prop} {i j : ℕ} {k : Cost c → HostM β}

section
omit [Keccak]

theorem peek_getD (stack : List U256) (n : ℕ) :
    Yields (fun v => v = stack.getD n 0) (peek stack n) := by
  refine (peek_yields stack n).mono fun v hv => ?_
  rw [List.getD_eq_getElem?_getD, hv, Option.getD_some]

theorem needed_const {add : ℕ} (hadd : 0 < add) (hword : add < 2 ^ 256)
    (hranges : ranges instruction stack = [(stack.getD 0 0, BitVec.ofNat 256 add)])
    (hk : ∀ mem, mem.toNat = memNeeded instruction stack → Yields Q (k mem)) :
    Yields Q (peek stack 0 >>= fun offset => Prog.ofExcept (mem_needed_const offset add) >>=
      k) := by
  refine .bind (peek_getD _ _) fun offset hoffset =>
    .bind (.ofExcept fun _ h => toNat_of_mem_needed_const hadd hword h) fun mem hmem => hk mem ?_
  rw [hmem, hoffset, memNeeded_one hranges]

/-- The memory for one of two ranges. -/
theorem needed_range {k : Cost c → HostM β}
    (hk : ∀ mem, mem.toNat = extent (stack.getD i 0, stack.getD j 0) → Yields Q (k mem)) :
    Yields Q (peek stack i >>= fun offset => peek stack j >>= fun size =>
      Prog.ofExcept (mem_needed offset size) >>= k) := by
  refine .bind (peek_getD _ _) fun offset hoffset => .bind (peek_getD _ _) fun size hsize =>
    .bind (.ofExcept fun _ h => toNat_of_mem_needed h) fun mem hmem => hk mem ?_
  rw [hmem, hoffset, hsize]

/-- One range is all that the instruction reaches. -/
theorem needed_one
    (hranges : ranges instruction stack = [(stack.getD i 0, stack.getD j 0)])
    (hk : ∀ mem, mem.toNat = memNeeded instruction stack → Yields Q (k mem)) :
    Yields Q (peek stack i >>= fun offset => peek stack j >>= fun size =>
      Prog.ofExcept (mem_needed offset size) >>= k) :=
  needed_range fun mem hmem => hk mem (hmem.trans (memNeeded_one hranges).symm)

end

end

/-- The request is for the memory that the ranges of the instruction reach. -/
theorem request_mem (instruction : Instruction) (stack : List U256) :
    Yields (fun request : Request c => request.mem = memNeeded instruction stack)
      (request g ctx instruction stack) := by
  cases instruction
  case MLOAD | MSTORE =>
    exact needed_const (by decide) (by decide) rfl fun mem hmem => .pure hmem
  case MSTORE8 => exact needed_const (by decide) (by decide) rfl fun mem hmem => .pure hmem
  case RETURN | REVERT => exact needed_one rfl fun mem hmem => .pure hmem
  case SHA3 =>
    exact .seq fun _ => .seq fun _ => .seq fun _ => .seq fun _ => .seq fun _ =>
      needed_one rfl fun mem hmem => .pure hmem
  case CALLDATACOPY | CODECOPY | RETURNDATACOPY | EXTCODECOPY =>
    exact needed_one rfl fun mem hmem => .seq fun _ => .seq fun _ => .pure hmem
  case LOG =>
    exact .seq fun _ => .seq fun _ => .seq fun _ => .seq fun _ =>
      needed_one rfl fun mem hmem => .pure hmem
  case CALL | CALLCODE =>
    refine needed_range fun mem_out hout => needed_range fun mem_in hin => ?_
    exact .seq fun _ => .seq fun _ => .seq fun _ => .seq fun _ => .seq fun _ => .seq fun _ =>
      .pure (memNeeded_two rfl hin hout)
  case DELEGATECALL | STATICCALL =>
    refine needed_range fun mem_out hout => needed_range fun mem_in hin => ?_
    exact .seq fun _ => .pure (memNeeded_two rfl hin hout)
  case CREATE | CREATE2 =>
    -- The operands are read before the price of the words and used after it.
    refine .bind (peek_getD _ _) fun start hstart => .bind (peek_getD _ _) fun len hlen =>
      .seq fun _ => .seq fun _ => .seq fun _ => .seq fun _ =>
      .bind (.ofExcept fun _ h => toNat_of_mem_needed h) fun mem hmem => .pure ?_
    show mem.toNat = _
    rw [hmem, hstart, hlen, memNeeded_one rfl]
  case SSTORE => exact .seq fun _ => .seq fun _ => .seq fun _ => .pure rfl
  case SUICIDE => exact .seq fun _ => .seq fun _ => .seq fun _ => .seq fun _ => .pure rfl
  case EXP => exact .seq fun _ => .pure rfl
  all_goals exact .pure rfl

omit [Keccak] in
/-- The size that the memory is made to have covers what is needed. -/
theorem mem_gas_cost_covers (m : Gasometer c) (spec : Spec) (size : Nat) (mem_size : Cost c) :
    Yields (fun costs => mem_size.toNat ≤ costs.2.2 ∧ costs.2.2 < 2 ^ 64)
      (m.mem_gas_cost spec size mem_size) := by
  refine .bind (.ofExcept fun words hwords => hwords) fun words hwords => .seq fun costs => ?_
  obtain ⟨hnumber, hlt⟩ := toNat_of_to_word_size hwords
  have hround : (words <<< 5).toNat = (mem_size.toNat + 31) / 32 * 32 := by
    rw [BitVec.toNat_shiftLeft, hnumber, Nat.shiftLeft_eq]
    exact Nat.mod_eq_of_lt ((Nat.div_mul_le_self _ 32).trans_lt hlt)
  refine .bind (.expect fun new_mem_size hsize => hsize) fun new_mem_size hsize => .pure ?_
  unfold Cost.as_usize at hsize
  split at hsize
  · rename_i hsmall
    rw [← Option.some_inj.mp hsize]
    refine ⟨?_, hsmall⟩
    show mem_size.toNat ≤ (words <<< 5).toNat
    rw [hround]
    omega
  · cases hsize

omit [Keccak] in
/-- A range lies in whatever memory reaches as far as it does. -/
theorem fitsIn_of_extent_le {n : ℕ} {range : U256 × U256} (h : extent range ≤ n) :
    FitsIn n range := by
  unfold extent at h
  split at h
  · rename_i hzero
    have heq : range.2 = 0 := by simpa [U256.is_zero] using hzero
    exact .inl (congrArg BitVec.toNat heq)
  · exact .inr h

/-- The ranges of an instruction lie in the memory that it requires. -/
theorem requirements_covers (m : Gasometer c) (size : ℕ) :
    Yields (fun req => req.memory_required_size < 2 ^ 64 ∧
      ∀ range ∈ ranges instruction stack, FitsIn req.memory_required_size range)
      (m.requirements g ctx instruction stack size) := by
  refine .bind (request_mem instruction stack) fun request hrequest => ?_
  have hfits : ∀ {n : ℕ}, request.mem ≤ n → ∀ range ∈ ranges instruction stack, FitsIn n range := by
    intro n hn range hrange
    have hextent := extent_le_memNeeded hrange
    rw [← hrequest] at hextent
    exact fitsIn_of_extent_le (hextent.trans hn)
  cases request with
  | Gas gas => exact .pure ⟨show 0 < 2 ^ 64 by decide, hfits (le_refl _)⟩
  | GasMem gas mem_size =>
    exact .bind (mem_gas_cost_covers m g.spec size mem_size) fun costs hcosts => .seq fun _ =>
      .pure ⟨hcosts.2, hfits hcosts.1⟩
  | GasMemProvide gas mem_size requested =>
    refine .bind (P := fun r => mem_size.toNat ≤ r.memory_required_size ∧
      r.memory_required_size < 2 ^ 64) ?_ fun r hr => ?_
    · exact .bind (mem_gas_cost_covers m g.spec size mem_size) fun costs hcosts => .seq fun _ =>
        .pure hcosts
    · exact .seq fun _ => .seq fun _ => .pure ⟨hr.2, hfits hr.1⟩
  | GasMemCopy gas mem_size copy =>
    exact .bind (mem_gas_cost_covers m g.spec size mem_size) fun costs hcosts => .seq fun _ =>
      .seq fun _ => .seq fun _ => .seq fun _ => .pure ⟨hcosts.2, hfits hcosts.1⟩

/-- The memory that an instruction gets, and what it pays for it. -/
structure Expands (spec : Spec) (size : ℕ) (instruction : Instruction)
    (stack : List U256) (req : InstructionRequirements c) : Prop where
  size_eq : req.memory_required_size = wordsNeeded instruction stack * 32
  small : req.memory_required_size < 2 ^ 64
  total : req.memory_total_gas.toNat = memGas spec (max size req.memory_required_size)
  cost : memGas spec (max size req.memory_required_size) - memGas spec size ≤ req.gas_cost.toNat

section
variable {spec : Spec} {m : Gasometer c} {size : ℕ}

omit [Keccak] in
/-- The gas of the memory is found exactly, and the subtraction in it does not underflow. -/
theorem mem_gas_cost_grows (hspec : spec.GenesisConstants) (hpaid : MemoryPaid spec m size)
    (mem_size : Cost c) : Yields (fun costs => GrowthPaid spec size (wordCount mem_size.toNat * 32)
      costs.1 costs.2.1 ∧ costs.2.2 = wordCount mem_size.toNat * 32 ∧
        wordCount mem_size.toNat < 2 ^ 59)
      (m.mem_gas_cost spec size mem_size) :=
  fun _ => wp_mono (mem_gas_cost_exact hspec hpaid mem_size) (fun _ _ => trivial)
    fun _ _ h costs hcosts => h.2.1 costs hcosts

omit [Keccak] in
/-- A gas cost that the gas of the memory is part of. -/
theorem GrowthPaid.expands {needed : ℕ} (hneeded : needed = memNeeded instruction stack)
    {costs : Cost c × Cost c × ℕ}
    (hcosts : GrowthPaid spec size (wordCount needed * 32) costs.1 costs.2.1 ∧
      costs.2.2 = wordCount needed * 32 ∧ wordCount needed < 2 ^ 59)
    {gas : Cost c} {provided : Option (Cost c)} (hgas : costs.1.toNat ≤ gas.toNat) :
    Expands spec size instruction stack ⟨gas, provided, costs.2.1, costs.2.2⟩ := by
  obtain ⟨hpaid, hsize, hlt⟩ := hcosts
  constructor
  · show costs.2.2 = _
    rw [hsize, hneeded]
    rfl
  · show costs.2.2 < _
    omega
  · show costs.2.1.toNat = memGas spec (max size costs.2.2)
    rw [hsize]
    exact hpaid.total
  · show memGas spec (max size costs.2.2) - _ ≤ gas.toNat
    rw [hsize, ← hpaid.cost]
    exact hgas

theorem requirements_expands (hspec : g.spec.GenesisConstants) (hpaid : MemoryPaid g.spec m size) :
    Yields (Expands g.spec size instruction stack)
      (m.requirements g ctx instruction stack size) := by
  refine .bind (request_mem instruction stack) fun request hrequest => ?_
  cases request with
  | Gas gas =>
    have hzero : wordsNeeded instruction stack = 0 := by
      rw [wordsNeeded, ← hrequest]
      show wordCount 0 = 0
      rfl
    refine .pure ⟨?_, ?_, ?_, ?_⟩
    · rw [hzero]
    · show 0 < 2 ^ 64
      decide
    · exact hpaid.gas.trans (congrArg _ (Nat.max_eq_left (Nat.zero_le _)).symm)
    · show memGas g.spec (max size 0) - memGas g.spec size ≤ _
      rw [Nat.max_eq_left (Nat.zero_le _), Nat.sub_self]
      exact Nat.zero_le _
  | GasMem gas mem_size =>
    refine .bind (mem_gas_cost_grows hspec hpaid mem_size) fun costs hcosts =>
      .bind (.ofExcept fun _ h => Cost.toNat_of_overflow_add h) fun sum hsum => .pure ?_
    exact GrowthPaid.expands hrequest hcosts (by omega)
  | GasMemProvide gas mem_size requested =>
    refine .bind (P := fun r => Expands g.spec size instruction stack r) ?_ fun r hr => ?_
    · refine .bind (mem_gas_cost_grows hspec hpaid mem_size) fun costs hcosts =>
        .bind (.ofExcept fun _ h => Cost.toNat_of_overflow_add h) fun sum hsum => .pure ?_
      exact GrowthPaid.expands hrequest hcosts (by omega)
    · refine .seq fun provided => .bind (.ofExcept fun _ h => Cost.toNat_of_overflow_add h)
        fun total htotal => .pure ⟨hr.size_eq, hr.small, hr.total, hr.cost.trans ?_⟩
      show r.gas_cost.toNat ≤ total.toNat
      omega
  | GasMemCopy gas mem_size copy =>
    refine .bind (mem_gas_cost_grows hspec hpaid mem_size) fun costs hcosts => .seq fun _ =>
      .seq fun _ => .seq fun _ => .bind (.ofExcept fun _ h => Cost.toNat_of_overflow_add h)
      fun sum hsum => .pure ?_
    exact GrowthPaid.expands hrequest hcosts (by omega)

omit [Keccak] in
/-- The gas for the memory is what its new total is beyond the old one. -/
theorem mem_gas_cost_deducts (mem_size : Cost c) :
    Yields (fun costs => costs.1.toNat = costs.2.1.toNat - m.current_mem_gas.toNat)
      (m.mem_gas_cost spec size mem_size) := by
  refine .seq fun words => .bind (P := fun costs =>
    costs.1.toNat = costs.2.toNat - m.current_mem_gas.toNat) ?_ fun costs hcosts =>
    .seq fun _ => .pure hcosts
  refine .ite (fun _ => .seq fun total => .bind (.expect fun _ h => h) fun cost hcost => .pure ?_)
    fun _ => .pure ?_
  · have hsum := Cost.toNat_of_checked_sub hcost
    show cost.toNat = total.toNat - m.current_mem_gas.toNat
    omega
  · show (Cost.from 0 : Cost c).toNat = _
    rw [Cost.toNat_from (by decide), Nat.sub_self]

/-- The gas cost of an instruction is the price of what it requests, the gas that its memory costs
    beyond what has been charged for it, and the gas that it provides. -/
theorem requirements_deducts {h h' : Host State} {req : InstructionRequirements c}
    (hrun : (m.requirements g ctx instruction stack size).run h = .ok (.ok req, h')) :
    ∃ (asked : Request c) (h₁ : Host State),
      (request g ctx instruction stack).run h = .ok (.ok asked, h₁) ∧
      req.gas_cost.toNat = asked.price g.spec +
        (req.memory_total_gas.toNat - m.current_mem_gas.toNat) +
        (req.provide_gas.map BitVec.toNat).getD 0 := by
  obtain ⟨asked, h₁, hasked, hrun⟩ := run_bind_eq_ok.mp hrun
  refine ⟨asked, h₁, hasked, ?_⟩
  have hwith (gas mem_size : Cost c) : Yields (fun r : InstructionRequirements c =>
      r.provide_gas = none ∧ r.gas_cost.toNat = gas.toNat +
        (r.memory_total_gas.toNat - m.current_mem_gas.toNat))
            (m.with_mem g.spec size gas mem_size) :=
    .bind (mem_gas_cost_deducts mem_size) fun costs hcosts =>
      .bind (.ofExcept fun _ h => Cost.toNat_of_overflow_add h) fun sum hsum =>
        .pure ⟨rfl, hsum.trans (congrArg _ hcosts)⟩
  cases asked with
  | Gas gas =>
    cases hrun
    show gas.toNat = gas.toNat + (m.current_mem_gas.toNat - m.current_mem_gas.toNat) + 0
    omega
  | GasMem gas mem_size =>
    obtain ⟨hnone, hgas⟩ := (hwith gas mem_size).of_run hrun
    rw [hnone]
    exact hgas
  | GasMemProvide gas mem_size requested =>
    obtain ⟨r, h₂, hmem, hrun⟩ := run_bind_eq_ok.mp hrun
    obtain ⟨-, hgas⟩ := (hwith gas mem_size).of_run hmem
    obtain ⟨provided, h₃, -, hrun⟩ := run_bind_eq_ok.mp hrun
    obtain ⟨total, h₄, htotal, hrun⟩ := run_bind_eq_ok.mp hrun
    cases hrun
    have hsum := (Yields.ofExcept fun _ h => Cost.toNat_of_overflow_add h).of_run htotal
    show total.toNat = gas.toNat + (r.memory_total_gas.toNat - m.current_mem_gas.toNat) +
      provided.toNat
    omega
  | GasMemCopy gas mem_size copy =>
    obtain ⟨⟨cost, total, grown⟩, h₂, hmem, hrun⟩ := run_bind_eq_ok.mp hrun
    obtain ⟨words, h₃, hwords, hrun⟩ := run_bind_eq_ok.mp hrun
    obtain ⟨copied, h₄, hcopied, hrun⟩ := run_bind_eq_ok.mp hrun
    obtain ⟨sum, h₅, hsum, hrun⟩ := run_bind_eq_ok.mp hrun
    obtain ⟨whole, h₆, hwhole, hrun⟩ := run_bind_eq_ok.mp hrun
    cases hrun
    have hmem : cost.toNat = total.toNat - m.current_mem_gas.toNat :=
      (mem_gas_cost_deducts mem_size).of_run hmem
    have hwords := (Yields.ofExcept fun _ h => (toNat_of_to_word_size h).1).of_run hwords
    have hcopied := (Yields.ofExcept fun _ h => Cost.toNat_of_overflow_mul h).of_run hcopied
    have hsum := (Yields.ofExcept fun _ h => Cost.toNat_of_overflow_add h).of_run hsum
    have hwhole := (Yields.ofExcept fun _ h => Cost.toNat_of_overflow_add h).of_run hwhole
    show whole.toNat = gas.toNat +
      (Cost.from g.spec.copy_gas : Cost c).toNat * ((copy.toNat + 31) / 32) +
      (total.toNat - m.current_mem_gas.toNat) + 0
    rw [← hwords, ← hcopied]
    omega

end

end Gasometer

/-! ## The instructions -/

namespace Interpreter

section
variable {params : InterpreterParams} {code : Bytes} {gas : Cost c} {instruction : Instruction}
  {provided : Option (Cost c)}

/-- The memory has the same size. -/
def SameSize (l l' : Local) : Prop := l'.mem.length = l.mem.length

instance : Spares SameSize where
  refl _ := rfl
  trans _ _ _ h h' := Eq.trans h' h
  stack _ _ := rfl
  mem _ _ h := h
  return_data _ _ := rfl
  range _ _ := rfl

theorem exec_instruction_sameSize :
    Keeps (Beside SameSize) (exec_instruction g ctx params code gas instruction provided) := by
  by_cases hmoves : moves instruction = false
  · exact exec_other_spares hmoves code gas provided
  cases instruction
  case JUMP => exact .bind (onLocal_spares pop_back_spares) fun _ => .pure _
  case JUMPI =>
    exact .bind (onLocal_spares pop_back_spares) fun _ =>
      .bind (onLocal_spares pop_back_spares) fun _ =>
      .pure _
  case JUMPSUB =>
    exact .bind (.gets _) fun _ => .ite (fun _ => .fail _) fun _ =>
      .bind (onLocal_spares pop_back_spares) fun _ => .pure _
  case RETURNSUB =>
    refine .bind (.gets _) fun return_stack => ?_
    cases return_stack with
    | nil => exact .fail _
    | cons pos rest => exact .bind (update_spares _ fun _ => rfl) fun _ => .pure _
  case BEGINSUB => exact .fail _
  case PUSH =>
    refine plain_spares (.bind ?_ fun _ => push_spares _)
    exact .bind (.gets _) fun _ => .bind (.update fun _ => rfl) fun _ =>
      .bind (.assert _ _) fun _ =>
      .pure _
  all_goals exact absurd rfl hmoves

/-- A call that is trapped into saves one of the ranges of the instruction. -/
def SavesRange (instruction : Instruction) (stack : List U256)
    (r : Except VmError (InstructionResult c)) (p : Local × Host State) : Prop :=
  ∀ callee, r = .ok (.Trap (.Call callee)) →
    ∃ range ∈ ranges instruction stack, p.1.resume_output_range = some range

theorem exec_call_range (hcall : is_call instruction) {l : Local}
    (hargs : instruction.info.args ≤ l.stack.length) (h : Host State) :
    wp (exec_call g ctx params instruction provided) (fun _ => True)
      (SavesRange instruction l.stack) (l, h) := by
  obtain ⟨requested, to_, below, in_off, in_size, out_off, out_size, rest, hstack, hranges,
      -, hvalue⟩ :=
    call_operands hcall hargs
  refine wp_bind.mpr (wp_assert (fun _ => trivial) fun _ => ?_)
  refine wp_bind.mpr (wp_onLocal (wp_pop hstack (wp_bind.mpr ?_)))
  refine wp_expect (fun _ => trivial) fun call_gas _ => ?_
  refine wp_bind.mpr (wp_onLocal (wp_pop rfl (wp_bind.mpr (wp_onLocal ?_))))
  refine wp_mono (hvalue _ rfl) (fun _ _ => trivial) ?_
  rintro (e | value) _ rfl
  · exact fun _ hr => (nomatch hr)
  refine wp_bind.mpr (wp_onLocal (wp_pop rfl (wp_bind.mpr (wp_onLocal (wp_pop rfl ?_)))))
  refine wp_bind.mpr (wp_onLocal (wp_pop rfl (wp_bind.mpr (wp_onLocal (wp_pop rfl ?_)))))
  refine wp_bind.mpr (wp_expect (fun _ => trivial) fun gas _ => ?_)
  refine wp_bind.mpr (wp_zoom.mpr (wp_intro (fun _ _ => trivial) ?_))
  rintro (e | ⟨sender, receiver, has_balance, call_type⟩) h₁ -
  · exact fun _ hr => (nomatch hr)
  refine wp_bind.mpr (wp_onLocal (wp_update.mpr (wp_ite (fun _ => ?_) fun _ => ?_)))
  · refine wp_bind.mpr
      (wp_onLocal (wp_bind.mpr (wp_gets.mpr (wp_expect (fun _ => trivial) fun input _ => ?_))))
    refine wp_bind.mpr (wp_zoom.mpr (wp_intro (fun _ _ => trivial) ?_))
    rintro (e | trap) h₂ -
    · exact fun _ hr => (nomatch hr)
    refine wp_bind.mpr (wp_onLocal (wp_update.mpr ?_))
    rintro _ ⟨⟩
    refine ⟨(out_off, out_size), ?_, rfl⟩
    rw [hranges]
    exact List.mem_cons_of_mem _ (List.mem_singleton_self _)
  · refine wp_bind.mpr (wp_onLocal (wp_update.mpr ?_))
    exact fun _ hr => (nomatch hr)

/-- A creation asks for no range. -/
theorem exec_create_range (l : Local) (h : Host State) :
    wp (exec_create g ctx params instruction provided) (fun _ => True)
      (SavesRange instruction l.stack) (l, h) := by
  have htraps : Yields (fun result : InstructionResult c => ∀ callee, result ≠ .Trap (.Call callee))
      (exec_create g ctx params instruction provided) := by
    refine .seq fun _ => .seq fun _ => .seq fun _ => .seq fun _ => .seq fun _ =>
      .ite (fun _ => .fail _) fun _ => .seq fun _ => .seq fun _ => .ite (fun _ => ?_) fun _ => ?_
    · refine .seq fun _ => .bind (P := fun trap => ∀ callee, trap ≠ .Call callee) (.zoom ?_)
        fun trap htrap => .pure ?_
      · exact .seq fun _ => .seq fun _ => .pure fun _ h => (nomatch h)
      · rintro callee ⟨⟩
        exact htrap callee rfl
    · exact .seq fun _ => .pure fun _ h => (nomatch h)
  exact wp_post (htraps (l, h)) fun r p hr callee htrap => absurd rfl (hr _ htrap callee)

theorem exec_instruction_range {l : Local} (hargs : instruction.info.args ≤ l.stack.length)
    (h : Host State) :
    wp (exec_instruction g ctx params code gas instruction provided) (fun _ => True)
      (SavesRange instruction l.stack) (l, h) := by
  by_cases hcall : is_call instruction
  · have hrange : wp (exec_call g ctx params instruction provided) _ _ (l, h) :=
      exec_call_range hcall hargs h
    rcases hcall with rfl | rfl | rfl | rfl <;> exact hrange
  by_cases hcreate : instruction ≠ .CREATE ∧ instruction ≠ .CREATE2
  · refine wp_post (exec_other_traps hcall hcreate code gas provided (l, h)) ?_
    intro r p hr callee htrap
    exact absurd rfl (hr _ htrap _)
  · have hrange : wp (exec_create g ctx params instruction provided) _ _ (l, h) :=
      exec_create_range l h
    rw [not_and_or, not_not, not_not] at hcreate
    rcases hcreate with rfl | rfl <;> exact hrange

end

theorem exec_instruction_saves {params : InterpreterParams} {code : Bytes} {gas : Cost c}
    {instruction : Instruction} {provided : Option (Cost c)} {l : Local} {h : Host State}
    {r : Except VmError (InstructionResult c)} {p : Local × Host State}
    (hrun : (exec_instruction g ctx params code gas instruction provided).run (l, h) = .ok (r, p))
    (hargs : instruction.info.args ≤ l.stack.length) : SavesRange instruction l.stack r p :=
  wp_of_run (exec_instruction_range hargs h) hrun

/-! ## Runs -/

/-- The words that the next step touches, and the gas that it is charged for memory. -/
def expansion (g : Globals) (ctx : FrameContext) (i : Interpreter c) (h : Host State) : ℕ × ℕ :=
  match paying g ctx i h, i.gasometer with
  | some (instruction, req), some m =>
    (wordsNeeded instruction i.stack, req.memory_total_gas.toNat - m.current_mem_gas.toNat)
  | _, _ => (0, 0)

/-- The visited interpreters, with the number of the largest word that was touched on the way and
    the gas that was charged for memory. -/
inductive Accounted (g : Globals) (ctx : FrameContext) (i₀ : Interpreter c) :
    Interpreter c → ℕ → ℕ → Prop
  | start : Accounted g ctx i₀ i₀ 0 0
  | step {i i' : Interpreter c} {words charged : ℕ} {h h' : Host State}
      {r : Except VmError InterpreterResult} (hrun : Accounted g ctx i₀ i words charged)
      (hstep : (step g ctx).run (i, h) = .ok (r, (i', h'))) :
      Accounted g ctx i₀ i' (max words (expansion g ctx i h).1) (charged + (expansion g ctx i h).2)
  | call {i i' i'' : Interpreter c} {words charged : ℕ} {h h' : Host State} {params : ActionParams}
      {result : MessageCallResult} (hrun : Accounted g ctx i₀ i words charged)
      (hstep : (step g ctx).run (i, h) = .ok (.ok (.Trap (.Call params)), (i', h')))
      (hresume : i'.resume_call result = .ok i'') :
      Accounted g ctx i₀ i'' (max words (expansion g ctx i h).1) (charged + (expansion g ctx i h).2)
  | create {i i' i'' : Interpreter c} {words charged : ℕ} {h h' : Host State}
    {params : ActionParams}
      {result : ContractCreateResult} (hrun : Accounted g ctx i₀ i words charged)
      (hstep : (step g ctx).run (i, h) = .ok (.ok (.Trap (.Create params)), (i', h')))
      (hresume : i'.resume_create result = .ok i'') :
      Accounted g ctx i₀ i'' (max words (expansion g ctx i h).1) (charged + (expansion g ctx i h).2)

/-- All visited interpreters are accounted for. -/
theorem accounted_of_visits {i₀ i : Interpreter c} (h : Visits g ctx i₀ i) :
    ∃ words charged, Accounted g ctx i₀ i words charged := by
  induction h with
  | start => exact ⟨0, 0, .start⟩
  | step _ hstep ih =>
    obtain ⟨words, charged, hrun⟩ := ih
    exact ⟨_, _, hrun.step hstep⟩
  | call _ hstep hresume ih =>
    obtain ⟨words, charged, hrun⟩ := ih
    exact ⟨_, _, hrun.call hstep hresume⟩
  | create _ hstep hresume ih =>
    obtain ⟨words, charged, hrun⟩ := ih
    exact ⟨_, _, hrun.create hstep hresume⟩

/-- The gas for the memory is that of the words, and so is the memory, unless it has been
    returned. -/
structure InStep (spec : Spec) (i : Interpreter c) (words charged : ℕ) : Prop where
  resumable : i.Resumable
  small : words * 32 < 2 ^ 64
  gas : ∀ m, i.gasometer = some m →
    m.current_mem_gas.toNat = memGas spec (words * 32) ∧ charged = m.current_mem_gas.toNat
  mem : i.mem.length = words * 32 ∨ i.done = true ∧ i.mem = []

/-- What a step leaves, with the result `r`. -/
structure StepsOn (spec : Spec) (i : Interpreter c) (r : Except VmError InterpreterResult)
    (i' : Interpreter c) (words charged : ℕ) : Prop extends InStep spec i' words charged where
  grows : i.mem.length ≤ i'.mem.length ∨
    i'.mem = [] ∧ ∃ gas data apply, r = .ok (.Done (.ok (.NeedsReturn gas data apply)))
  waits : ∀ trap, r = .ok (.Trap trap) → i'.mem.length = words * 32
  range : ∀ callee, r = .ok (.Trap (.Call callee)) →
    ∃ range, i'.resume_output_range = some range ∧ FitsIn i'.mem.length range

section
variable {spec : Spec} {i : Interpreter c} {h : Host State} {words charged : ℕ}

theorem expansion_of_none (hnone : paying g ctx i h = none) : expansion g ctx i h = (0, 0) := by
  rw [expansion, hnone]

theorem expansion_of_pays {instruction : Instruction} {req : InstructionRequirements c}
    {m : Gasometer c} (hpays : paying g ctx i h = some (instruction, req))
    (hm : i.gasometer = some m) :
    expansion g ctx i h =
      (wordsNeeded instruction i.stack, req.memory_total_gas.toNat - m.current_mem_gas.toNat) := by
  rw [expansion, hpays, hm]

theorem running_of_pays {instruction : Instruction} {req : InstructionRequirements c}
    (hpays : paying g ctx i h = some (instruction, req)) : i.done = false := by
  unfold paying at hpays
  split at hpays
  · cases hpays
  · rename_i hidle
    rw [Bool.or_eq_true, not_or] at hidle
    exact Bool.eq_false_iff.mpr hidle.1

theorem requirements_of_pays {instruction : Instruction} {req : InstructionRequirements c}
    (hpays : paying g ctx i h = some (instruction, req)) : ∃ m h',
      (Gasometer.requirements g ctx m instruction i.stack i.mem.length).run h =
        .ok (.ok req, h') := by
  unfold paying at hpays
  split at hpays
  · cases hpays
  split at hpays
  · rename_i ins m hins hm
    split at hpays
    · cases hpays
    split at hpays
    · cases hpays
    split at hpays
    · rename_i req' h' hreq
      split at hpays
      · cases hpays
      · cases hpays
        exact ⟨m, h', hreq⟩
    · cases hpays
  · cases hpays

omit [Keccak] in
theorem InStep.paid (hi : InStep spec i words charged) (hrunning : i.done = false) {m : Gasometer c}
    (hm : i.gasometer = some m) : i.mem.length = words * 32 ∧
      Gasometer.MemoryPaid spec m i.mem.length := by
  have hmem : i.mem.length = words * 32 := by
    rcases hi.mem with hmem | ⟨hdone, -⟩
    · exact hmem
    · rw [hrunning] at hdone
      cases hdone
  refine ⟨hmem, ?_, ?_, ?_⟩
  · rw [hmem]
    exact Nat.mul_mod_left _ _
  · rw [hmem]
    exact hi.small
  · rw [hmem]
    exact (hi.gas m hm).1

/-- Nothing is charged without an instruction. -/
theorem InStep.idle (hi : InStep spec i words charged) (hnone : paying g ctx i h = none) :
    InStep spec i (max words (expansion g ctx i h).1) (charged + (expansion g ctx i h).2) := by
  rw [expansion_of_none hnone, Nat.max_eq_left (Nat.zero_le _)]
  exact hi

/-- An instruction that is executed gets the memory that it needs and is charged for it. -/
theorem fetch_inStep (hspec : g.spec.GenesisConstants) (hi : InStep g.spec i words charged)
    {r : Except VmError (InstructionResult c)} {p : Interpreter c × Host State}
    (hfetch : Fetch g ctx i h r p) :
    InStep g.spec p.1 (max words (expansion g ctx i h).1) (charged + (expansion g ctx i h).2) ∧
      i.mem.length ≤ p.1.mem.length ∧
      (∀ result, r = .ok result → p.1.mem.length = max words (expansion g ctx i h).1 * 32) ∧
      ∀ callee, r = .ok (.Trap (.Call callee)) →
        ∃ range, p.1.resume_output_range = some range ∧ FitsIn p.1.mem.length range := by
  cases hfetch with
  | refused hnone =>
    have hidle := hi.idle hnone
    exact ⟨⟨hidle.resumable, hidle.small, hidle.gas, hidle.mem⟩, le_refl _, fun _ hr =>
      (nomatch hr),
      fun _ hr => (nomatch hr)⟩
  | executed hpays hargs hroom hm hreq hexec hgas =>
    rename_i instruction m req current_gas h₁ h' l'
    obtain ⟨hmem, hpaid⟩ := hi.paid (running_of_pays hpays) hm
    have hexpands := (Gasometer.requirements_expands hspec hpaid).of_run hreq
    have hcovers := ((Gasometer.requirements_covers m i.mem.length).of_run hreq).2
    have hkept : l'.mem.length = (Memory.expand i.mem req.memory_required_size).length :=
      exec_instruction_sameSize.of_run hexec
    rw [Memory.length_expand] at hkept
    have hmax : max i.mem.length req.memory_required_size =
        max words (wordsNeeded instruction i.stack) * 32 := by
      rw [hmem, hexpands.size_eq]
      omega
    rw [expansion_of_pays hpays hm]
    refine ⟨⟨hi.resumable, ?_, ?_, .inl (hkept.trans hmax)⟩, ?_, fun _ _ => hkept.trans hmax, ?_⟩
    · show max words (wordsNeeded instruction i.stack) * 32 < 2 ^ 64
      rw [← hmax]
      exact max_lt hpaid.small hexpands.small
    · rintro _ ⟨⟩
      obtain ⟨hgas, hcharged⟩ := hi.gas m hm
      have htotal := hexpands.total
      have hmono := memGas_mono g.spec (le_max_left i.mem.length req.memory_required_size)
      rw [← htotal, ← hpaid.gas] at hmono
      rw [hmax] at htotal
      exact ⟨htotal, by show charged + _ = req.memory_total_gas.toNat; omega⟩
    · show i.mem.length ≤ l'.mem.length
      rw [hkept]
      exact le_max_left _ _
    · intro callee hr
      have hsaves := exec_instruction_saves hexec hargs
      obtain ⟨range, hrange, hsaved⟩ := hsaves callee hr
      refine ⟨range, hsaved, (hcovers range hrange).mono ?_⟩
      show req.memory_required_size ≤ l'.mem.length
      rw [hkept]
      exact le_max_right _ _

/-- What is charged for the expansion is deducted from the gas, beside the price of what the
    instruction requests and the gas that it provides. -/
theorem fetch_deducts {r : Except VmError (InstructionResult c)} {p : Interpreter c × Host State}
    (hfetch : Fetch g ctx i h r p) {instruction : Instruction} {req : InstructionRequirements c}
    (hpays : paying g ctx i h = some (instruction, req)) :
    ∃ (asked : Request c) (h₁ : Host State),
      (Gasometer.request g ctx instruction i.stack).run h = .ok (.ok asked, h₁) ∧
      p.1.gas + (asked.price g.spec + (expansion g ctx i h).2 +
        (req.provide_gas.map BitVec.toNat).getD 0) = i.gas := by
  cases hfetch with
  | refused hnone =>
    rw [hpays] at hnone
    cases hnone
  | @executed _ m _ current_gas _ _ _ _ hpays' hargs hroom hm hreq hexec hgas =>
    obtain ⟨rfl, rfl⟩ := Prod.mk.inj (Option.some_inj.mp (hpays.symm.trans hpays'))
    obtain ⟨asked, h₁, hasked, hcost⟩ := Gasometer.requirements_deducts hreq
    refine ⟨asked, h₁, hasked, ?_⟩
    have hgas := Cost.toNat_of_checked_sub hgas
    rw [expansion_of_pays hpays hm]
    have hbefore : i.gas = m.current_gas.toNat := by rw [gas, hm]
    show current_gas.toNat + _ = i.gas
    omega

omit [Keccak] in
/-- Moving on changes neither, unless the memory is returned. -/
theorem movesOn_stepsOn {result : InstructionResult c} {p q : Interpreter c × Host State}
    {r : Except VmError InterpreterResult} (hmoves : MovesOn result p r q)
    (hdone : ∀ ended, r = .ok (.Done ended) → q.1.done = true)
    (hp : InStep spec p.1 words charged) (hgrows : i.mem.length ≤ p.1.mem.length)
    (hmem : p.1.mem.length = words * 32)
    (hrange : ∀ callee, result = .Trap (.Call callee) →
      ∃ range, p.1.resume_output_range = some range ∧ FitsIn p.1.mem.length range) :
    StepsOn spec i r q.1 words charged := by
  refine ⟨⟨?_, hp.small, ?_, ?_⟩, ?_, ?_, ?_⟩
  · rw [Resumable, hmoves.resume]
    exact hp.resumable
  · intro m hm
    have hgas := hmoves.gas
    rw [hm] at hgas
    obtain ⟨m', hm', heq⟩ := Option.map_eq_some_iff.mp hgas.symm
    rw [← heq]
    exact hp.gas m' hm'
  · rcases hmoves.mem with hsame | ⟨hempty, gas, data, apply, hr⟩
    · rw [hsame]
      exact .inl hmem
    · exact .inr ⟨hdone _ hr, hempty⟩
  · rcases hmoves.mem with hsame | hreturned
    · rw [hsame]
      exact .inl hgrows
    · exact .inr hreturned
  · rintro trap rfl
    rcases hmoves.mem with hsame | ⟨-, _, _, _, hr⟩
    · rw [hsame]
      exact hmem
    · cases hr
  · rintro callee rfl
    rcases hmoves.mem with hsame | ⟨-, _, _, _, hr⟩
    · rw [hsame, hmoves.range]
      exact hrange callee (hmoves.traps _ rfl)
    · cases hr

/-- A step keeps the memory and its gas in step. -/
theorem stepped_stepsOn (hspec : g.spec.GenesisConstants) (hi : InStep g.spec i words charged)
    {r : Except VmError InterpreterResult} {q : Interpreter c × Host State}
    (hstep : Stepped g ctx i h r q) :
    StepsOn g.spec i r q.1 (max words (expansion g ctx i h).1)
      (charged + (expansion g ctx i h).2) := by
  cases hstep with
  | idle hdone hr hnone =>
    have hidle := hi.idle hnone
    refine ⟨⟨hidle.resumable, hidle.small, hidle.gas, hidle.mem.imp id fun h => ⟨hdone h.1, h.2⟩⟩,
      .inl (le_refl _), fun trap h => absurd h (hr trap), fun callee h => absurd h (hr _)⟩
  | failed hfetch =>
    obtain ⟨hp, hgrows, -, -⟩ := fetch_inStep hspec hi hfetch
    exact ⟨⟨hp.resumable, hp.small, hp.gas, hp.mem.imp id fun h => ⟨rfl, h.2⟩⟩, .inl hgrows,
      fun _ h => (nomatch h), fun _ h => (nomatch h)⟩
  | executed hfetch hmoves hdone =>
    obtain ⟨hp, hgrows, hmem, hrange⟩ := fetch_inStep hspec hi hfetch
    exact movesOn_stepsOn hmoves hdone hp hgrows (hmem _ rfl) fun callee hr =>
      hrange callee (congrArg Except.ok hr)
  | resumed hresume hrunning hnone hmoves hdone =>
    have hidle := hi.idle hnone
    refine movesOn_stepsOn hmoves hdone ⟨.inl rfl, hidle.small, hidle.gas,
      hidle.mem⟩ (le_refl _) ?_ ?_
    · rcases hidle.mem with hmem | ⟨hover, -⟩
      · exact hmem
      · rw [hrunning] at hover
        cases hover
    · -- A trap is not among the results that are waited for.
      rintro callee rfl
      rcases hi.resumable with hnone | hok | ⟨gas, hgas⟩
      · cases hnone.symm.trans hresume
      · cases hok.symm.trans hresume
      · cases hgas.symm.trans hresume

omit [Keccak] in
/-- So does a resumption. -/
theorem StepsOn.resumed {r : Except VmError InterpreterResult} {i' i'' : Interpreter c}
    (hsteps : StepsOn spec i r i' words charged) {trap : TrapKind} (hr : r = .ok (.Trap trap))
    (htook : TookUp i' i'') (hresumed : Resumed i' i'') : InStep spec i'' words charged := by
  refine ⟨hresumed.resumable, hsteps.small, ?_, .inl (htook.mem.trans (hsteps.waits trap hr))⟩
  rw [htook.gas]
  exact hsteps.gas

theorem accounted_inStep (hspec : g.spec.GenesisConstants) {i₀ : Interpreter c}
    (h₀ : InStep g.spec i₀ 0 0) (hrun : Accounted g ctx i₀ i words charged) :
    InStep g.spec i words charged := by
  have hsteps : ∀ {i i' : Interpreter c} {h h' : Host State} {r : Except VmError InterpreterResult}
      {words charged : ℕ}, InStep g.spec i words charged →
      (Interpreter.step g ctx).run (i, h) = .ok (r, (i', h')) → StepsOn g.spec i r i' _ _ :=
    fun hi hstep => stepped_stepsOn hspec hi (wp_of_run (step_stepped _ _) hstep)
  induction hrun with
  | start => exact h₀
  | step _ hstep ih => exact (hsteps ih hstep).toInStep
  | call _ hstep hresume ih =>
    exact (hsteps ih hstep).resumed rfl (resume_call_tookUp hresume) (resume_call_resumed hresume)
  | create _ hstep hresume ih =>
    exact (hsteps ih hstep).resumed rfl (resume_create_tookUp hresume)
      (resume_create_resumed hresume)

omit [Keccak] in
theorem inStep_new (params : ActionParams) (code : Bytes) :
    InStep spec (new params code : Interpreter c) 0 0 := by
  refine ⟨.inl rfl, by decide, ?_, .inl rfl⟩
  intro m hm
  have hzero : m.current_mem_gas.toNat = 0 := by
    unfold new at hm
    simp only at hm
    split at hm
    · cases hm
      exact Cost.toNat_from (by decide)
    · cases hm
  rw [hzero, memGas]
  simp

omit [Keccak] in
theorem memGas_words (hspec : spec.GenesisConstants) (words : ℕ) :
    memGas spec (words * 32) = 3 * words + words * words / 512 := by
  have hmem : spec.memory_gas = 3 := congrArg Spec.memory_gas hspec
  rw [memGas, hmem, Nat.mul_div_cancel _ (by decide), Nat.mul_comm words 3]

/-- The price of the memory that there is. -/
def MemoryGas (i : Interpreter c) : Prop :=
  i.mem.length % 32 = 0 ∧ ∀ m, i.gasometer = some m → m.current_mem_gas.toNat =
    3 * (i.mem.length / 32) + i.mem.length / 32 * (i.mem.length / 32) / 512

omit [Keccak] in
theorem InStep.memoryGas (hspec : spec.GenesisConstants) (hi : InStep spec i words charged) :
    MemoryGas i ∨ i.done = true ∧ i.mem = [] := by
  refine hi.mem.imp (fun hmem => ⟨?_, fun m hm => ?_⟩) id
  · rw [hmem]
    exact Nat.mul_mod_left _ _
  · rw [(hi.gas m hm).1, hmem, memGas_words hspec, Nat.mul_div_cancel _ (by decide)]

/-- The memory and its gas stay in step. The memory is as large as the largest word that was
    touched, in whatever order, and the gas charged for it is the price of that; both hold in every
    interpreter that is reached. Only `RETURN` and `REVERT` take the memory away, and then nothing
    is executed any more. The subtraction of the gas that was paid before does not underflow, a step
    does not make the memory smaller, the ranges of an instruction lie in the memory that it gets,
    and so does the range for the output of a call. -/
theorem memory_and_gas_stay_in_step (hspec : g.spec.GenesisConstants) {params : ActionParams}
    {code : Bytes} (hrun : Accounted g ctx (new params code) i words charged) :
    (MemoryGas i ∨ i.done = true ∧ i.mem = []) ∧
    (i.mem.length = 32 * words ∨ i.done = true ∧ i.mem = []) ∧
    (∀ m, i.gasometer = some m →
      charged = m.current_mem_gas.toNat ∧ charged = 3 * words + words * words / 512) ∧
    (∀ m, i.gasometer = some m → i.done = false →
      ∀ (mem_size : Cost c) (h : Host State) (p : Panic),
      (m.growth_cost g.spec i.mem.length mem_size).run h ≠ .error p) ∧
    ∀ h r i' h', (step g ctx).run (i, h) = .ok (r, (i', h')) →
      (i.mem.length ≤ i'.mem.length ∨
        i'.mem = [] ∧ ∃ gas data apply, r = .ok (.Done (.ok (.NeedsReturn gas data apply)))) ∧
      (∀ instruction req, paying g ctx i h = some (instruction, req) →
        ∀ range ∈ ranges instruction i.stack,
          FitsIn (Memory.expand i.mem req.memory_required_size).length range) ∧
      ∀ callee, r = .ok (.Trap (.Call callee)) →
        ∃ range, i'.resume_output_range = some range ∧ FitsIn i'.mem.length range := by
  have hi := accounted_inStep hspec (inStep_new params code) hrun
  refine ⟨hi.memoryGas hspec, ?_, fun m hm => ?_, fun m hm hrunning mem_size h p hpanic => ?_, ?_⟩
  · rw [Nat.mul_comm]
    exact hi.mem
  · obtain ⟨hgas, hcharged⟩ := hi.gas m hm
    rw [memGas_words hspec] at hgas
    exact ⟨hcharged, hcharged.trans hgas⟩
  · have hsafe : wp (m.growth_cost g.spec i.mem.length mem_size) (fun _ => False) _ h :=
      Gasometer.growth_cost_exact hspec (hi.paid hrunning hm).2 mem_size
    exact wp_of_panic hsafe hpanic
  · intro h r i' h' hstep
    have hsteps := stepped_stepsOn hspec hi (wp_of_run (step_stepped i h) hstep)
    refine ⟨hsteps.grows, fun instruction req hpays range hrange => ?_, hsteps.range⟩
    obtain ⟨m, h₁, hreq⟩ := requirements_of_pays hpays
    have hfits := ((Gasometer.requirements_covers m i.mem.length).of_run hreq).2 range hrange
    refine hfits.mono ?_
    rw [Memory.length_expand]
    exact le_max_right _ _

end

end Interpreter

end

namespace Interpreter

section
attribute [local instance] keccakOfEmpty

/-- Code that writes the second word of the memory and returns the first one: `PUSH1 0`, `PUSH1 32`,
    `MSTORE`, `PUSH1 32`, `PUSH1 0`, `RETURN`. -/
def returningCode : Bytes := [0x60, 0x00, 0x60, 0x20, 0x52, 0x60, 0x20, 0x60, 0x00, 0xf3]

/-- After the write there are two words, for which six units of gas have been charged. -/
theorem two_words_are_charged :
    ∃ (i : Interpreter .usize) (m : Gasometer .usize),
      Accounted bareMachine subroutineContext (new subroutineCall returningCode) i 2 6 ∧
      i.gasometer = some m ∧ m.current_mem_gas.toNat = 6 ∧ i.mem.length = 64 := by
  have hstart : Accounted bareMachine subroutineContext
    (new subroutineCall returningCode : Interpreter .usize) _ 0 0 := .start
  have hvalue := hstart.step (h := emptyHost) rfl
  have hoffset := hvalue.step (h := emptyHost) rfl
  have hstore : ∃ i : Interpreter .usize, Accounted bareMachine subroutineContext
      (new subroutineCall returningCode) i 2 6 ∧ i.gasometer.isSome ∧ i.done = false :=
    ⟨_, hoffset.step (h := emptyHost) rfl, rfl, rfl⟩
  obtain ⟨i, hrun, hgasometer, hrunning⟩ := hstore
  obtain ⟨m, hm⟩ := Option.isSome_iff_exists.mp hgasometer
  have hspec : bareMachine.spec.GenesisConstants := by decide
  obtain ⟨-, hmem, hgas, -⟩ := memory_and_gas_stay_in_step hspec hrun
  refine ⟨i, m, hrun, hm, (hgas m hm).1.symm, hmem.resolve_right fun hdone => ?_⟩
  exact absurd hdone.1 (by rw [hrunning]; decide)

/-- After the return the memory is empty, and the gas for two words is still that of the memory. -/
theorem returned_memory_is_out_of_step :
    ∃ i : Interpreter .usize, Visits bareMachine subroutineContext
      (new subroutineCall returningCode) i ∧
      ¬MemoryGas i := by
  have hstart : Visits bareMachine subroutineContext
    (new subroutineCall returningCode : Interpreter .usize) _ := .start
  have hvalue := hstart.step (h := emptyHost) rfl
  have hoffset := hvalue.step (h := emptyHost) rfl
  have hstore := hoffset.step (h := emptyHost) rfl
  have hsize := hstore.step (h := emptyHost) rfl
  have hfrom := hsize.step (h := emptyHost) rfl
  have hreturned : ∃ (i : Interpreter .usize) (m : Gasometer .usize),
      Visits bareMachine subroutineContext (new subroutineCall returningCode) i ∧
      i.gasometer = some m ∧ m.current_mem_gas.toNat = 6 ∧ i.mem = [] :=
    ⟨_, _, hfrom.step (h := emptyHost) rfl, rfl, rfl, rfl⟩
  obtain ⟨i, m, hvisits, hm, hgas, hmem⟩ := hreturned
  refine ⟨i, hvisits, fun hprice => ?_⟩
  have hzero := hprice.2 m hm
  rw [hgas, hmem] at hzero
  exact absurd hzero (by decide)

end

end Interpreter

end CfxEvm
