import CfxEvm.Evm.Proofs.ArithProofs
import CfxEvm.Evm.Proofs.RequirementProofs

/-!
# Proofs: an instruction does not panic

The table of the instructions says how many operands an instruction finds on the stack and how many
it leaves there, and the ranges of the memory that it uses have been made room for. So no access of
an instruction is out of range.
-/

open Lib Lib.Prog

namespace CfxEvm

variable [Keccak] {g : Globals} {ctx : FrameContext}

namespace Interpreter

section
variable {c : CostType} {E : Panic → Prop} {l : Local} {h : Host State}

section
omit [Keccak]

theorem exists_cons_of_le {n : Nat} {stack : List U256} (hn : n + 1 ≤ stack.length) :
    ∃ top rest, stack = top :: rest ∧ n ≤ rest.length := by
  cases stack with
  | nil => cases hn
  | cons top rest => exact ⟨top, rest, rfl, Nat.le_of_succ_le_succ hn⟩

theorem wp_pop {Q : Except VmError U256 → Local → Prop} {top : U256} {rest : List U256}
    (hs : l.stack = top :: rest) (hq : Q (.ok top) { l with stack := rest }) :
    wp Local.pop_back E Q l := by
  refine wp_bind.mpr (wp_gets.mpr ?_)
  rw [hs]
  exact hq

theorem wp_onLocal {α : Type} {x : LocalM α} {Q : Except VmError α → Local × Host State → Prop}
    (hx : wp x E (fun r l' => Q r (l', h)) l) : wp (onLocal x) E Q (l, h) := wp_zoom.mpr hx

end

/-- What the result of an instruction is good for. -/
def ResultSafe (instruction : Instruction) (l l' : Local) : InstructionResult c → Prop
  | .Trap (.Call _) =>
    l'.stack.length + instruction.info.args + 1 ≤ l.stack.length + instruction.info.ret ∧
      ∃ range, l'.resume_output_range = some range ∧ FitsIn l'.mem.length range
  | .Trap (.Create _) =>
    l'.stack.length + instruction.info.args + 1 ≤ l.stack.length + instruction.info.ret
  | .StopExecutionNeedsReturn _ init_off init_size _ => FitsIn l'.mem.length (init_off, init_size)
  | .StopExecution => True
  | _ => l'.stack.length + instruction.info.args ≤ l.stack.length + instruction.info.ret

/-- What an instruction leaves: a memory of the same size, return data that can be read, and a
    stack as the table of the instructions says. -/
def Executed (instruction : Instruction) (l : Local) (r : Except VmError (InstructionResult c))
    (p : Local × Host State) : Prop :=
  ∀ result, r = .ok result → p.1.mem.length = l.mem.length ∧ p.1.return_data.Readable ∧
    ResultSafe instruction l p.1 result

section
omit [Keccak]

theorem executed_error {instruction : Instruction} {e : VmError} {p : Local × Host State} :
    Executed (c := c) instruction l (.error e) p := fun _ hr => (nomatch hr)

theorem executed_ok {instruction : Instruction} {result : InstructionResult c}
    {p : Local × Host State} (hmem : p.1.mem.length = l.mem.length)
    (hreturn : p.1.return_data.Readable) (hsafe : ResultSafe instruction l p.1 result) :
    Executed instruction l (.ok result) p := by
  rintro _ ⟨⟩
  exact ⟨hmem, hreturn, hsafe⟩

/-- An instruction that works on the local part alone. -/
theorem wp_plain {instruction : Instruction} {x : LocalM Unit}
    (hx : wp x E (fun r l' => r = .ok () → l'.mem.length = l.mem.length ∧
      l'.return_data.Readable ∧
      l'.stack.length + instruction.info.args ≤ l.stack.length + instruction.info.ret) l) :
    wp (plain x) E (Executed (c := c) instruction l) (l, h) := by
  refine wp_bind.mpr (wp_onLocal (wp_post hx ?_))
  rintro (e | _) l' hl'
  · exact executed_error
  · obtain ⟨hmem, hreturn, hstack⟩ := hl' rfl
    exact executed_ok hmem hreturn hstack

theorem constant_safe {instruction : Instruction} (hread : l.return_data.Readable)
    (hargs : instruction.info.args = 0) (hret : instruction.info.ret = 1) (value : U256) :
    wp (constant value) E (Executed (c := c) instruction l) (l, h) := by
  refine wp_plain fun _ => ⟨rfl, hread, ?_⟩
  rw [hargs, hret]
  exact le_refl _

theorem binary_safe {instruction : Instruction} (hread : l.return_data.Readable)
    (hargs : instruction.info.args = 2) (hret : instruction.info.ret = 1)
    (hstack : instruction.info.args ≤ l.stack.length) (f : U256 → U256 → U256) :
    wp (binary f) E (Executed (c := c) instruction l) (l, h) := by
  rw [hargs] at hstack
  obtain ⟨a, rest, hs, hrest⟩ := exists_cons_of_le hstack
  obtain ⟨b, rest', rfl, -⟩ := exists_cons_of_le hrest
  refine wp_plain (wp_bind.mpr (wp_pop hs (wp_bind.mpr (wp_pop rfl ?_))))
  refine fun _ => ⟨rfl, hread, ?_⟩
  rw [hargs, hret, hs]
  simp

theorem query_safe {α : Type} {instruction : Instruction} {read : Address → HostM α}
    (hread : l.return_data.Readable) (hargs : instruction.info.args = 1)
    (hret : instruction.info.ret = 1) (hstack : instruction.info.args ≤ l.stack.length)
    (hquery : ∀ a, wp (read a) E (fun _ _ => True) h) (f : α → U256) :
    wp (query read f) E (Executed (c := c) instruction l) (l, h) := by
  rw [hargs] at hstack
  obtain ⟨a, rest, hs, -⟩ := exists_cons_of_le hstack
  refine wp_bind.mpr (wp_onLocal (wp_pop hs (wp_bind.mpr (wp_zoom.mpr (wp_post (hquery _) ?_)))))
  rintro (e | answer) h' -
  · exact executed_error
  · refine executed_ok rfl hread ?_
    simp only [ResultSafe, hargs, hret, hs, List.length_cons]
    exact le_refl _

end

end

section
variable {params : InterpreterParams} {I : Host State → Prop} {instruction : Instruction}
  {l : Local}
  {h : Host State}

section
omit [Keccak]

theorem wp_read_slice {E : Panic → Prop} {offset size : U256}
    {Q : Except VmError Bytes → Local → Prop}
    (hfits : FitsIn l.mem.length (offset, size)) (hmem : l.mem.length < 2 ^ 64)
    (hq : ∀ bytes, Q (.ok bytes) l) : wp (Local.read_slice offset size) E Q l := by
  have hread := Memory.read_slice_of_fits hfits hmem
  refine wp_bind.mpr (wp_gets.mpr ?_)
  simp only [hread]
  exact hq _

theorem wp_pop_address_scheme {E : Panic → Prop}
    {Q : Except VmError CreateContractAddress → Local → Prop}
    {salt : U256} {rest : List U256}
    (hs : l.stack = if instruction = .CREATE2 then salt :: rest else rest)
    (hq : ∀ scheme, Q (.ok scheme) { l with stack := rest }) :
    wp (pop_address_scheme instruction) E Q l := by
  unfold pop_address_scheme
  split at hs
  · rename_i hcreate2
    rw [if_pos hcreate2]
    exact wp_bind.mpr (wp_pop hs (hq _))
  · rename_i hcreate
    rw [if_neg hcreate]
    subst hs
    exact hq _

/-- The operands of a creation. -/
theorem create_operands (hcreate : instruction = .CREATE ∨ instruction = .CREATE2)
    {stack : List U256} (hstack : instruction.info.args ≤ stack.length) :
    ∃ endowment init_off init_size salt rest,
      stack = endowment :: init_off :: init_size ::
        (if instruction = .CREATE2 then salt :: rest else rest) ∧
      ranges instruction stack = [(init_off, init_size)] ∧
      rest.length + instruction.info.args + 1 ≤ stack.length + instruction.info.ret := by
  rcases hcreate with rfl | rfl
  · obtain ⟨a, rest₁, rfl, hrest₁⟩ := exists_cons_of_le (n := 2) hstack
    obtain ⟨b, rest₂, rfl, hrest₂⟩ := exists_cons_of_le hrest₁
    obtain ⟨d, rest₃, rfl, -⟩ := exists_cons_of_le hrest₂
    exact ⟨a, b, d, 0, rest₃, rfl, rfl, le_refl _⟩
  · obtain ⟨a, rest₁, rfl, hrest₁⟩ := exists_cons_of_le (n := 3) hstack
    obtain ⟨b, rest₂, rfl, hrest₂⟩ := exists_cons_of_le hrest₁
    obtain ⟨d, rest₃, rfl, hrest₃⟩ := exists_cons_of_le hrest₂
    obtain ⟨salt, rest₄, rfl, -⟩ := exists_cons_of_le hrest₃
    exact ⟨a, b, d, salt, rest₄, rfl, rfl, le_refl _⟩

end

theorem exec_create_safe (hcreate : instruction = .CREATE ∨ instruction = .CREATE2)
    (hans : Answers g ctx (some instruction) l.stack I) (hh : I h)
    (hstack : instruction.info.args ≤ l.stack.length) (hmem : l.mem.length < 2 ^ 64)
    (hfits : ∀ range ∈ ranges instruction l.stack, FitsIn l.mem.length range)
    {provided : Option (Cost .usize)} (hprov : provided.isSome) :
    wp (exec_create g ctx params instruction provided) (fun _ => False) (Executed instruction l)
      (l, h) := by
  obtain ⟨gas, rfl⟩ := Option.isSome_iff_exists.mp hprov
  obtain ⟨endowment, init_off, init_size, salt, rest, hs, hranges, hlen⟩ :=
    create_operands hcreate hstack
  have hfits' : FitsIn l.mem.length (init_off, init_size) := by
    refine hfits _ ?_
    rw [hranges]
    exact List.mem_singleton_self _
  refine wp_bind.mpr (wp_onLocal (wp_pop hs (wp_bind.mpr (wp_onLocal (wp_pop rfl ?_)))))
  refine wp_bind.mpr (wp_onLocal (wp_pop rfl (wp_bind.mpr (wp_onLocal ?_))))
  refine wp_pop_address_scheme rfl fun scheme => wp_bind.mpr ?_
  refine wp_pure.mpr (wp_ite (fun _ => executed_error) fun _ => wp_bind.mpr (wp_onLocal ?_))
  refine wp_update.mpr (wp_bind.mpr (wp_zoom.mpr (wp_post (hans.balance _ h hh) ?_)))
  rintro (e | balance) h₁ hh₁
  · exact executed_error
  refine wp_ite (fun _ => ?_) fun _ => ?_
  · refine wp_bind.mpr (wp_onLocal (wp_read_slice hfits' hmem fun code => ?_))
    have hins : some instruction = some .CREATE ∨ some instruction = some .CREATE2 :=
      hcreate.imp (congrArg some) (congrArg some)
    have htrap : Yields (fun trap => ∃ params, trap = .Create params)
        (Context.create g ctx (Cost.as_u256 gas) endowment code scheme) :=
      .seq fun _ => .seq fun _ => .pure ⟨_, rfl⟩
    refine wp_bind.mpr (wp_zoom.mpr (wp_post (wp_and (hans.create hins _ _ _ _ h₁ hh₁)
      (htrap h₁)) ?_))
    rintro (e | trap) h₂ ⟨-, htrap⟩
    · exact executed_error
    · obtain ⟨params, rfl⟩ := htrap trap rfl
      exact executed_ok rfl ReturnData.readable_empty hlen
  · refine wp_bind.mpr (wp_onLocal ?_)
    refine executed_ok rfl ReturnData.readable_empty ?_
    show rest.length + 1 + instruction.info.args ≤ l.stack.length + instruction.info.ret
    omega

omit [Keccak] in
/-- The operands of a call, and what its value leaves of them. -/
theorem call_operands (hcall : is_call instruction) {stack : List U256}
    (hstack : instruction.info.args ≤ stack.length) :
    ∃ requested to_ below in_off in_size out_off out_size rest,
      stack = requested :: to_ :: below ∧
      ranges instruction stack = [(in_off, in_size), (out_off, out_size)] ∧
      rest.length + instruction.info.args + 1 ≤ stack.length + instruction.info.ret ∧
      ∀ l : Local, l.stack = below → wp (call_value instruction) (fun _ => False) (fun _ l' =>
        l' = { l with stack := in_off :: in_size :: out_off :: out_size :: rest }) l := by
  have hfour : ∀ {stack : List U256}, 4 ≤ stack.length →
      ∃ in_off in_size out_off out_size rest,
        stack = in_off :: in_size :: out_off :: out_size :: rest := by
    intro stack hstack
    obtain ⟨a, rest₁, rfl, hrest₁⟩ := exists_cons_of_le (n := 3) hstack
    obtain ⟨b, rest₂, rfl, hrest₂⟩ := exists_cons_of_le hrest₁
    obtain ⟨d, rest₃, rfl, hrest₃⟩ := exists_cons_of_le hrest₂
    obtain ⟨e, rest₄, rfl, -⟩ := exists_cons_of_le hrest₃
    exact ⟨a, b, d, e, rest₄, rfl⟩
  rcases hcall with rfl | rfl | rfl | rfl
  · obtain ⟨requested, rest₁, rfl, hrest₁⟩ := exists_cons_of_le (n := 6) hstack
    obtain ⟨to_, rest₂, rfl, hrest₂⟩ := exists_cons_of_le hrest₁
    obtain ⟨value, rest₃, rfl, hrest₃⟩ := exists_cons_of_le hrest₂
    obtain ⟨in_off, in_size, out_off, out_size, rest, rfl⟩ := hfour hrest₃
    refine ⟨requested, to_, _, in_off, in_size, out_off, out_size, rest, rfl, rfl, le_refl _, ?_⟩
    exact fun l hl => wp_bind.mpr (wp_pop hl rfl)
  · obtain ⟨requested, rest₁, rfl, hrest₁⟩ := exists_cons_of_le (n := 6) hstack
    obtain ⟨to_, rest₂, rfl, hrest₂⟩ := exists_cons_of_le hrest₁
    obtain ⟨value, rest₃, rfl, hrest₃⟩ := exists_cons_of_le hrest₂
    obtain ⟨in_off, in_size, out_off, out_size, rest, rfl⟩ := hfour hrest₃
    refine ⟨requested, to_, _, in_off, in_size, out_off, out_size, rest, rfl, rfl, le_refl _, ?_⟩
    exact fun l hl => wp_bind.mpr (wp_pop hl rfl)
  · obtain ⟨requested, rest₁, rfl, hrest₁⟩ := exists_cons_of_le (n := 5) hstack
    obtain ⟨to_, rest₂, rfl, hrest₂⟩ := exists_cons_of_le hrest₁
    obtain ⟨in_off, in_size, out_off, out_size, rest, rfl⟩ := hfour hrest₂
    refine ⟨requested, to_, _, in_off, in_size, out_off, out_size, rest, rfl, rfl, le_refl _, ?_⟩
    intro l hl
    obtain ⟨mem, position, return_data, stack, return_stack, range⟩ := l
    subst hl
    exact (rfl : _ = _)
  · obtain ⟨requested, rest₁, rfl, hrest₁⟩ := exists_cons_of_le (n := 5) hstack
    obtain ⟨to_, rest₂, rfl, hrest₂⟩ := exists_cons_of_le hrest₁
    obtain ⟨in_off, in_size, out_off, out_size, rest, rfl⟩ := hfour hrest₂
    refine ⟨requested, to_, _, in_off, in_size, out_off, out_size, rest, rfl, rfl, le_refl _, ?_⟩
    intro l hl
    obtain ⟨mem, position, return_data, stack, return_stack, range⟩ := l
    subst hl
    exact (rfl : _ = _)

theorem call_target_safe (hans : Answers g ctx (some instruction) l.stack I) (hh : I h)
    (code_address : Address) (value : Option U256) :
    wp (call_target ctx params instruction code_address value) (fun _ => False) (fun _ => I) h := by
  unfold call_target
  split
  · refine wp_ite (fun _ => hh) fun _ => wp_bind.mpr (wp_post (hans.balance _ h hh) ?_)
    rintro (e | _) h' hh' <;> exact hh'
  · refine wp_bind.mpr (wp_post (hans.balance _ h hh) ?_)
    rintro (e | _) h' hh' <;> exact hh'
  · exact hh
  · exact hh

theorem context_call_safe (hans : Answers g ctx (some instruction) l.stack I) (hh : I h)
    (gas : U256) (sender receiver : Address) (value : Option U256) (data : Bytes)
    (code_address : Address) (call_type : CallType) :
    wp (Context.call g ctx gas sender receiver value data code_address call_type) (fun _ => False)
      (fun r _ => ∀ trap, r = .ok trap → ∃ params, trap = .Call params) h := by
  refine wp_bind.mpr (wp_post (hans.extcode _ h hh) ?_)
  rintro (e | code) h₁ ⟨hh₁, -⟩
  · exact fun _ h => (nomatch h)
  refine wp_bind.mpr (wp_post (hans.extcodehash _ h₁ hh₁) ?_)
  rintro (e | hash) h₂ -
  · exact fun _ h => (nomatch h)
  · rintro _ ⟨⟩
    exact ⟨_, rfl⟩

theorem exec_call_safe (hspec : g.spec.GenesisConstants) (hcall : is_call instruction)
    (hans : Answers g ctx (some instruction) l.stack I) (hh : I h)
    (hstack : instruction.info.args ≤ l.stack.length) (hmem : l.mem.length < 2 ^ 64)
    (hfits : ∀ range ∈ ranges instruction l.stack, FitsIn l.mem.length range)
    {provided : Option (Cost .usize)} (hprov : provided.isSome)
    (hgas : (provided.map BitVec.toNat).getD 0 + price_floor g.spec instruction l.stack < 2 ^ 64) :
    wp (exec_call g ctx params instruction provided) (fun _ => False) (Executed instruction l)
      (l, h) := by
  obtain ⟨gas, rfl⟩ := Option.isSome_iff_exists.mp hprov
  have hcost : g.spec.call_gas = 700 := congrArg Spec.call_gas hspec
  have hstipend : g.spec.call_stipend = 2300 := congrArg Spec.call_stipend hspec
  have htransfer : g.spec.call_value_transfer_gas = 9000 :=
    congrArg Spec.call_value_transfer_gas hspec
  rw [Option.map_some, Option.getD_some] at hgas
  obtain ⟨requested, to_, below, in_off, in_size, out_off, out_size, rest, hs, hranges, hlen,
    hvalue⟩ := call_operands hcall hstack
  rw [hranges] at hfits
  refine wp_bind.mpr (wp_assert (fun hfalse => ?_) fun _ => ?_)
  · rw [hstipend, htransfer] at hfalse
    cases hfalse
  refine wp_bind.mpr (wp_onLocal (wp_pop hs (wp_bind.mpr (wp_pure.mpr ?_))))
  refine wp_bind.mpr (wp_onLocal (wp_pop rfl (wp_bind.mpr (wp_onLocal ?_))))
  have hfloor := wp_zoom.mp (call_value_stipend (g := g)
    (l := { { l with stack := to_ :: below } with stack := below }) hcall h hs)
  refine wp_post (wp_and (hvalue _ rfl) hfloor) ?_
  rintro (e | value) _ ⟨rfl, hfloor⟩
  · exact executed_error
  have hfloor := hfloor value rfl
  refine wp_bind.mpr (wp_onLocal (wp_pop rfl (wp_bind.mpr (wp_onLocal (wp_pop rfl ?_)))))
  refine wp_bind.mpr (wp_onLocal (wp_pop rfl (wp_bind.mpr (wp_onLocal (wp_pop rfl ?_)))))
  have hsmall : stipend g.spec value < 2 ^ 64 := by omega
  refine wp_bind.mpr (wp_expect (fun hnone => ?_) fun call_gas _ => ?_)
  · rw [Cost.checked_add_of_lt (show _ < 2 ^ 64 by rw [Cost.toNat_from hsmall]; omega)] at hnone
    cases hnone
  refine wp_bind.mpr (wp_zoom.mpr (wp_post (call_target_safe hans hh _ _) ?_))
  rintro (e | ⟨sender, receiver, has_balance, call_type⟩) h₁ hh₁
  · exact executed_error
  refine wp_bind.mpr (wp_onLocal (wp_update.mpr (wp_ite (fun _ => ?_) fun _ => ?_)))
  · refine wp_bind.mpr (wp_onLocal (wp_read_slice (hfits _ (by simp)) hmem fun input => ?_))
    refine wp_bind.mpr (wp_zoom.mpr (wp_post (context_call_safe hans hh₁ _ _ _ _ _ _ _) ?_))
    rintro (e | trap) h₂ htrap
    · exact executed_error
    obtain ⟨callee, rfl⟩ := htrap trap rfl
    refine wp_bind.mpr (wp_onLocal (wp_update.mpr ?_))
    exact executed_ok rfl ReturnData.readable_empty
      ⟨hlen, (out_off, out_size), rfl, hfits _ (by simp)⟩
  · refine wp_bind.mpr (wp_onLocal ?_)
    refine executed_ok rfl ReturnData.readable_empty ?_
    show rest.length + 1 + instruction.info.args ≤ l.stack.length + instruction.info.ret
    omega

section
omit [Keccak]

theorem wp_pop_n {E : Panic → Prop} {n : Nat} {l : Local}
    {Q : Except VmError (List U256) → Local → Prop}
    (hn : n ≤ l.stack.length)
    (hq : ∀ items, Q (.ok items) { l with stack := l.stack.drop n }) :
    wp (Local.pop_n n) E Q l := by
  induction n generalizing l Q with
  | zero => exact hq []
  | succ n ih =>
    obtain ⟨top, rest, hs, hrest⟩ := exists_cons_of_le hn
    refine wp_bind.mpr (wp_pop hs (wp_bind.mpr (ih hrest fun items => ?_)))
    have hdrop := hq (top :: items)
    rw [hs] at hdrop
    exact hdrop

theorem wp_local_peek {E : Panic → Prop} {n : Nat} {Q : Except VmError U256 → Local → Prop}
    (hn : n < l.stack.length) (hq : Q (.ok (l.stack.getD n 0)) l) : wp (Local.peek n) E Q l := by
  have hget : l.stack[n]? = some (l.stack.getD n 0) := by
    rw [List.getD_eq_getElem?_getD, List.getElem?_eq_getElem hn, Option.getD_some]
  refine wp_bind.mpr (wp_gets.mpr ?_)
  simp only [hget]
  exact hq

/-- Copying to the memory is safe. -/
theorem copy_safe {source : Bytes} (hread : l.return_data.Readable)
    (hargs : instruction.info.args = 3) (hstack : instruction.info.args ≤ l.stack.length)
    (hmem : l.mem.length < 2 ^ 64) (hsource : source.length < 2 ^ 64)
    (hfits : FitsIn l.mem.length (l.stack.getD 0 0, l.stack.getD 2 0)) :
    wp (Local.copy_data_to_memory source) (fun _ => False) (fun r l' => r = .ok () →
      l'.mem.length = l.mem.length ∧ l'.return_data.Readable ∧
      l'.stack.length + instruction.info.args ≤ l.stack.length + instruction.info.ret) l := by
  rw [hargs] at hstack
  obtain ⟨dest, rest₁, hs, hrest₁⟩ := exists_cons_of_le hstack
  obtain ⟨offset, rest₂, rfl, hrest₂⟩ := exists_cons_of_le hrest₁
  obtain ⟨size, rest, rfl, -⟩ := exists_cons_of_le hrest₂
  rw [hs] at hfits
  refine wp_post (Local.wp_copy_data_to_memory hs hsource hmem hfits) ?_
  rintro r _ ⟨-, mem, hcopy, rfl⟩ -
  refine ⟨hcopy.length, hread, ?_⟩
  rw [hargs, hs]
  exact Nat.le_add_right _ _

/-- Storing into the memory is safe. -/
theorem store_safe {store : Bytes → U256 → U256 → Option Bytes} (hread : l.return_data.Readable)
    (hargs : instruction.info.args = 2) (hstack : instruction.info.args ≤ l.stack.length)
    (hstore : ∀ value, ∃ mem, store l.mem (l.stack.getD 0 0) value = some mem ∧
      mem.length = l.mem.length) :
    wp (plain do
      let offset ← Local.pop_back
      let value ← Local.pop_back
      Local.set_mem (store (← Prog.gets Local.mem) offset value)) (fun _ => False)
      (Executed (c := .usize) instruction l) (l, h) := by
  rw [hargs] at hstack
  obtain ⟨offset, rest₁, hs, hrest₁⟩ := exists_cons_of_le hstack
  obtain ⟨value, rest, rfl, -⟩ := exists_cons_of_le hrest₁
  rw [hs] at hstore
  obtain ⟨mem, hmem, hlen⟩ := hstore value
  refine wp_plain
    (wp_bind.mpr (wp_pop hs (wp_bind.mpr (wp_pop rfl (wp_bind.mpr (wp_gets.mpr ?_))))))
  refine Local.wp_set_mem hmem fun _ => ⟨hlen, hread, ?_⟩
  rw [hargs, hs]
  exact Nat.le_add_right _ _

end

/-- What an instruction needs, so that it does not panic. -/
structure Ready (g : Globals) (ctx : FrameContext) (params : InterpreterParams) (code : Bytes)
    (instruction : Instruction) (provided : Option (Cost .usize)) (I : Host State → Prop)
    (l : Local) (h : Host State) : Prop where
  answers : Answers g ctx (some instruction) l.stack I
  host : I h
  args : instruction.info.args ≤ l.stack.length
  mem : l.mem.length < 2 ^ 64
  return_data : l.return_data.Readable
  fits : ∀ range ∈ ranges instruction l.stack, FitsIn l.mem.length range
  passes : provides instruction = true → provided.isSome
  gas : (provided.map BitVec.toNat).getD 0 + price_floor g.spec instruction l.stack < 2 ^ 64
  position : l.position ≤ code.length
  code : code.length < 2 ^ 64
  data : ∀ data, params.data = some data → data.length < 2 ^ 64

/-- An instruction does not panic. -/
theorem exec_instruction_safe (hspec : g.spec.GenesisConstants) {code : Bytes} (gas : Cost .usize)
    {provided : Option (Cost .usize)}
    (hready : Ready g ctx params code instruction provided I l h) :
    wp (exec_instruction g ctx params code gas instruction provided) (fun _ => False)
      (Executed instruction l) (l, h) := by
  obtain ⟨hans, hh, hstack, hmem, hread, hfits, hprov, hgas, hpos, hcode, hdata⟩ := hready
  have hdata' : (params.data.getD []).length < 2 ^ 64 := by
    rcases hd : params.data with _ | data
    · decide
    · exact hdata data hd
  cases instruction
  case CREATE => exact exec_create_safe (.inl rfl) hans hh hstack hmem hfits (hprov rfl)
  case CREATE2 => exact exec_create_safe (.inr rfl) hans hh hstack hmem hfits (hprov rfl)
  case CALL => exact exec_call_safe hspec (.inl rfl) hans hh hstack hmem hfits (hprov rfl) hgas
  case CALLCODE =>
    exact exec_call_safe hspec (.inr (.inl rfl)) hans hh hstack hmem hfits (hprov rfl) hgas
  case DELEGATECALL =>
    exact exec_call_safe hspec (.inr (.inr (.inl rfl))) hans hh hstack hmem hfits (hprov rfl) hgas
  case STATICCALL =>
    exact exec_call_safe hspec (.inr (.inr (.inr rfl))) hans hh hstack hmem hfits (hprov rfl) hgas
  case GAS | ADDRESS | ORIGIN | CALLER | CALLVALUE | CALLDATASIZE | CODESIZE | GASPRICE | COINBASE
      | TIMESTAMP | NUMBER | DIFFICULTY | GASLIMIT | CHAINID =>
    exact constant_safe hread rfl rfl _
  case ADD | MUL | SUB | DIV | MOD | SDIV | SMOD | EXP | LT | SLT | GT | SGT | EQ | AND | OR | XOR
      | BYTE | SHL | SHR | SAR =>
    exact binary_safe hread rfl rfl hstack _
  case BALANCE =>
    exact query_safe hread rfl rfl hstack (fun a => wp_post (hans.balance a h hh) fun _ _ _ =>
      trivial) _
  case EXTCODESIZE =>
    exact query_safe hread rfl rfl hstack (fun a => wp_post (hans.extcodesize a h hh) fun _ _ _ =>
      trivial) _
  case EXTCODEHASH =>
    exact query_safe hread rfl rfl hstack (fun a => wp_post (hans.extcodehash a h hh) fun _ _ _ =>
      trivial) _
  case CALLDATACOPY =>
    exact wp_plain (copy_safe hread rfl hstack hmem hdata' (hfits _ (List.mem_singleton_self _)))
  case CODECOPY =>
    exact wp_plain (copy_safe hread rfl hstack hmem hcode (hfits _ (List.mem_singleton_self _)))
  case MSTORE =>
    exact store_safe hread rfl hstack fun value =>
      Memory.write_of_fits value (hfits _ (List.mem_singleton_self _)) hmem
  case MSTORE8 =>
    exact store_safe hread rfl hstack fun value =>
      Memory.write_byte_of_fits value (hfits _ (List.mem_singleton_self _)) hmem
  case JUMP =>
    obtain ⟨a, rest, hs, -⟩ := exists_cons_of_le (n := 0) hstack
    refine wp_bind.mpr (wp_onLocal (wp_pop hs (executed_ok rfl hread ?_)))
    simp [ResultSafe, Instruction.info, hs]
  case JUMPI =>
    obtain ⟨a, rest₁, hs, hrest₁⟩ := exists_cons_of_le (n := 1) hstack
    obtain ⟨b, rest, rfl, -⟩ := exists_cons_of_le hrest₁
    refine wp_bind.mpr (wp_onLocal (wp_pop hs (wp_bind.mpr (wp_onLocal (wp_pop rfl ?_)))))
    refine executed_ok rfl hread ?_
    split <;> simp [ResultSafe, Instruction.info, hs]
  case JUMPDEST => exact executed_ok rfl hread (le_refl _)
  case BEGINSUB => exact executed_error
  case JUMPSUB =>
    obtain ⟨a, rest, hs, -⟩ := exists_cons_of_le (n := 0) hstack
    refine wp_bind.mpr (wp_gets.mpr (wp_ite (fun _ => executed_error) fun _ => ?_))
    refine wp_bind.mpr (wp_onLocal (wp_pop hs (executed_ok rfl hread ?_)))
    simp [ResultSafe, Instruction.info, hs]
  case RETURNSUB =>
    refine wp_bind.mpr (wp_gets.mpr ?_)
    rcases l.return_stack with _ | ⟨pos, rest⟩
    · exact executed_error
    · exact wp_bind.mpr (wp_onLocal (wp_update.mpr (executed_ok rfl hread (le_refl _))))
  case RETURN | REVERT =>
    obtain ⟨offset, rest₁, hs, hrest₁⟩ := exists_cons_of_le (n := 1) hstack
    obtain ⟨size, rest, rfl, -⟩ := exists_cons_of_le hrest₁
    refine wp_bind.mpr (wp_onLocal (wp_pop hs (wp_bind.mpr (wp_onLocal (wp_pop rfl ?_)))))
    refine executed_ok rfl hread ?_
    rw [hs] at hfits
    exact hfits (offset, size) (List.mem_singleton_self _)
  case STOP => exact executed_ok rfl hread trivial
  case SUICIDE =>
    obtain ⟨a, rest, hs, -⟩ := exists_cons_of_le (n := 0) hstack
    refine wp_bind.mpr (wp_onLocal (wp_pop hs (wp_bind.mpr (wp_zoom.mpr (wp_post
      (hans.suicide rfl _ _ h hh) ?_)))))
    rintro (e | _) h' -
    · exact executed_error
    · exact executed_ok rfl hread trivial
  case LOG n =>
    obtain ⟨offset, rest₁, hs, hrest₁⟩ := exists_cons_of_le (n := n.val + 1) hstack
    obtain ⟨size, rest, rfl, hrest⟩ := exists_cons_of_le hrest₁
    rw [hs] at hfits
    refine wp_bind.mpr (wp_onLocal (wp_pop hs (wp_bind.mpr (wp_onLocal (wp_pop rfl ?_)))))
    refine wp_bind.mpr (wp_onLocal (wp_pop_n hrest fun topics => ?_))
    refine wp_bind.mpr (wp_onLocal (wp_read_slice
      (hfits (offset, size) (List.mem_singleton_self _)) hmem fun data => ?_))
    refine wp_bind.mpr (wp_zoom.mpr (wp_post (hans.log topics data h hh) ?_))
    rintro (e | _) h' -
    · exact executed_error
    · refine executed_ok rfl hread ?_
      simp only [ResultSafe, Instruction.info, hs, List.length_drop, List.length_cons]
      omega
  case PUSH i =>
    refine wp_plain (wp_bind.mpr (wp_bind.mpr (wp_gets.mpr (wp_bind.mpr (wp_update.mpr ?_)))))
    refine wp_bind.mpr (wp_assert (fun hfalse => ?_) fun _ => ?_)
    · rw [decide_eq_false_iff_not] at hfalse
      omega
    · exact fun _ => ⟨rfl, hread, le_refl _⟩
  case MLOAD =>
    obtain ⟨offset, rest, hs, -⟩ := exists_cons_of_le (n := 0) hstack
    rw [hs] at hfits
    obtain ⟨word, hword⟩ :=
      Memory.read_of_fits (hfits (offset, 32) (List.mem_singleton_self _)) hmem
    refine wp_plain (wp_bind.mpr (wp_pop hs (wp_bind.mpr (wp_gets.mpr (wp_bind.mpr ?_)))))
    simp only [hword]
    exact fun _ => ⟨rfl, hread, by simp [Instruction.info, hs]⟩
  case MSIZE => exact wp_plain fun _ => ⟨rfl, hread, le_refl _⟩
  case PC => exact wp_plain fun _ => ⟨rfl, hread, le_refl _⟩
  case SHA3 =>
    obtain ⟨offset, rest₁, hs, hrest₁⟩ := exists_cons_of_le (n := 1) hstack
    obtain ⟨size, rest, rfl, -⟩ := exists_cons_of_le hrest₁
    rw [hs] at hfits
    refine wp_plain (wp_bind.mpr (wp_pop hs (wp_bind.mpr (wp_pop rfl (wp_bind.mpr ?_)))))
    refine wp_read_slice (hfits (offset, size) (List.mem_singleton_self _)) hmem fun data => ?_
    exact fun _ => ⟨rfl, hread, by simp [Instruction.info, hs]⟩
  case SLOAD =>
    obtain ⟨key, rest, hs, -⟩ := exists_cons_of_le (n := 0) hstack
    refine wp_bind.mpr (wp_onLocal (wp_pop hs (wp_bind.mpr (wp_zoom.mpr (wp_post
      (hans.storage_at _ h hh) ?_)))))
    rintro (e | _) h' -
    · exact executed_error
    · exact executed_ok rfl hread (by simp [ResultSafe, Instruction.info, hs])
  case SSTORE =>
    obtain ⟨key, rest₁, hs, hrest₁⟩ := exists_cons_of_le (n := 1) hstack
    obtain ⟨value, rest, rfl, -⟩ := exists_cons_of_le hrest₁
    refine wp_bind.mpr (wp_onLocal (wp_pop hs (wp_bind.mpr (wp_onLocal (wp_pop rfl ?_)))))
    refine wp_bind.mpr (wp_zoom.mpr (wp_post (hans.set_storage rfl _ _ h hh) ?_))
    rintro (e | _) h' -
    · exact executed_error
    · exact executed_ok rfl hread (by simp [ResultSafe, Instruction.info, hs])
  case CALLDATALOAD | NOT | ISZERO =>
    obtain ⟨a, rest, hs, -⟩ := exists_cons_of_le (n := 0) hstack
    refine wp_plain (wp_bind.mpr (wp_pop hs fun _ => ⟨rfl, hread, ?_⟩))
    simp [Instruction.info, hs]
  case POP =>
    obtain ⟨a, rest, hs, -⟩ := exists_cons_of_le (n := 0) hstack
    refine wp_plain (wp_bind.mpr (wp_pop hs fun _ => ⟨rfl, hread, ?_⟩))
    simp [Instruction.info, hs]
  case ADDMOD | MULMOD =>
    obtain ⟨a, rest₁, hs, hrest₁⟩ := exists_cons_of_le (n := 2) hstack
    obtain ⟨b, rest₂, rfl, hrest₂⟩ := exists_cons_of_le hrest₁
    obtain ⟨d, rest, rfl, -⟩ := exists_cons_of_le hrest₂
    refine wp_plain
      (wp_bind.mpr (wp_pop hs (wp_bind.mpr (wp_pop rfl (wp_bind.mpr (wp_pop rfl ?_))))))
    simp only [Word.addmod_eq, Word.mulmod_eq]
    exact fun _ => ⟨rfl, hread, by simp [Instruction.info, hs]⟩
  case SIGNEXTEND =>
    obtain ⟨bit, rest₁, hs, hrest₁⟩ := exists_cons_of_le (n := 1) hstack
    obtain ⟨number, rest, rfl, -⟩ := exists_cons_of_le hrest₁
    refine wp_plain (wp_bind.mpr (wp_pop hs (wp_when (fun _ => ?_) fun _ => ?_)))
    · exact wp_bind.mpr (wp_pop rfl fun _ => ⟨rfl, hread, by simp [Instruction.info, hs]⟩)
    · exact fun _ => ⟨rfl, hread, by simp [Instruction.info, hs]⟩
  case RETURNDATASIZE =>
    obtain ⟨bytes, hbytes, hlen⟩ := hread
    refine wp_plain (wp_bind.mpr (wp_bind.mpr (wp_gets.mpr ?_)))
    simp only [hbytes]
    exact fun _ => ⟨rfl, ⟨bytes, hbytes, hlen⟩, le_refl _⟩
  case RETURNDATACOPY =>
    obtain ⟨bytes, hbytes, hlen⟩ := hread
    have hstack' : 3 ≤ l.stack.length := hstack
    refine wp_plain
      (wp_bind.mpr (wp_local_peek (by omega) (wp_bind.mpr (wp_local_peek (by omega) ?_))))
    refine wp_bind.mpr (wp_bind.mpr (wp_gets.mpr ?_))
    simp only [hbytes]
    refine wp_ite (fun _ => fun h => by cases h) fun _ => ?_
    exact copy_safe ⟨bytes, hbytes, hlen⟩ rfl hstack hmem hlen (hfits _ (List.mem_singleton_self _))
  case EXTCODECOPY =>
    obtain ⟨a, rest₁, hs, hrest₁⟩ := exists_cons_of_le (n := 3) hstack
    obtain ⟨dest, rest₂, rfl, hrest₂⟩ := exists_cons_of_le hrest₁
    obtain ⟨offset, rest₃, rfl, hrest₃⟩ := exists_cons_of_le hrest₂
    obtain ⟨size, rest, rfl, -⟩ := exists_cons_of_le hrest₃
    rw [hs] at hfits
    refine wp_bind.mpr (wp_onLocal (wp_pop hs (wp_bind.mpr (wp_zoom.mpr (wp_post
      (hans.extcode _ h hh) ?_)))))
    rintro (e | code') h' ⟨-, hlen⟩
    · exact executed_error
    have hsource : (code'.getD []).length < 2 ^ 64 := by
      rcases code' with _ | code'
      · decide
      · exact hlen code' rfl
    refine wp_bind.mpr (wp_onLocal (wp_post (Local.wp_copy_data_to_memory rfl hsource hmem
      (hfits (dest, size) (List.mem_singleton_self _))) ?_))
    rintro (e | _) _ ⟨-, mem, hcopy, rfl⟩
    · exact executed_error
    · exact executed_ok hcopy.length hread (by simp [ResultSafe, Instruction.info, hs])
  case BLOCKHASH =>
    obtain ⟨number, rest, hs, -⟩ := exists_cons_of_le (n := 0) hstack
    refine wp_bind.mpr (wp_onLocal (wp_pop hs (wp_bind.mpr (wp_zoom.mpr (wp_post
      (hans.blockhash rfl number h (by rw [hs]; rfl) hh) ?_)))))
    rintro (e | _) h' -
    · exact executed_error
    · exact executed_ok rfl hread (by simp [ResultSafe, Instruction.info, hs])
  case SELFBALANCE =>
    refine wp_bind.mpr (wp_zoom.mpr (wp_post (hans.balance _ h hh) ?_))
    rintro (e | _) h' -
    · exact executed_error
    · exact executed_ok rfl hread (le_refl _)
  case DUP i =>
    have hlt : i.val < l.stack.length := hstack
    refine wp_plain (wp_bind.mpr (wp_local_peek hlt fun _ => ⟨rfl, hread, ?_⟩))
    simp only [Instruction.info, List.length_cons]
    omega
  case SWAP i =>
    have hlt : i.val + 2 ≤ l.stack.length := hstack
    refine wp_plain
      (wp_bind.mpr (wp_local_peek (by omega) (wp_bind.mpr (wp_local_peek (by omega) ?_))))
    refine fun _ => ⟨rfl, hread, ?_⟩
    simp [Instruction.info]

end

end Interpreter

end CfxEvm
