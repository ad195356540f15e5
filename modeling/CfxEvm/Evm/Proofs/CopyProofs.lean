import CfxEvm.Evm.Proofs.ExpansionProofs
import CfxEvm.State.Proofs.CreationProofs

/-!
# Proofs: the copy instructions

Once an instruction that copies has passed the gas check, the memory has room for the range that it
writes to. It then copies the bytes of its source, extended by zeros, and touches nothing else.
-/

open Lib Lib.Prog

namespace CfxEvm

section
variable [Keccak]

namespace Interpreter

/-- The instruction has passed the gas check, and its memory has been made room for. -/
def GasChecked (g : Globals) (ctx : FrameContext) (c : CostType) (instruction : Instruction)
    (l : Local) : Prop :=
  ∃ (m : Gasometer c) (mem : Bytes) (req : InstructionRequirements c) (h h' : Host State),
    mem.length < 2 ^ 64 ∧
    (m.requirements g ctx instruction l.stack mem.length).run h = .ok (.ok req, h') ∧
    m.verify_gas req.gas_cost = .ok () ∧
    l.mem = Memory.expand mem req.memory_required_size

variable {g : Globals} {ctx : FrameContext} {c : CostType} {instruction : Instruction} {l : Local}
  {h : Host State}

theorem GasChecked.fits (hchecked : GasChecked g ctx c instruction l) :
    l.mem.length < 2 ^ 64 ∧ ∀ range ∈ ranges instruction l.stack, FitsIn l.mem.length range := by
  obtain ⟨m, mem, req, h, h', hsmall, hrun, -, hmem⟩ := hchecked
  obtain ⟨hreq, hfits⟩ := (Gasometer.requirements_covers m mem.length).of_run hrun
  have hlen : l.mem.length = max mem.length req.memory_required_size := by
    rw [hmem, Memory.length_expand]
  refine ⟨by omega, fun range hrange => (hfits range hrange).mono ?_⟩
  omega

/-- An instruction takes its operands from the stack and leaves a copy of the source in the
    memory. -/
def Copies (x : ExecM (InstructionResult c)) (source : Bytes) (dest src size : U256)
    (rest : List U256) (l : Local) (h h' : Host State) : Prop :=
  ∃ mem, x.run (l, h) = .ok (.ok .Ok, { l with stack := rest, mem := mem }, h') ∧
    Local.CopyOf source l.mem mem dest.toNat src.toNat size.toNat

omit [Keccak] in
theorem run_pop_back {top : U256} {rest : List U256} (hstack : l.stack = top :: rest) :
    Local.pop_back.run l = .ok (.ok top, { l with stack := rest }) := by
  obtain ⟨r, l', hrun, rfl, rfl⟩ := exists_run_of_wp (wp_pop (E := fun _ => False)
    (Q := fun r l' => r = .ok top ∧ l' = { l with stack := rest }) hstack ⟨rfl, rfl⟩)
  exact hrun

omit [Keccak] in
theorem copies_plain {source : Bytes} {dest src size : U256} {rest : List U256}
    (hstack : l.stack = dest :: src :: size :: rest) (hsource : source.length < 2 ^ 64)
    (hmem : l.mem.length < 2 ^ 64) (hfits : FitsIn l.mem.length (dest, size)) (h : Host State) :
    Copies (c := c) (plain (Local.copy_data_to_memory source)) source dest src size rest l h h := by
  obtain ⟨r, l', hrun, rfl, mem, hcopy, rfl⟩ :=
    exists_run_of_wp (Local.wp_copy_data_to_memory hstack hsource hmem hfits)
  refine ⟨mem, ?_, hcopy⟩
  exact run_bind_eq_ok.mpr ⟨(), _, run_zoom_eq_ok.mpr ⟨_, hrun, rfl⟩, rfl⟩

/-- The word of the 32 bytes from an index on, extended by zeros. -/
def load (data : Bytes) (index : Nat) : U256 :=
  U256.from_big_endian ((List.range 32).map fun i => data[index + i]?.getD 0)

omit [Keccak] in
theorem load_of_lt {data : Bytes} {index : Nat} (hlt : index < data.length) :
    load data index =
      U256.from_big_endian ((data.drop index).take (min data.length (index + 32) - index) ++
        List.replicate (32 - (min data.length (index + 32) - index)) 0) := by
  refine congrArg U256.from_big_endian (List.ext_getElem? fun i => ?_)
  have hlen : ((data.drop index).take (min data.length (index + 32) - index)).length =
      min data.length (index + 32) - index := by
    rw [List.length_take, List.length_drop]
    omega
  by_cases hi : i < 32
  · rw [List.getElem?_map, List.getElem?_range hi, Option.map_some]
    by_cases hhas : index + i < data.length
    · rw [List.getElem?_append_left (by omega), List.getElem?_take_of_lt (by omega),
        List.getElem?_drop, List.getElem?_eq_getElem hhas, Option.getD_some]
    · rw [List.getElem?_append_right (by omega), List.getElem?_replicate_of_lt (by omega),
        List.getElem?_eq_none (by omega), Option.getD_none]
  · rw [List.getElem?_eq_none (by simp; omega), List.getElem?_eq_none (by simp; omega)]

omit [Keccak] in
theorem load_of_le {data : Bytes} {index : Nat} (hle : data.length ≤ index) :
    load data index = 0 := by
  have hzeros : ((List.range 32).map fun i => data[index + i]?.getD 0) = List.replicate 32 0 := by
    rw [List.eq_replicate_iff]
    refine ⟨by simp, fun b hb => ?_⟩
    obtain ⟨i, -, rfl⟩ := List.mem_map.mp hb
    rw [List.getElem?_eq_none (by omega), Option.getD_none]
  unfold load
  rw [hzeros]
  rfl

theorem copies_returndata (params : InterpreterParams) (code : Bytes) (gas : Cost c)
    (provided : Option (Cost c)) {dest src size : U256} {rest : List U256} {data : Bytes}
    (hstack : l.stack = dest :: src :: size :: rest) (hdata : l.return_data.deref = some data)
    (hlen : data.length < 2 ^ 64) (hmem : l.mem.length < 2 ^ 64)
    (hfits : FitsIn l.mem.length (dest, size)) (h : Host State) :
    if data.length < src.toNat + size.toNat then
      (exec_instruction g ctx params code gas .RETURNDATACOPY provided).run (l, h) =
        .ok (.error .OutOfBounds, l, h)
    else Copies (exec_instruction g ctx params code gas .RETURNDATACOPY provided)
      data dest src size rest l h h := by
  have hsum := U256.toNat_saturating_add (a := src) (b := size)
  have hexec : (exec_instruction g ctx params code gas .RETURNDATACOPY provided).run (l, h) =
      (plain (if data.length < (U256.saturating_add src size).toNat
        then Prog.fail .OutOfBounds else Local.copy_data_to_memory data)).run (l, h) := by
    obtain ⟨mem, position, return_data, stack, return_stack, range⟩ := l
    obtain rfl : stack = _ := hstack
    have hderef : return_data.deref = some data := hdata
    change (plain (Prog.expect .memory_out_of_range return_data.deref >>= fun return_data =>
      if return_data.length < (U256.saturating_add src size).toNat
      then Prog.fail .OutOfBounds else Local.copy_data_to_memory return_data)).run _ = _
    rw [hderef]
    rfl
  split
  · rename_i hbeyond
    rw [hexec, if_pos (by omega)]
    rfl
  · rename_i hwithin
    obtain ⟨mem, hrun, hcopy⟩ := copies_plain (c := c) hstack hlen hmem hfits h
    refine ⟨mem, ?_, hcopy⟩
    rw [hexec, if_neg (by omega)]
    exact hrun

theorem run_calldataload (params : InterpreterParams) (code : Bytes) (gas : Cost c)
    (provided : Option (Cost c)) {index : U256} {rest : List U256}
    (hdata : (params.data.getD []).length < 2 ^ 63) (hstack : l.stack = index :: rest)
    (h : Host State) :
    (exec_instruction g ctx params code gas .CALLDATALOAD provided).run (l, h) =
      .ok (.ok .Ok, { l with stack := load (params.data.getD []) index.toNat :: rest }, h) := by
  generalize hd : params.data.getD [] = data at hdata
  have hword : load data index.toNat =
      if index.low_u64 < min data.length ((index.low_u64 + 32) % 2 ^ 64) &&
          index.toNat < data.length
      then U256.from_big_endian
        ((data.drop index.low_u64).take
            (min data.length ((index.low_u64 + 32) % 2 ^ 64) - index.low_u64) ++
          List.replicate
            (32 - (min data.length ((index.low_u64 + 32) % 2 ^ 64) - index.low_u64)) 0) else 0 := by
    by_cases hlt : index.toNat < data.length
    -- the index is far from the end of the addresses, where the bound would wrap
    · rw [low_u64_of_lt (by omega), Nat.mod_eq_of_lt (by omega), load_of_lt hlt, if_pos]
      simp only [Bool.and_eq_true, decide_eq_true_eq]
      omega
    · rw [load_of_le (by omega), if_neg]
      simp only [Bool.and_eq_true, decide_eq_true_eq]
      omega
  obtain ⟨mem, position, return_data, stack, return_stack, range⟩ := l
  obtain rfl : stack = _ := hstack
  rw [hword, ← hd]
  rfl

/-- The instructions that copy to the memory, and the one that loads from the call data. No slice is
    longer than `isize::MAX`. -/
theorem copies_are_exact (g : Globals) (ctx : FrameContext) (params : InterpreterParams)
    (code : Bytes) (gas : Cost c) (provided : Option (Cost c))
    (hdata : (params.data.getD []).length < 2 ^ 63) (hcode : code.length < 2 ^ 63) (l : Local)
    (h : Host State) :
    (∀ dest src size rest, l.stack = dest :: src :: size :: rest →
      GasChecked g ctx c .CALLDATACOPY l →
      Copies (exec_instruction g ctx params code gas .CALLDATACOPY provided)
        (params.data.getD []) dest src size rest l h h) ∧
    (∀ dest src size rest, l.stack = dest :: src :: size :: rest →
      GasChecked g ctx c .CODECOPY l →
      Copies (exec_instruction g ctx params code gas .CODECOPY provided)
        code dest src size rest l h h) ∧
    (∀ address dest src size rest code' h', l.stack = address :: dest :: src :: size :: rest →
      GasChecked g ctx c .EXTCODECOPY l →
      (Context.extcode g (u256_to_address address)).run h = .ok (.ok code', h') →
      (code'.getD []).length < 2 ^ 63 →
      Copies (exec_instruction g ctx params code gas .EXTCODECOPY provided)
        (code'.getD []) dest src size rest l h h') ∧
    (∀ dest src size rest data, l.stack = dest :: src :: size :: rest →
      GasChecked g ctx c .RETURNDATACOPY l →
      l.return_data.deref = some data → data.length < 2 ^ 63 →
      if data.length < src.toNat + size.toNat then
        (exec_instruction g ctx params code gas .RETURNDATACOPY provided).run (l, h) =
          .ok (.error .OutOfBounds, l, h)
      else Copies (exec_instruction g ctx params code gas .RETURNDATACOPY provided)
        data dest src size rest l h h) ∧
    (∀ index rest, l.stack = index :: rest →
      (exec_instruction g ctx params code gas .CALLDATALOAD provided).run (l, h) =
        .ok (.ok .Ok, { l with stack := load (params.data.getD []) index.toNat :: rest }, h)) := by
  refine ⟨?_, ?_, ?_, ?_, fun index rest hstack => run_calldataload params code gas provided hdata
    hstack h⟩
  · intro dest src size rest hstack hchecked
    obtain ⟨hmem, hfits⟩ := hchecked.fits
    rw [hstack] at hfits
    exact copies_plain hstack (by omega) hmem (hfits _ (List.mem_singleton_self _)) h
  · intro dest src size rest hstack hchecked
    obtain ⟨hmem, hfits⟩ := hchecked.fits
    rw [hstack] at hfits
    exact copies_plain hstack (by omega) hmem (hfits _ (List.mem_singleton_self _)) h
  · intro address dest src size rest code' h' hstack hchecked hcode' hlen
    obtain ⟨hmem, hfits⟩ := hchecked.fits
    rw [hstack] at hfits
    have hsource : (code'.getD []).length < 2 ^ 64 := by omega
    obtain ⟨mem, hrun, hcopy⟩ := copies_plain (c := c)
      (l := { l with stack := dest :: src :: size :: rest }) rfl hsource hmem
      (hfits (dest, size) (List.mem_singleton_self _)) h'
    refine ⟨mem, ?_, hcopy⟩
    refine run_bind_eq_ok.mpr ⟨address, _, run_zoom_eq_ok.mpr ⟨_, run_pop_back hstack, rfl⟩, ?_⟩
    exact run_bind_eq_ok.mpr ⟨code', _, run_zoom_eq_ok.mpr ⟨_, hcode', rfl⟩, hrun⟩
  · intro dest src size rest data hstack hchecked hdata' hlen
    obtain ⟨hmem, hfits⟩ := hchecked.fits
    rw [hstack] at hfits
    exact copies_returndata params code gas provided hstack hdata' (by omega) hmem
      (hfits _ (List.mem_singleton_self _)) h

end Interpreter

end

section
attribute [local instance] keccakOfEmpty

/-- A copy of four bytes of the call data from its second one on, to the second byte of a memory of
    one word. -/
def copying : Local where
  mem := List.replicate 32 0xff
  position := 1
  return_data := .empty
  stack := [1, 1, 4]
  return_stack := []
  resume_output_range := none

/-- A call with three bytes of data. -/
def copyingParams : InterpreterParams where
  code_address := 1
  code_hash := none
  address := 1
  sender := 7
  original_sender := 7
  gas := 100
  gas_price := 0
  value := .Transfer 0
  data := some [7, 8, 9]
  call_type := .Call
  params_type := .Separate

/-- The call data ends inside the window. -/
theorem calldata_is_copied_with_zeros :
    ∃ mem, (Interpreter.exec_instruction (c := .usize) bareMachine Interpreter.subroutineContext
      copyingParams []
        94 .CALLDATACOPY none).run (copying, emptyHost) =
          .ok (.ok .Ok, { copying with stack := [], mem := mem }, emptyHost) ∧
      mem[1]? = some 8 ∧ mem[2]? = some 9 ∧ mem[3]? = some 0 ∧ mem[4]? = some 0 ∧
      mem[5]? = some 0xff := by
  have hchecked : Interpreter.GasChecked bareMachine Interpreter.subroutineContext .usize
      .CALLDATACOPY copying :=
    ⟨⟨100, 3⟩, copying.mem, ⟨6, none, 3, 32⟩, emptyHost, emptyHost, by decide, rfl, rfl, rfl⟩
  have hcopies :=
    (Interpreter.copies_are_exact bareMachine Interpreter.subroutineContext copyingParams []
    (94 : Cost .usize) none (by decide) (by decide) copying emptyHost).1
  obtain ⟨mem, hrun, hmem⟩ := hcopies 1 1 4 [] rfl hchecked
  refine ⟨mem, hrun, ?_, ?_, ?_, ?_, ?_⟩
  · exact hmem.copied 0 (by decide)
  · exact hmem.copied 1 (by decide)
  · exact hmem.copied 2 (by decide)
  · exact hmem.copied 3 (by decide)
  · exact hmem.frame 5 (by decide)

end

end CfxEvm
