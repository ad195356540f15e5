import CfxEvm.Evm.Interpreter

/-!
# Proofs: ranges of the memory

A range of the memory is given by two words of which only the lowest 64 bits are used. A range that
is empty, or lies in the memory without any truncation, is accessed without a panic.
-/

open Lib Lib.Prog

namespace CfxEvm

/-- The range is empty, or it lies in a memory of the given size. -/
def FitsIn (size : Nat) (range : U256 × U256) : Prop :=
  range.2.toNat = 0 ∨ range.1.toNat + range.2.toNat ≤ size

/-- The data can be read, and is not longer than what a machine can hold. -/
def ReturnData.Readable (data : ReturnData) : Prop :=
  ∃ bytes, data.deref = some bytes ∧ bytes.length < 2 ^ 64

theorem ReturnData.readable_empty : ReturnData.empty.Readable := ⟨[], rfl, by decide⟩

theorem low_u64_of_lt {x : U256} (h : x.toNat < 2 ^ 64) : x.low_u64 = x.toNat := Nat.mod_eq_of_lt h

namespace Memory

variable {mem : Bytes} {offset size : U256}

/-- A range that fits is either refused as empty or taken as it is. -/
theorem range_of_fits (hfits : FitsIn mem.length (offset, size)) (hmem : mem.length < 2 ^ 64) :
    (size.toNat = 0 ∧ is_valid_range offset.low_u64 size.low_u64 = false) ∨
      (offset.low_u64 = offset.toNat ∧ size.low_u64 = size.toNat ∧
        offset.toNat + size.toNat ≤ mem.length ∧
        is_valid_range offset.low_u64 size.low_u64 = true) := by
  by_cases hzero : size.toNat = 0
  · have hlow : size.low_u64 = 0 := by
      rw [low_u64_of_lt (by omega), hzero]
    exact .inl ⟨hzero, by simp [is_valid_range, hlow]⟩
  · have hle : offset.toNat + size.toNat ≤ mem.length := hfits.resolve_left hzero
    have hoff := low_u64_of_lt (x := offset) (by omega)
    have hsize := low_u64_of_lt (x := size) (by omega)
    refine .inr ⟨hoff, hsize, hle, ?_⟩
    rw [hoff, hsize, is_valid_range, Bool.and_eq_true, decide_eq_true_eq, decide_eq_true_eq]
    omega

theorem slice_of_le {off n : Nat} (h : off + n ≤ mem.length) :
    slice mem off n = some ((mem.drop off).take n) := if_pos h

/-- Writing inside the memory keeps its size. -/
theorem overwrite_of_le {off : Nat} {bytes : Bytes} (h : off + bytes.length ≤ mem.length) :
    ∃ mem', overwrite mem off bytes = some mem' ∧ mem'.length = mem.length := by
  refine ⟨_, if_pos h, ?_⟩
  simp only [List.length_append, List.length_take, List.length_drop]
  omega

theorem length_of_overwrite {off : Nat} {bytes mem' : Bytes}
    (h : overwrite mem off bytes = some mem') : mem'.length = mem.length := by
  unfold overwrite at h
  split at h
  · rw [← Option.some_inj.mp h]
    simp only [List.length_append, List.length_take, List.length_drop]
    omega
  · cases h

theorem length_of_write_slice {bytes mem' : Bytes} (h : write_slice mem offset bytes = some mem') :
    mem'.length = mem.length := by
  unfold write_slice at h
  split at h
  · cases h
    rfl
  · exact length_of_overwrite h

theorem length_of_write_output {data mem' : Bytes}
    (h : write_output mem offset size data = some mem') : mem'.length = mem.length := by
  unfold write_output at h
  obtain ⟨⟨off, size⟩, -, hwrite⟩ := Option.bind_eq_some_iff.mp h
  exact length_of_overwrite hwrite

/-- The bytes of a memory that has been written to. -/
theorem getElem?_of_overwrite {off : Nat} {bytes mem' : Bytes}
    (h : overwrite mem off bytes = some mem') (j : Nat) :
    mem'[j]? = if off ≤ j ∧ j < off + bytes.length then bytes[j - off]? else mem[j]? := by
  unfold overwrite at h
  split at h
  · rename_i hle
    rw [← Option.some_inj.mp h]
    have htake : (mem.take off).length = off := by
      rw [List.length_take]
      omega
    by_cases hlow : j < off
    · rw [List.append_assoc, List.getElem?_append_left (by omega), if_neg (by omega),
        List.getElem?_take_of_lt hlow]
    · rw [List.append_assoc, List.getElem?_append_right (by omega), htake]
      by_cases hin : j < off + bytes.length
      · rw [List.getElem?_append_left (by omega), if_pos (by omega)]
      · rw [List.getElem?_append_right (by omega), if_neg (by omega), List.getElem?_drop]
        congr 1
        omega
  · cases h

/-- A range that fits is read as it is. -/
theorem read_slice_of_fits (hfits : FitsIn mem.length (offset, size)) (hmem : mem.length < 2 ^ 64) :
    read_slice mem offset size = some ((mem.drop offset.toNat).take size.toNat) := by
  rcases range_of_fits hfits hmem with ⟨hzero, hinvalid⟩ | ⟨hoff, hsize, hle, hvalid⟩
  · rw [read_slice, hinvalid, hzero, List.take_zero]
    rfl
  · rw [read_slice, hvalid, if_pos rfl, hoff, hsize, slice_of_le hle]

theorem read_of_fits (hfits : FitsIn mem.length (offset, 32)) (hmem : mem.length < 2 ^ 64) :
    ∃ word, read mem offset = some word := by
  have hle : offset.toNat + 32 ≤ mem.length :=
    hfits.resolve_left (show (32 : U256).toNat ≠ 0 by decide)
  refine ⟨_, by rw [read, low_u64_of_lt (by omega), slice_of_le hle, Option.map_some]⟩

theorem write_of_fits (value : U256) (hfits : FitsIn mem.length (offset, 32))
    (hmem : mem.length < 2 ^ 64) :
    ∃ mem', write mem offset value = some mem' ∧ mem'.length = mem.length := by
  have hle : offset.toNat + 32 ≤ mem.length :=
    hfits.resolve_left (show (32 : U256).toNat ≠ 0 by decide)
  have hlen : value.to_big_endian.length = 32 := length_bigEndian 32 value.toNat
  rw [write, low_u64_of_lt (by omega)]
  exact overwrite_of_le (by omega)

theorem write_byte_of_fits (value : U256) (hfits : FitsIn mem.length (offset, 1))
    (hmem : mem.length < 2 ^ 64) :
    ∃ mem', write_byte mem offset value = some mem' ∧ mem'.length = mem.length := by
  have hle : offset.toNat + 1 ≤ mem.length :=
    hfits.resolve_left (show (1 : U256).toNat ≠ 0 by decide)
  rw [write_byte, low_u64_of_lt (by omega)]
  exact overwrite_of_le (by simpa using hle)

/-- The part that may be written is inside the memory, and not longer than it should be. -/
theorem writeable_slice_of_fits (hfits : FitsIn mem.length (offset, size))
    (hmem : mem.length < 2 ^ 64) :
    ∃ off n, writeable_slice mem offset size = some (off, n) ∧ off + n ≤ mem.length ∧
      n = size.toNat ∧ (n = 0 ∨ off = offset.toNat) := by
  rcases range_of_fits hfits hmem with ⟨hzero, hinvalid⟩ | ⟨hoff, hsize, hle, hvalid⟩
  · exact ⟨0, 0, by simp [writeable_slice, hinvalid], Nat.zero_le _, hzero.symm, .inl rfl⟩
  · exact ⟨offset.toNat, size.toNat,
      by rw [writeable_slice, hvalid, if_pos rfl, hoff, hsize, if_pos hle], hle, rfl, .inr rfl⟩

/-- The output of a call is copied into the range that it was given. -/
theorem write_output_of_fits (data : Bytes) (hfits : FitsIn mem.length (offset, size))
    (hmem : mem.length < 2 ^ 64) :
    ∃ mem', write_output mem offset size data = some mem' ∧ mem'.length = mem.length := by
  obtain ⟨off, n, hslice, hle, -⟩ := writeable_slice_of_fits hfits hmem
  have hlen : off + (data.take n).length ≤ mem.length := by
    rw [List.length_take]
    omega
  obtain ⟨mem', hwrite, hmem'⟩ := overwrite_of_le hlen
  exact ⟨mem', by rw [write_output, hslice]; exact hwrite, hmem'⟩

/-- However the buffer is trimmed, what is seen through it is the range. -/
theorem into_return_data_deref (hfits : FitsIn mem.length (offset, size))
    (hmem : mem.length < 2 ^ 64) :
    ∃ data, into_return_data mem offset size = some data ∧
      data.deref = some ((mem.drop offset.toNat).take size.toNat) := by
  rcases range_of_fits hfits hmem with ⟨hzero, hinvalid⟩ | ⟨hoff, hsize, hle, hvalid⟩
  · refine ⟨.empty, by simp [into_return_data, hinvalid], ?_⟩
    rw [hzero, List.take_zero]
    rfl
  rw [hoff, hsize] at hvalid
  simp only [into_return_data, hoff, hsize]
  rw [if_neg (by simp [hvalid]), if_neg (by omega)]
  split
  · split
    · -- The memory is cut off behind the range.
      rename_i hzero
      refine ⟨_, rfl, ?_⟩
      simp only [ReturnData.deref, List.length_take, hzero, List.drop_zero]
      rw [if_pos (by omega), List.take_take, Nat.min_self]
    · -- The range is copied out, so it begins at zero.
      rw [slice_of_le hle, Option.map_some]
      refine ⟨_, rfl, ?_⟩
      simp only [ReturnData.deref, List.length_take, List.length_drop]
      rw [if_pos (by omega), List.drop_zero, List.take_take, Nat.min_self]
  · exact ⟨_, rfl, if_pos hle⟩

/-- What is returned can be read by the caller. -/
theorem into_return_data_of_fits (hfits : FitsIn mem.length (offset, size))
    (hmem : mem.length < 2 ^ 64) :
    ∃ data, into_return_data mem offset size = some data ∧ data.Readable := by
  obtain ⟨data, hdata, hderef⟩ := into_return_data_deref hfits hmem
  refine ⟨data, hdata, _, hderef, ?_⟩
  rw [List.length_take, List.length_drop]
  omega

/-- Return data is the addressed range of the memory. Of a range that is empty or that the memory
    was expanded to cover, the caller sees the same bytes as a read of the range gives, and neither
    the trimming of the buffer nor the slice of it is out of range. -/
theorem return_data_is_the_addressed_range (mem : Bytes) (hmem : mem.length < 2 ^ 64)
    (offset size : U256) (hfits : FitsIn mem.length (offset, size)) :
    ∃ data bytes, into_return_data mem offset size = some data ∧ data.deref = some bytes ∧
      read_slice mem offset size = some bytes ∧
      bytes = (mem.drop offset.toNat).take size.toNat := by
  obtain ⟨data, hdata, hderef⟩ := into_return_data_deref hfits hmem
  exact ⟨data, _, hdata, hderef, read_slice_of_fits hfits hmem, rfl⟩

/-- A memory that is too long to be kept for two bytes is cut off behind them, or they are copied
    out. -/
theorem two_bytes_are_returned :
    ∃ mem : Bytes, mem.length = 20003 ∧
      (∃ data, into_return_data mem 0 2 = some data ∧ data.mem = [1, 2] ∧
        data.deref = some [1, 2]) ∧
      ∃ data, into_return_data mem 1 2 = some data ∧ data.mem = [2, 3] ∧
        data.deref = some [2, 3] := by
  obtain ⟨rest, hrest⟩ : ∃ rest : Bytes, rest.length = 20000 :=
    ⟨List.replicate 20000 0, List.length_replicate⟩
  have hlen : (1 :: 2 :: 3 :: rest : Bytes).length = 20003 := congrArg (· + 3) hrest
  have hwaste : (1 :: 2 :: 3 :: rest : Bytes).length - 2 > MAX_RETURN_WASTE_BYTES := by
    rw [hlen]
    decide
  have hcut : into_return_data (1 :: 2 :: 3 :: rest) 0 2 = some ⟨[1, 2], 0, 2⟩ := if_pos hwaste
  have hcopied : into_return_data (1 :: 2 :: 3 :: rest) 1 2 = some ⟨[2, 3], 0, 2⟩ := by
    have hle : 1 + 2 ≤ (1 :: 2 :: 3 :: rest : Bytes).length := by rw [hlen]; decide
    exact (if_pos hwaste).trans (congrArg (Option.map (ReturnData.mk · 0 2)) (slice_of_le hle))
  refine ⟨1 :: 2 :: 3 :: rest, hlen, ?_, ?_⟩
  · obtain ⟨data, bytes, hdata, hderef, -, rfl⟩ := return_data_is_the_addressed_range
      (1 :: 2 :: 3 :: rest) (by rw [hlen]; decide) 0 2 (.inr (by rw [hlen]; decide))
    exact ⟨data, hdata, by rw [Option.some_inj.mp (hdata.symm.trans hcut)], hderef⟩
  · obtain ⟨data, bytes, hdata, hderef, -, rfl⟩ := return_data_is_the_addressed_range
      (1 :: 2 :: 3 :: rest) (by rw [hlen]; decide) 1 2 (.inr (by rw [hlen]; decide))
    exact ⟨data, hdata, by rw [Option.some_inj.mp (hdata.symm.trans hcopied)], hderef⟩

theorem length_expand (mem : Bytes) (size : Nat) :
    (expand mem size).length = max mem.length size := by
  unfold expand
  split
  · rw [List.length_append, List.length_replicate]
    omega
  · omega

end Memory

/-! ## Copying -/

namespace Local

theorem wp_set_mem {l : Local} {mem' : Bytes} {o : Option Bytes} (ho : o = some mem')
    {E : Panic → Prop} {Q : Except VmError Unit → Local → Prop}
    (hq : Q (.ok ()) { l with mem := mem' }) :
    wp (set_mem o) E Q l := by
  subst ho
  exact hq

/-- `mem'` is `mem` with the bytes of the source from `src` on, extended by zeros, in the range of
    `size` bytes from `dest` on. -/
structure CopyOf (source mem mem' : Bytes) (dest src size : Nat) : Prop where
  length : mem'.length = mem.length
  copied : ∀ i < size, mem'[dest + i]? = some (source[src + i]?.getD 0)
  frame : ∀ j, j < dest ∨ dest + size ≤ j → mem'[j]? = mem[j]?

/-- What the zeros leave of a copy to be done: the bytes that the source has. -/
structure ZerosOf (source mem mem' : Bytes) (dest src size : Nat) : Prop where
  length : mem'.length = mem.length
  zeros : ∀ i < size, source.length ≤ src + i → mem'[dest + i]? = some 0
  frame : ∀ j, j < dest ∨ dest + size ≤ j → mem'[j]? = mem[j]?

/-- What copying leaves: the operands are gone, and the memory has the copy. -/
def Copied (l : Local) (rest : List U256) (source : Bytes) (dest src size : Nat) (l' : Local) :
    Prop :=
  ∃ mem : Bytes, CopyOf source l.mem mem dest src size ∧ l' = { l with stack := rest, mem := mem }

section
variable {source mem mem' mem'' : Bytes} {dest src size output_end : Nat}

/-- Nothing of the source is in the window. -/
theorem ZerosOf.copyOf (h : ZerosOf source mem mem' dest src size)
    (hbeyond : source.length ≤ src ∨ size = 0) : CopyOf source mem mem' dest src size where
  length := h.length
  frame := h.frame
  copied i hi := by
    rw [h.zeros i hi (by omega), List.getElem?_eq_none (by omega), Option.getD_none]

/-- The bytes that the source has are written over the window. -/
theorem ZerosOf.copyOf_overwrite (h : ZerosOf source mem mem' dest src size)
    (hend : output_end = min source.length (src + size)) (hsrc : src ≤ output_end)
    (hwrite : Memory.overwrite mem' dest ((source.drop src).take (output_end - src)) = some mem'') :
    CopyOf source mem mem'' dest src size where
  length := (Memory.length_of_overwrite hwrite).trans h.length
  frame j hj := by
    rw [Memory.getElem?_of_overwrite hwrite, if_neg, h.frame j hj]
    simp only [List.length_take, List.length_drop]
    omega
  copied i hi := by
    rw [Memory.getElem?_of_overwrite hwrite]
    simp only [List.length_take, List.length_drop]
    by_cases hhas : src + i < source.length
    · rw [if_pos (by omega), Nat.add_sub_cancel_left, List.getElem?_take_of_lt (by omega),
        List.getElem?_drop, List.getElem?_eq_getElem hhas, Option.getD_some]
    · rw [if_neg (by omega), h.zeros i hi (by omega), List.getElem?_eq_none (by omega),
        Option.getD_none]

end

/-- The copy of the bytes that the source has, once the rest is filled with zeros. -/
theorem wp_copy {source mem : Bytes} {dest_offset source_offset size : U256} {output_end : Nat}
    {l : Local} (hsource : source.length < 2 ^ 64) (hmem : mem.length < 2 ^ 64)
    (hfits : FitsIn mem.length (dest_offset, size))
    (hend : source_offset.toNat < source.length →
      output_end = min source.length (source_offset.toNat + size.toNat))
    (hzeros : ZerosOf source mem l.mem dest_offset.toNat source_offset.toNat size.toNat) :
    wp (Prog.when (source_offset.toNat < source.length) do
      let bytes ← Prog.expect .memory_out_of_range
        (Memory.slice source source_offset.low_u64 (output_end - source_offset.low_u64))
      set_mem (Memory.write_slice (← Prog.gets Local.mem) dest_offset bytes))
      (fun _ => False) (fun r l' => r = .ok () ∧ Copied { l with mem := mem } l.stack source
        dest_offset.toNat source_offset.toNat size.toNat l') l := by
  refine wp_when (fun hlt => ?_) fun hge => ?_
  case refine_2 =>
    rw [decide_eq_false_iff_not] at hge
    exact ⟨rfl, l.mem, hzeros.copyOf (.inl (by omega)), rfl⟩
  rw [decide_eq_true_eq] at hlt
  have hend := hend hlt
  have hlow : source_offset.low_u64 = source_offset.toNat := low_u64_of_lt (by omega)
  rw [hlow, Memory.slice_of_le (by omega)]
  refine wp_bind.mpr (wp_pure.mpr (wp_bind.mpr (wp_gets.mpr ?_)))
  by_cases hzero : size.toNat = 0
  -- an empty window may start anywhere
  · have hempty : (source.drop source_offset.toNat).take (output_end - source_offset.toNat) =
        [] := by
      rw [List.take_eq_nil_iff]
      omega
    rw [hempty]
    exact wp_set_mem rfl ⟨rfl, l.mem, hzeros.copyOf (.inr hzero), rfl⟩
  · have hin : dest_offset.toNat + size.toNat ≤ mem.length := hfits.resolve_left hzero
    have hlen : ((source.drop source_offset.toNat).take (output_end - source_offset.toNat)).length =
        output_end - source_offset.toNat := by
      simp only [List.length_take, List.length_drop]
      omega
    have hsome : ((source.drop source_offset.toNat).take
        (output_end - source_offset.toNat)).isEmpty = false := by
      rw [List.isEmpty_eq_false_iff_exists_mem]
      exact List.exists_mem_of_length_pos (by omega)
    have hlength := hzeros.length
    have hroom : dest_offset.toNat + ((source.drop source_offset.toNat).take
        (output_end - source_offset.toNat)).length ≤ l.mem.length := by omega
    obtain ⟨mem'', hwrite, -⟩ := Memory.overwrite_of_le hroom
    have hslice : Memory.write_slice l.mem dest_offset
        ((source.drop source_offset.toNat).take (output_end - source_offset.toNat)) =
            some mem'' := by
      rw [Memory.write_slice, hsome, low_u64_of_lt (by omega)]
      exact hwrite
    exact wp_set_mem hslice ⟨rfl, mem'', hzeros.copyOf_overwrite hend (by omega) hwrite, rfl⟩

theorem toNat_of_length {source : Bytes} (h : source.length < 2 ^ 64) :
    (BitVec.ofNat 256 source.length : U256).toNat = source.length := by
  rw [BitVec.toNat_ofNat, Nat.mod_eq_of_lt (by omega)]

/-- The zeros that are written leave the bytes of the source to be copied. -/
theorem zerosOf_overwrite {source mem mem' : Bytes} {dest src size off n : Nat}
    (hwrite : Memory.overwrite mem off (List.replicate n 0) = some mem')
    (hwhere : n = 0 ∨ dest ≤ off ∧ off + n = dest + size)
    (hrest : ∀ i < size, source.length ≤ src + i → off ≤ dest + i ∧ dest + i < off + n) :
    ZerosOf source mem mem' dest src size where
  length := Memory.length_of_overwrite hwrite
  zeros i hi hlen := by
    obtain ⟨hle, hlt⟩ := hrest i hi hlen
    rw [Memory.getElem?_of_overwrite hwrite, List.length_replicate, if_pos ⟨hle, hlt⟩]
    exact List.getElem?_replicate_of_lt (by omega)
  frame j hj := by
    rw [Memory.getElem?_of_overwrite hwrite, List.length_replicate, if_neg (by omega)]

/-- What is left of `copy_data_to_memory` when it is known what is filled with zeros. -/
def fill_and_copy (source : Bytes) (dest_offset source_offset zero_offset zero_size : U256) :
    LocalM Unit := do
  let (off, len) ← Prog.expect .memory_out_of_range
    (Memory.writeable_slice (← Prog.gets mem) zero_offset zero_size)
  set_mem (Memory.overwrite (← Prog.gets mem) off (List.replicate len 0))
  let output_end ← pure source.length
  Prog.when (source_offset.toNat < source.length) do
    let bytes ← Prog.expect .memory_out_of_range
      (Memory.slice source source_offset.low_u64 (output_end - source_offset.low_u64))
    set_mem (Memory.write_slice (← Prog.gets mem) dest_offset bytes)

/-- Copying to a range that fits does not panic, and copies what it is asked to. -/
theorem wp_copy_data_to_memory {source : Bytes} {l : Local} {dest_offset source_offset size : U256}
    {rest : List U256} (hstack : l.stack = dest_offset :: source_offset :: size :: rest)
    (hsource : source.length < 2 ^ 64) (hmem : l.mem.length < 2 ^ 64)
    (hfits : FitsIn l.mem.length (dest_offset, size)) :
    wp (copy_data_to_memory source) (fun _ => False) (fun r l' => r = .ok () ∧ Copied l rest source
      dest_offset.toNat source_offset.toNat size.toNat l') l := by
  obtain ⟨mem, position, return_data, stack, return_stack, range⟩ := l
  obtain rfl : stack = _ := hstack
  have hmem' : mem.length < 2 ^ 64 := hmem
  -- the zeros, and what is copied after them
  have hzeros : ∀ zeros : U256 × U256, FitsIn mem.length zeros →
      (zeros.2.toNat = 0 ∨ dest_offset.toNat ≤ zeros.1.toNat ∧
        zeros.1.toNat + zeros.2.toNat = dest_offset.toNat + size.toNat) →
      (∀ i < size.toNat, source.length ≤ source_offset.toNat + i →
        zeros.1.toNat ≤ dest_offset.toNat + i ∧
          dest_offset.toNat + i < zeros.1.toNat + zeros.2.toNat) →
      (source_offset.toNat < source.length → source.length ≤ source_offset.toNat + size.toNat) →
      wp (fill_and_copy source dest_offset source_offset zeros.1 zeros.2) (fun _ => False)
        (fun r l' => r = .ok () ∧ Copied ⟨mem, position, return_data,
          dest_offset :: source_offset :: size :: rest, return_stack, range⟩ rest source
          dest_offset.toNat source_offset.toNat size.toNat l')
        ⟨mem, position, return_data, rest, return_stack, range⟩ := by
    intro zeros hfits' hwhere hrest hle
    obtain ⟨off, n, hslice, hin, hn, hoff⟩ := Memory.writeable_slice_of_fits hfits' hmem
    refine wp_bind.mpr (wp_gets.mpr (wp_bind.mpr ?_))
    simp only [hslice]
    refine wp_pure.mpr (wp_bind.mpr (wp_gets.mpr (wp_bind.mpr ?_)))
    have hin' : off + (List.replicate n (0 : UInt8)).length ≤ mem.length := by
      rw [List.length_replicate]
      exact hin
    obtain ⟨mem', hwrite, -⟩ := Memory.overwrite_of_le hin'
    have hleft : ZerosOf source mem mem' dest_offset.toNat source_offset.toNat size.toNat := by
      refine zerosOf_overwrite hwrite (by omega) fun i hi hlen => ?_
      have := hrest i hi hlen
      omega
    refine wp_set_mem hwrite (wp_bind.mpr (wp_pure.mpr
      (wp_copy hsource hmem hfits (fun hlt => ?_) hleft)))
    have := hle hlt
    omega
  show wp (if _ then _ else _) _ _ (⟨mem, position, return_data, rest, return_stack, range⟩ : Local)
  refine wp_ite (fun hbeyond => wp_ite (fun hlt => ?_) fun hle => ?_) fun hwithin => ?_
  · refine wp_bind.mpr (wp_pure.mpr
      (hzeros (dest_offset, size) hfits (.inr ⟨le_refl _, rfl⟩) (fun i hi _ => ?_) fun h => ?_))
    · show dest_offset.toNat ≤ _ ∧ _ < dest_offset.toNat + size.toNat
      omega
    · omega
  · have hsize := toNat_of_length hsource
    have hbeyond' : source.length < source_offset.toNat + size.toNat := by
      simp only [Bool.or_eq_true, decide_eq_true_eq] at hbeyond
      omega
    have hin : dest_offset.toNat + size.toNat ≤ mem.length :=
      hfits.resolve_left (show size.toNat ≠ 0 by omega)
    refine wp_bind.mpr (wp_expect (fun h => ?_) fun dest hdest => ?_)
    · have := U256.checked_add_eq_none.mp h
      omega
    have hdest' := U256.checked_add_eq_some.mp hdest
    refine wp_bind.mpr (wp_expect (fun h => ?_) fun dest₁ hdest₁ => ?_)
    · have := U256.checked_sub_eq_none.mp h
      omega
    have hdest₁' := U256.checked_sub_eq_some.mp hdest₁
    refine wp_bind.mpr (wp_expect (fun h => ?_) fun len hlen => ?_)
    · have := U256.checked_add_eq_none.mp h
      omega
    have hlen' := U256.checked_add_eq_some.mp hlen
    refine wp_bind.mpr (wp_expect (fun h => ?_) fun len₁ hlen₁ => ?_)
    · have := U256.checked_sub_eq_none.mp h
      omega
    have hlen₁' := U256.checked_sub_eq_some.mp hlen₁
    have hend : dest₁.toNat + len₁.toNat = dest_offset.toNat + size.toNat := by omega
    have hstart : dest₁.toNat + source_offset.toNat = dest_offset.toNat + source.length := by omega
    refine wp_bind.mpr (wp_pure.mpr (hzeros (dest₁, len₁) (.inr ?_) (.inr ?_) (fun i hi _ => ?_)
      fun _ => hbeyond'.le))
    · show dest₁.toNat + len₁.toNat ≤ mem.length
      omega
    · show _ ≤ dest₁.toNat ∧ dest₁.toNat + len₁.toNat = _
      omega
    · show dest₁.toNat ≤ _ ∧ _ < dest₁.toNat + len₁.toNat
      omega
  · simp only [Bool.or_eq_true, decide_eq_true_eq, not_or] at hwithin
    have hlow := low_u64_of_lt (x := size) (by omega)
    have hlow' := low_u64_of_lt (x := source_offset) (by omega)
    -- the source has all of the window
    refine wp_copy hsource hmem hfits (fun hlt => ?_) ⟨rfl, fun i hi hlen => ?_, fun _ _ => rfl⟩
    · omega
    · omega

end Local

end CfxEvm
