import CfxEvm.Vm.Types

/-!
# Memory and stack of the interpreter

The memory is a list of bytes; an access out of its range is a panic. Offsets and sizes are words
whose lowest 64 bits are used. The stack is a list with its top at the head.
-/

open Lib

namespace CfxEvm

/-! ## Memory -/

namespace Memory

def MAX_RETURN_WASTE_BYTES : Nat := 16384

/-- When the size is zero the memory has not been expanded. -/
def is_valid_range (off size : Nat) : Bool := 0 < size && off + size < 2 ^ 64

/-- `mem[off..off + size]`. -/
def slice (mem : Bytes) (off size : Nat) : Option Bytes :=
  if off + size ≤ mem.length then some ((mem.drop off).take size) else none

/-- `mem[off..off + bytes.len()].copy_from_slice(bytes)`. -/
def overwrite (mem : Bytes) (off : Nat) (bytes : Bytes) : Option Bytes :=
  if off + bytes.length ≤ mem.length
  then some (mem.take off ++ bytes ++ mem.drop (off + bytes.length)) else none

def read_slice (mem : Bytes) (offset size : U256) : Option Bytes :=
  if is_valid_range offset.low_u64 size.low_u64
  then slice mem offset.low_u64 size.low_u64 else some []

def read (mem : Bytes) (offset : U256) : Option U256 :=
  (slice mem offset.low_u64 32).map U256.from_big_endian

/-- The place and the length of the part that may be written. -/
def writeable_slice (mem : Bytes) (offset size : U256) : Option (Nat × Nat) :=
  if is_valid_range offset.low_u64 size.low_u64 then
    if offset.low_u64 + size.low_u64 ≤ mem.length then some (offset.low_u64, size.low_u64) else none
  else some (0, 0)

def write_slice (mem : Bytes) (offset : U256) (bytes : Bytes) : Option Bytes :=
  if bytes.isEmpty then some mem else overwrite mem offset.low_u64 bytes

def write (mem : Bytes) (offset value : U256) : Option Bytes :=
  overwrite mem offset.low_u64 value.to_big_endian

def write_byte (mem : Bytes) (offset value : U256) : Option Bytes :=
  overwrite mem offset.low_u64 [UInt8.ofNat value.toNat]

def expand (mem : Bytes) (size : Nat) : Bytes :=
  if mem.length < size then mem ++ List.replicate (size - mem.length) 0 else mem

/-- Copies the data into the range that a call was given for its output. -/
def write_output (mem : Bytes) (out_off out_size : U256) (data : Bytes) : Option Bytes := do
  let (off, size) ← writeable_slice mem out_off out_size
  overwrite mem off (data.take size)

/-- Convert memory into return data; unused bytes are dropped if they are many. -/
def into_return_data (mem : Bytes) (offset size : U256) : Option ReturnData :=
  let off := offset.low_u64
  let size := size.low_u64
  if !is_valid_range off size then some .empty
  else if mem.length < size then none
  else if mem.length - size > MAX_RETURN_WASTE_BYTES then
    if off = 0 then some ⟨mem.take size, off, size⟩
    else (slice mem off size).map fun bytes => ⟨bytes, 0, size⟩
  else some ⟨mem, off, size⟩

end Memory

/-! ## The part of an interpreter that the instructions work on -/

structure Local where
  mem : Bytes
  /-- `reader.position`. -/
  position : Nat
  return_data : ReturnData
  stack : List U256
  /-- The return positions of the subroutines, the last one at the head. -/
  return_stack : List Nat
  resume_output_range : Option (U256 × U256)
  deriving DecidableEq, Repr

abbrev LocalM (α : Type) := Prog Panic Local VmError α

namespace Local

def pop_back : LocalM U256 := do
  match ← Prog.gets stack with
  | [] => Prog.abort .stack_out_of_range
  | top :: rest =>
    Prog.update fun l => { l with stack := rest }
    return top

def push (elem : U256) : LocalM Unit := Prog.update fun l => { l with stack := elem :: l.stack }

def peek (no_from_top : Nat) : LocalM U256 := do
  Prog.expect .stack_out_of_range (← Prog.gets stack)[no_from_top]?

/-- Swaps the top with the item `no_from_top` places below it. -/
def swap_with_top (no_from_top : Nat) : LocalM Unit := do
  let top ← peek 0
  let item ← peek no_from_top
  Prog.update fun l => { l with stack := (l.stack.set no_from_top top).set 0 item }

/-- The topmost items, the top first. -/
def pop_n : Nat → LocalM (List U256)
  | 0 => return []
  | n + 1 => do
    let top ← pop_back
    let items ← pop_n n
    return top :: items

/-- Replaces the memory by what a memory operation made of it. -/
def set_mem (mem : Option Bytes) : LocalM Unit := do
  let mem ← Prog.expect .memory_out_of_range mem
  Prog.update fun l => { l with mem := mem }

def read_slice (offset size : U256) : LocalM Bytes := do
  Prog.expect .memory_out_of_range (Memory.read_slice (← Prog.gets mem) offset size)

/-- The bytes of the return data buffer. -/
def return_bytes : LocalM Bytes := do
  Prog.expect .memory_out_of_range (← Prog.gets return_data).deref

/-- Get `no_of_bytes` from code and convert to U256. Move PC. -/
def read (code : Bytes) (no_of_bytes : Nat) : LocalM U256 := do
  let pos ← Prog.gets position
  Prog.update fun l => { l with position := pos + no_of_bytes }
  let max := min (pos + no_of_bytes) code.length
  Prog.assert (pos ≤ max) .code_out_of_range
  return U256.from_big_endian ((code.drop pos).take (max - pos))

/-- Copies a part of `source`, extended by zeros, to the memory. The operands are on the stack. -/
def copy_data_to_memory (source : Bytes) : LocalM Unit := do
  let dest_offset ← pop_back
  let source_offset ← pop_back
  let size ← pop_back
  let source_size := source.length
  let output_end ←
    if source_size < source_offset.toNat || source_size < size.toNat
        || source_size < source_offset.toNat + size.toNat then do
      let (zero_offset, zero_size) ←
        if source_size < source_offset.toNat then pure (dest_offset, size)
        else do
          let dest ← Prog.expect .word_overflow
            (U256.checked_add dest_offset (BitVec.ofNat 256 source_size))
          let dest ← Prog.expect .word_overflow (U256.checked_sub dest source_offset)
          let len ← Prog.expect .word_overflow (U256.checked_add source_offset size)
          let len ← Prog.expect .word_overflow (U256.checked_sub len (BitVec.ofNat 256 source_size))
          pure (dest, len)
      let (off, len) ← Prog.expect .memory_out_of_range
        (Memory.writeable_slice (← Prog.gets mem) zero_offset zero_size)
      set_mem (Memory.overwrite (← Prog.gets mem) off (List.replicate len 0))
      pure source_size
    else pure (size.low_u64 + source_offset.low_u64)
  Prog.when (source_offset.toNat < source_size) do
    let output_begin := source_offset.low_u64
    let bytes ← Prog.expect .memory_out_of_range
      (Memory.slice source output_begin (output_end - output_begin))
    set_mem (Memory.write_slice (← Prog.gets mem) dest_offset bytes)

end Local

end CfxEvm
