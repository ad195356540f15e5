import CfxEvm.Evm.Instructions
import CfxEvm.Types.Words

/-!
# Jump destinations and their cache

The positions a jump may go to are found by one sweep over the code, and kept per code hash in a
cache that is bounded by the memory it uses. A bit set is the list of its members.
-/

open Lib

namespace CfxEvm

/-! ## The cache bounded by memory -/

/-- An LRU cache which operates on memory used: the entries with the most recently used one first,
    and the number of entries there is room for. -/
structure MemoryLruCache (κ ν : Type) where
  inner : List (κ × ν)
  capacity : Nat
  cur_size : Nat
  max_size : Nat

namespace MemoryLruCache

variable {κ ν : Type} [DecidableEq κ]

def INITIAL_CAPACITY : Nat := 4

def new (max_size : Nat) : MemoryLruCache κ ν := ⟨[], INITIAL_CAPACITY, 0, max_size⟩

/-- Removes least recently used entries, which come first in the list, until the size is not above
    the maximum. -/
def shrink (heap_size_of : ν → Nat) (max_size : Nat) : List (κ × ν) → Nat → List (κ × ν) × Nat
  | [], cur_size => ([], cur_size)
  | e :: rest, cur_size =>
    if cur_size > max_size then shrink heap_size_of max_size rest (cur_size - heap_size_of e.2)
    else (e :: rest, cur_size)

/-- Insert an item. -/
def insert (heap_size_of : ν → Nat) (cache : MemoryLruCache κ ν) (key : κ) (val : ν) :
    MemoryLruCache κ ν :=
  let capacity := if cache.inner.length = cache.capacity ∧ cache.cur_size < cache.max_size
    then cache.capacity * 2 else cache.capacity
  let cur_size := cache.cur_size + heap_size_of val
  let old := cache.inner.lookup key
  let inner := (key, val) :: cache.inner.filter fun e => e.1 ≠ key
  let inner := inner.take capacity
  let cur_size := match old with
    | some lru => cur_size - heap_size_of lru
    | none => cur_size
  let (kept, cur_size) := shrink heap_size_of cache.max_size inner.reverse cur_size
  { cache with inner := kept.reverse, capacity := capacity, cur_size := cur_size }

/-- The item under the key, which becomes the most recently used one. -/
def get_mut (cache : MemoryLruCache κ ν) (key : κ) : Option ν × MemoryLruCache κ ν :=
  match cache.inner.lookup key with
  | none => (none, cache)
  | some val =>
    (some val, { cache with inner := (key, val) :: cache.inner.filter fun e => e.1 ≠ key })

end MemoryLruCache

/-! ## Jump destinations -/

/-- A bit set and its capacity in bits. -/
structure Bits where
  members : List Nat
  capacity : Nat

structure CacheItem where
  jump_destination : Bits
  sub_entrypoint : Bits

/-- The memory of an item, with the two pointers of the item itself. -/
def CacheItem.heap_size_of (i : CacheItem) : Nat :=
  16 + (i.jump_destination.capacity * 8 + i.sub_entrypoint.capacity * 8)

structure SharedCache where
  jump_destinations : MemoryLruCache H256 CacheItem

namespace SharedCache

def new (max_size : Nat) : SharedCache := ⟨.new max_size⟩

/-- The jump destinations and subroutine entries of the code from `position` on, of which the first
    `skip` bytes are data of a push. -/
def find_destinations : Bytes → (position skip : Nat) → List Nat × List Nat
  | [], _, _ => ([], [])
  | _ :: code, position, skip + 1 => find_destinations code (position + 1) skip
  | b :: code, position, 0 =>
    match Instruction.from_u8 b with
    | some .JUMPDEST =>
      let (jump_dests, sub_entrypoints) := find_destinations code (position + 1) 0
      (position :: jump_dests, sub_entrypoints)
    | some .BEGINSUB =>
      let (jump_dests, sub_entrypoints) := find_destinations code (position + 1) 0
      (jump_dests, position :: sub_entrypoints)
    | some instruction =>
      find_destinations code (position + 1) (instruction.push_bytes.getD 0)
    | none => find_destinations code (position + 1) 0

/-- The variables of the sweep over a code. -/
structure Sweep where
  position : Nat
  jump_dests : List Nat
  sub_entrypoints : List Nat

/-- What an instruction of the sweep is noted for, or the data that it makes the sweep skip. -/
def sweep_instruction (instruction : Option Instruction) : Prog Panic Sweep Empty Unit :=
  match instruction with
  | some .JUMPDEST => Prog.update fun s => { s with jump_dests := s.jump_dests ++ [s.position] }
  | some .BEGINSUB =>
    Prog.update fun s => { s with sub_entrypoints := s.sub_entrypoints ++ [s.position] }
  | some instruction =>
    match instruction.push_bytes with
    | some push_bytes => Prog.update fun s => { s with position := s.position + push_bytes }
    | none => pure ()
  | none => pure ()

/-- One round of the sweep, which ends behind the last byte: `find_destinations` is what its loop
    finds. -/
def sweep_round (code : Bytes) : Prog Panic Sweep Empty (Option Unit) := do
  let s ← Prog.gets id
  if s.position < code.length then
    let opcode ← Prog.expect .code_out_of_range code[s.position]?
    sweep_instruction (Instruction.from_u8 opcode)
    Prog.update fun s => { s with position := s.position + 1 }
    return none
  else return some ()

/-- The capacity of a bit set with room for `n` bits: its blocks have 32. Blocks that are dropped at
    its end, as those without a jump destination are, stay reserved. -/
def blockBits (n : Nat) : Nat := (n + 31) / 32 * 32

def find_jump_and_sub_destinations (code : Bytes) : CacheItem :=
  let (jump_dests, sub_entrypoints) := find_destinations code 0 0
  ⟨⟨jump_dests, blockBits code.length⟩, ⟨sub_entrypoints, blockBits code.length⟩⟩

/-- Get jump destinations bitmap for a contract. -/
def jump_and_sub_destinations [Keccak] (cache : SharedCache) (code_hash : Option H256)
    (code : Bytes) : CacheItem × SharedCache :=
  match code_hash with
  | none => (find_jump_and_sub_destinations code, cache)
  | some code_hash =>
    if code_hash = KECCAK_EMPTY then (find_jump_and_sub_destinations code, cache)
    else
      match cache.jump_destinations.get_mut code_hash with
      | (some d, jump_destinations) => (d, ⟨jump_destinations⟩)
      | (none, jump_destinations) =>
        let d := find_jump_and_sub_destinations code
        (d, ⟨jump_destinations.insert CacheItem.heap_size_of code_hash d⟩)

end SharedCache

end CfxEvm
