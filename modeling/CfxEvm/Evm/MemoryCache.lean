import CfxEvm.Evm.SharedCache
import CfxEvm.Lib.Loop

/-!
# The sizes of the memory-bounded cache

The cache keeps the sum of the sizes of its values in a `usize`, so the additions and subtractions
of `insert` can panic. What it does to its entries is left to an LRU cache that is bounded by the
number of entries, and that removes the least recently used one without a word when there are too
many.
-/

open Lib

namespace CfxEvm

/-- Where the sum of the sizes can leave its type. -/
inductive CacheSizePanic
  | add_overflow
  | sub_underflow
  deriving DecidableEq, Repr

abbrev CacheM (κ ν α : Type) := Prog CacheSizePanic (MemoryLruCache κ ν) Empty α

namespace MemoryLruCache

variable {κ ν : Type} [DecidableEq κ] (heap_size_of : ν → Nat)

/-! ## The inner cache -/

/-- `LruCache::insert`: gives the old value of the key. -/
def inner_insert (key : κ) (val : ν) : CacheM κ ν (Option ν) := do
  let cache ← Prog.gets id
  let inner := (key, val) :: cache.inner.filter fun e => e.1 ≠ key
  Prog.update fun cache => { cache with inner := inner.take cache.capacity }
  return cache.inner.lookup key

/-- `LruCache::remove_lru`. -/
def remove_lru : CacheM κ ν (Option (κ × ν)) := do
  let cache ← Prog.gets id
  Prog.update fun cache => { cache with inner := cache.inner.dropLast }
  return cache.inner.getLast?

/-! ## Sizes -/

/-- `self.cur_size += size`. -/
def add_size (size : Nat) : CacheM κ ν Unit := do
  let cur_size ← Prog.gets cur_size
  Prog.assert (cur_size + size < 2 ^ 64) .add_overflow
  Prog.update fun cache => { cache with cur_size := cur_size + size }

/-- `self.cur_size -= size`. -/
def sub_size (size : Nat) : CacheM κ ν Unit := do
  let cur_size ← Prog.gets cur_size
  Prog.assert (size ≤ cur_size) .sub_underflow
  Prog.update fun cache => { cache with cur_size := cur_size - size }

/-- Accounts for an element that was displaced, if there is one. -/
def displace (val : Option ν) : CacheM κ ν Unit :=
  match val with
  | some val => sub_size (heap_size_of val)
  | none => pure ()

/-- One round of the removal of elements until the size is not above the memory target. -/
def shrink_round : CacheM κ ν (Option Unit) := do
  let cache ← Prog.gets id
  if cache.cur_size > cache.max_size then
    match ← remove_lru with
    | some e => do
      sub_size (heap_size_of e.2)
      return none
    | none => return some ()
  else return some ()

/-- `insert`, with the sizes of the type `usize`. -/
def checked_insert (key : κ) (val : ν) : CacheM κ ν Unit := do
  let cache ← Prog.gets id
  -- Grow the cache as necessary; it operates on the amount of items.
  Prog.when (cache.inner.length = cache.capacity && cache.cur_size < cache.max_size)
    (Prog.update fun cache => { cache with capacity := cache.capacity * 2 })
  add_size (heap_size_of val)
  displace heap_size_of (← inner_insert key val)
  let items ← Prog.gets fun cache => cache.inner.length
  let _ ← Prog.loop (shrink_round heap_size_of) (items + 1)
  return ()

/-! ## Uses of a cache -/

/-- What is done with a cache. The reference that `get_mut` gives may be written through, but not
    with a value of another size. -/
inductive CacheOp (κ : Type) (heap_size_of : ν → Nat)
  | insert (key : κ) (val : ν)
  | get_mut (key : κ) (write : ν → ν) (h : ∀ v, heap_size_of (write v) = heap_size_of v)

/-- `get_mut`, and a write through the reference. -/
def write_mut (cache : MemoryLruCache κ ν) (key : κ) (write : ν → ν) : MemoryLruCache κ ν :=
  match cache.get_mut key with
  | (some val, cache) =>
    { cache with inner := (key, write val) :: cache.inner.filter fun e => e.1 ≠ key }
  | (none, cache) => cache

def apply (cache : MemoryLruCache κ ν) (op : CacheOp κ heap_size_of) :
    Except CacheSizePanic (MemoryLruCache κ ν) :=
  match op with
  | .insert key val => (checked_insert heap_size_of key val).final cache
  | .get_mut key write _ => .ok (cache.write_mut key write)

end MemoryLruCache

end CfxEvm
