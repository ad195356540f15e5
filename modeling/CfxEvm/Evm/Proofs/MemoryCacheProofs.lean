import CfxEvm.Evm.MemoryCache
import Mathlib.Algebra.GroupWithZero.Nat
import Mathlib.Data.List.Induction

/-!
# Proofs: the sizes of the memory-bounded cache

`cur_size` is the sum of the sizes of the values in the cache, and of those that the inner cache has
removed by itself. That happens when a new key is inserted into a cache that is full both in items
and in bytes: the inner cache is not grown then, and the wrapper is not told what it removes.
-/

open Lib Lib.Prog

namespace CfxEvm.MemoryLruCache

variable {κ ν : Type} [DecidableEq κ] {heap_size_of : ν → ℕ} {cache cache' : MemoryLruCache κ ν}
  {key : κ} {val : ν} {drift : ℕ}

/-- The sum of the sizes of the values. -/
def resident (heap_size_of : ν → ℕ) (inner : List (κ × ν)) : ℕ :=
  (inner.map fun e => heap_size_of e.2).sum

section
omit [DecidableEq κ]

@[simp] theorem resident_cons (e : κ × ν) (inner : List (κ × ν)) :
    resident heap_size_of (e :: inner) = heap_size_of e.2 + resident heap_size_of inner := by
  simp [resident]

theorem resident_append (l l' : List (κ × ν)) :
    resident heap_size_of (l ++ l') = resident heap_size_of l + resident heap_size_of l' := by
  simp [resident]

theorem resident_reverse (l : List (κ × ν)) :
    resident heap_size_of l.reverse = resident heap_size_of l := by
  simp [resident, List.sum_reverse]

end

/-! ## The entries other than that of a key -/

theorem lookup_eq_none_iff {inner : List (κ × ν)} :
    inner.lookup key = none ↔ key ∉ inner.map Prod.fst := by
  induction inner with
  | nil => simp
  | cons e inner ih =>
    obtain ⟨k, v⟩ := e
    rw [List.lookup_cons, List.map_cons, List.mem_cons]
    by_cases hk : key = k
    · simp [hk]
    · rw [beq_eq_false_iff_ne.mpr hk]
      simp [hk, ih]

theorem others_of_absent {inner : List (κ × ν)} (h : inner.lookup key = none) :
    (inner.filter fun e => e.1 ≠ key) = inner := by
  refine List.filter_eq_self.mpr fun e he => decide_eq_true ?_
  rintro rfl
  exact lookup_eq_none_iff.mp h (List.mem_map_of_mem he)

theorem filter_cons_of_ne {inner : List (κ × ν)} {k : κ} {v : ν} (hk : key ≠ k) :
    ((k, v) :: inner).filter (fun e => e.1 ≠ key) = (k, v) :: inner.filter fun e => e.1 ≠ key := by
  rw [List.filter_cons, if_pos (decide_eq_true (Ne.symm hk))]

theorem filter_cons_self {inner : List (κ × ν)} {v : ν} (hkey : key ∉ inner.map Prod.fst) :
    ((key, v) :: inner).filter (fun e => e.1 ≠ key) = inner := by
  rw [List.filter_cons, others_of_absent (lookup_eq_none_iff.mpr hkey)]
  simp

/-- Without the entry of a key that is there, the value of the key is missing. -/
theorem others_of_present {inner : List (κ × ν)} (hnodup : (inner.map Prod.fst).Nodup) {old : ν}
    (h : inner.lookup key = some old) :
    (inner.filter fun e => e.1 ≠ key).length + 1 = inner.length ∧
      ∀ heap_size_of : ν → ℕ, resident heap_size_of inner =
        heap_size_of old + resident heap_size_of (inner.filter fun e => e.1 ≠ key) := by
  induction inner with
  | nil => cases h
  | cons e inner ih =>
    obtain ⟨k, v⟩ := e
    rw [List.map_cons, List.nodup_cons] at hnodup
    rw [List.lookup_cons] at h
    by_cases hk : key = k
    · subst hk
      rw [beq_self_eq_true] at h
      obtain rfl := Option.some.inj h
      rw [filter_cons_self hnodup.1]
      exact ⟨rfl, fun _ => resident_cons _ _⟩
    · rw [beq_eq_false_iff_ne.mpr hk] at h
      obtain ⟨hlen, hsum⟩ := ih hnodup.2 h
      rw [filter_cons_of_ne hk, List.length_cons, List.length_cons, hlen]
      refine ⟨rfl, fun heap_size_of => ?_⟩
      rw [resident_cons, resident_cons, hsum]
      omega

/-- An entry that is put in front of the others has a key of its own. -/
theorem nodup_front {inner : List (κ × ν)} (hnodup : (inner.map Prod.fst).Nodup)
    (key : κ) (val : ν) :
    (((key, val) :: inner.filter fun e => e.1 ≠ key).map Prod.fst).Nodup := by
  rw [List.map_cons, List.nodup_cons]
  refine ⟨fun hmem => ?_, hnodup.sublist (List.filter_sublist.map _)⟩
  obtain ⟨e, he, rfl⟩ := List.mem_map.mp hmem
  have hne := of_decide_eq_true (List.mem_filter.mp he).2
  exact hne rfl

/-! ## The removal of entries -/

omit [DecidableEq κ] in
/-- What is removed was accounted for, and so is what is left. Entries are removed until the size
    fits, or there are none. -/
theorem shrink_spec (max_size : ℕ) (l : List (κ × ν)) (cur_size : ℕ)
    (hsize : cur_size = resident heap_size_of l + drift) :
    (shrink heap_size_of max_size l cur_size).2 =
        resident heap_size_of (shrink heap_size_of max_size l cur_size).1 + drift ∧
      ((shrink heap_size_of max_size l cur_size).2 ≤ max_size ∨
        (shrink heap_size_of max_size l cur_size).1 = []) ∧
      (shrink heap_size_of max_size l cur_size).1 <:+ l := by
  induction l generalizing cur_size with
  | nil => exact ⟨hsize, .inr rfl, List.suffix_refl _⟩
  | cons e l ih =>
    rw [resident_cons] at hsize
    unfold shrink
    split
    · obtain ⟨hsum, hmax, hsuffix⟩ := ih (cur_size - heap_size_of e.2) (by omega)
      exact ⟨hsum, hmax, hsuffix.trans (List.suffix_cons _ _)⟩
    · refine ⟨by rw [resident_cons]; exact hsize, .inl (by omega), List.suffix_refl _⟩

section
variable {cap max_size cur_size : ℕ} {l : List (κ × ν)} {e : κ × ν}

section
omit [DecidableEq κ]

theorem run_shrink_round_fits {inner : List (κ × ν)} (hle : cur_size ≤ max_size) :
    (shrink_round heap_size_of).run ⟨inner, cap, cur_size, max_size⟩ =
      .ok (.ok (some ()), ⟨inner, cap, cur_size, max_size⟩) := by
  change Prog.run (if cur_size > max_size then _ else _) _ = _
  rw [if_neg (by omega)]
  rfl

theorem run_shrink_round_empty :
    (shrink_round heap_size_of).run (⟨[], cap, cur_size, max_size⟩ : MemoryLruCache κ ν) =
      .ok (.ok (some ()), ⟨[], cap, cur_size, max_size⟩) := by
  by_cases hgt : cur_size > max_size
  · change Prog.run (if cur_size > max_size then _ else _) _ = _
    rw [if_pos hgt]
    rfl
  · exact run_shrink_round_fits (by omega)

theorem run_sub_size (cache : MemoryLruCache κ ν) {size : ℕ} (hle : size ≤ cache.cur_size) :
    (sub_size size).run cache = .ok (.ok (), { cache with cur_size := cache.cur_size - size }) := by
  change Prog.run (Prog.assert (decide (size ≤ cache.cur_size)) CacheSizePanic.sub_underflow >>= _)
    cache = _
  rw [decide_eq_true hle]
  rfl

theorem run_shrink_round_removes (hgt : cur_size > max_size) (hle : heap_size_of e.2 ≤ cur_size) :
    (shrink_round heap_size_of).run ⟨l ++ [e], cap, cur_size, max_size⟩ =
      .ok (.ok none, ⟨l, cap, cur_size - heap_size_of e.2, max_size⟩) := by
  change Prog.run (if cur_size > max_size then _ else _) _ = _
  rw [if_pos hgt]
  have hlru : remove_lru.run (⟨l ++ [e], cap, cur_size, max_size⟩ : MemoryLruCache κ ν) =
      .ok (.ok (some e), ⟨l, cap, cur_size, max_size⟩) := by
    show Except.ok (Except.ok (l ++ [e]).getLast?,
      (⟨(l ++ [e]).dropLast, _, _, _⟩ : MemoryLruCache κ ν)) = _
    rw [List.getLast?_concat, List.dropLast_concat]
  have hsub := run_sub_size (⟨l, cap, cur_size, max_size⟩ : MemoryLruCache κ ν) hle
  rw [run_bind, hlru]
  dsimp only
  rw [run_bind, hsub]
  rfl

/-- The loop removes what `shrink` does, and no subtraction in it goes below zero. -/
theorem run_shrink_loop (inner : List (κ × ν)) (cap max_size cur_size n : ℕ)
    (hsize : cur_size = resident heap_size_of inner + drift) (hn : inner.length < n) :
    (loop (shrink_round heap_size_of) n).run ⟨inner, cap, cur_size, max_size⟩ =
      .ok (.ok (some ()), ⟨(shrink heap_size_of max_size inner.reverse cur_size).1.reverse, cap,
        (shrink heap_size_of max_size inner.reverse cur_size).2, max_size⟩) := by
  induction inner using List.reverseRecOn generalizing cur_size n with
  | nil =>
    obtain ⟨n, rfl⟩ : ∃ m, n = m + 1 := ⟨n - 1, by simp at hn; omega⟩
    rw [run_loop_succ, run_shrink_round_empty]
    rfl
  | append_singleton inner e ih =>
    rw [List.length_append, List.length_singleton] at hn
    obtain ⟨n, rfl⟩ : ∃ m, n = m + 1 := ⟨n - 1, by omega⟩
    rw [resident_append, resident_cons] at hsize
    rw [run_loop_succ, List.reverse_append, List.reverse_singleton, List.singleton_append, shrink]
    by_cases hgt : cur_size > max_size
    · rw [if_pos hgt, run_shrink_round_removes hgt (by omega)]
      have hnil : resident heap_size_of ([] : List (κ × ν)) = 0 := rfl
      exact ih (cur_size - heap_size_of e.2) n (by omega) (by omega)
    · rw [if_neg hgt, run_shrink_round_fits (by omega), List.reverse_cons, List.reverse_reverse]

end

end

/-! ## Inserting -/

/-- What always holds of the entries of a cache: the keys are different, and there is room for
    them. -/
structure Wf (cache : MemoryLruCache κ ν) : Prop where
  nodup : (cache.inner.map Prod.fst).Nodup
  room : cache.inner.length ≤ cache.capacity
  capacity_pos : 0 < cache.capacity

/-- The capacity at the time when an item is inserted. -/
def grown (cache : MemoryLruCache κ ν) : ℕ :=
  if cache.inner.length = cache.capacity ∧ cache.cur_size < cache.max_size
  then cache.capacity * 2 else cache.capacity

/-- The entries after the inner cache has taken an item. -/
def entered (cache : MemoryLruCache κ ν) (key : κ) (val : ν) : List (κ × ν) :=
  ((key, val) :: cache.inner.filter fun e => e.1 ≠ key).take cache.grown

/-- The inner cache has to remove an entry for a new key. -/
def Evicts (cache : MemoryLruCache κ ν) (key : κ) : Prop :=
  cache.inner.lookup key = none ∧ cache.inner.length = cache.capacity ∧
    cache.max_size ≤ cache.cur_size

instance (cache : MemoryLruCache κ ν) (key : κ) : Decidable (cache.Evicts key) :=
  inferInstanceAs (Decidable (_ = none ∧ _ ∧ _))

/-- The size of the least recently used value. -/
def lru_size (heap_size_of : ν → ℕ) (cache : MemoryLruCache κ ν) : ℕ :=
  (cache.inner.getLast?.map fun e => heap_size_of e.2).getD 0

/-- The size of what the inner cache removes by itself. -/
def leaked (heap_size_of : ν → ℕ) (cache : MemoryLruCache κ ν) (key : κ) : ℕ :=
  if cache.Evicts key then cache.lru_size heap_size_of else 0

omit [DecidableEq κ] in
theorem le_grown (cache : MemoryLruCache κ ν) : cache.capacity ≤ cache.grown := by
  unfold grown
  split <;> omega

omit [DecidableEq κ] in
theorem resident_dropLast (heap_size_of : ν → ℕ) (cache : MemoryLruCache κ ν) :
    resident heap_size_of cache.inner =
      resident heap_size_of cache.inner.dropLast + cache.lru_size heap_size_of := by
  unfold lru_size
  rcases List.eq_nil_or_concat cache.inner with hnil | ⟨l, e, hl⟩
  · rw [hnil]
    rfl
  · rw [hl, List.concat_eq_append, resident_append, resident_cons, List.dropLast_concat,
      List.getLast?_concat]
    rfl

/-- The entries without those that the inner cache has removed. -/
theorem entered_eq (hwf : cache.Wf) :
    cache.entered key val = (key, val) :: (if cache.Evicts key then cache.inner.dropLast
      else cache.inner.filter fun e => e.1 ≠ key) := by
  have hroom := hwf.room
  have hgrown := cache.le_grown
  have hpos := hwf.capacity_pos
  unfold entered
  rcases hold : cache.inner.lookup key with _ | old
  · rw [others_of_absent hold]
    by_cases hevicts : cache.Evicts key
    · have hcap : cache.grown = cache.inner.length := by
        unfold grown
        rw [if_neg (by have := hevicts.2.2; omega), hevicts.2.1]
      rw [if_pos hevicts, hcap, List.dropLast_eq_take]
      have hfull := hevicts.2.1
      obtain ⟨n, hn⟩ : ∃ n, cache.inner.length = n + 1 := ⟨cache.inner.length - 1, by omega⟩
      rw [hn, List.take_succ_cons, Nat.add_sub_cancel]
    · rw [if_neg hevicts, List.take_of_length_le]
      rw [List.length_cons]
      by_cases hfull : cache.inner.length = cache.capacity
      · have hlt : cache.cur_size < cache.max_size := by
          by_contra hge
          exact hevicts ⟨hold, hfull, by omega⟩
        unfold grown
        rw [if_pos ⟨hfull, hlt⟩]
        omega
      · omega
  · have hlen := (others_of_present hwf.nodup hold).1
    rw [if_neg (fun hevicts => by rw [hevicts.1] at hold; cases hold), List.take_of_length_le]
    rw [List.length_cons]
    omega

/-- The size that is added pays for the new value, the one that was displaced, and the one that was
    removed without a word. -/
theorem entered_size (hwf : cache.Wf)
    (hsize : cache.cur_size = resident heap_size_of cache.inner + drift) (key : κ) (val : ν) :
    cache.cur_size + heap_size_of val = resident heap_size_of (cache.entered key val) +
      (drift + cache.leaked heap_size_of key) +
        ((cache.inner.lookup key).map heap_size_of).getD 0 := by
  rw [entered_eq hwf, resident_cons]
  unfold leaked
  rcases hold : cache.inner.lookup key with _ | old
  · by_cases hevicts : cache.Evicts key
    · have hlast := resident_dropLast heap_size_of cache
      rw [if_pos hevicts, if_pos hevicts]
      simp only [Option.map_none, Option.getD_none]
      omega
    · rw [if_neg hevicts, if_neg hevicts, others_of_absent hold]
      simp only [Option.map_none, Option.getD_none]
      omega
  · have hevicts : ¬cache.Evicts key := fun hevicts => by
      rw [hevicts.1] at hold
      cases hold
    have hsum := (others_of_present hwf.nodup hold).2 heap_size_of
    rw [if_neg hevicts, if_neg hevicts]
    simp only [Option.map_some, Option.getD_some]
    omega

/-- The size of the cache before entries are removed for the memory target. -/
def entered_cur_size (heap_size_of : ν → ℕ) (cache : MemoryLruCache κ ν) (key : κ) (val : ν) : ℕ :=
  cache.cur_size + heap_size_of val - ((cache.inner.lookup key).map heap_size_of).getD 0

theorem insert_eq (cache : MemoryLruCache κ ν) (key : κ) (val : ν) :
    cache.insert heap_size_of key val =
      ⟨(shrink heap_size_of cache.max_size (cache.entered key val).reverse
          (cache.entered_cur_size heap_size_of key val)).1.reverse, cache.grown,
        (shrink heap_size_of cache.max_size (cache.entered key val).reverse
          (cache.entered_cur_size heap_size_of key val)).2, cache.max_size⟩ := by
  unfold insert entered_cur_size
  rcases cache.inner.lookup key with _ | old <;> rfl

omit [DecidableEq κ] in
/-- The inner cache grows before the item is inserted. -/
theorem grow_spec {E : CacheSizePanic → Prop} {Q : Except Empty Unit → MemoryLruCache κ ν → Prop}
    (hq : Q (.ok ()) { cache with capacity := cache.grown }) :
    wp (Prog.when (cache.inner.length = cache.capacity && cache.cur_size < cache.max_size)
      (Prog.update fun cache => { cache with capacity := cache.capacity * 2 })) E Q cache := by
  unfold grown at hq
  refine wp_when (fun hfull => wp_update.mpr ?_) fun hroom => ?_
  · rw [Bool.and_eq_true, decide_eq_true_eq, decide_eq_true_eq] at hfull
    rw [if_pos hfull] at hq
    exact hq
  · have hnot : ¬(cache.inner.length = cache.capacity ∧ cache.cur_size < cache.max_size) := by
      rintro ⟨hlen, hlt⟩
      simp [hlen, hlt] at hroom
    rw [if_neg hnot] at hq
    exact hq

/-- An insertion panics only in the addition of the size, and comes to what `insert` says. -/
theorem checked_insert_spec (hwf : cache.Wf)
    (hsize : cache.cur_size = resident heap_size_of cache.inner + drift) (key : κ) (val : ν) :
    wp (checked_insert heap_size_of key val)
      (fun p => p = .add_overflow ∧ 2 ^ 64 ≤ cache.cur_size + heap_size_of val)
      (fun r cache' => r = .ok () ∧ cache.cur_size + heap_size_of val < 2 ^ 64 ∧
        cache' = cache.insert heap_size_of key val) cache := by
  have hentered := entered_size hwf hsize key val
  refine wp_bind.mpr (wp_gets.mpr (wp_bind.mpr (grow_spec ?_)))
  refine wp_bind.mpr (wp_bind.mpr (wp_gets.mpr (wp_bind.mpr (wp_assert (fun hfalse => ?_)
    fun htrue => wp_update.mpr ?_))))
  · exact ⟨rfl, not_lt.mp (of_decide_eq_false hfalse)⟩
  have hlt : cache.cur_size + heap_size_of val < 2 ^ 64 := of_decide_eq_true htrue
  refine wp_bind.mpr (wp_bind.mpr (wp_gets.mpr (wp_bind.mpr (wp_update.mpr (wp_pure.mpr ?_)))))
  -- The size of the displaced value is part of the sum, so it can be subtracted.
  have hloop : wp (do
      let items ← Prog.gets fun cache : MemoryLruCache κ ν => cache.inner.length
      let _ ← Prog.loop (shrink_round heap_size_of) (items + 1)
      return ())
      (fun p => p = .add_overflow ∧ 2 ^ 64 ≤ cache.cur_size + heap_size_of val)
      (fun r cache' => r = .ok () ∧ cache.cur_size + heap_size_of val < 2 ^ 64 ∧
        cache' = cache.insert heap_size_of key val)
      ⟨cache.entered key val, cache.grown, cache.entered_cur_size heap_size_of key val,
        cache.max_size⟩ := by
    have hcur : cache.entered_cur_size heap_size_of key val =
        resident heap_size_of (cache.entered key val) +
            (drift + cache.leaked heap_size_of key) := by
      unfold entered_cur_size
      omega
    have hrun := run_shrink_loop (cache.entered key val) cache.grown cache.max_size
      (cache.entered_cur_size heap_size_of key val) ((cache.entered key val).length + 1) hcur
      (Nat.lt_succ_self _)
    refine wp_bind.mpr (wp_gets.mpr (wp_bind.mpr ?_))
    unfold wp
    rw [hrun]
    exact ⟨rfl, hlt, (insert_eq cache key val).symm⟩
  unfold entered_cur_size at hloop
  change wp (displace heap_size_of (cache.inner.lookup key) >>= _) _ _
    (⟨cache.entered key val, cache.grown, cache.cur_size + heap_size_of val, cache.max_size⟩)
  rcases hold : cache.inner.lookup key with _ | old
  · rw [hold] at hloop
    exact hloop
  · rw [hold, Option.map_some, Option.getD_some] at hloop hentered
    refine wp_bind.mpr (wp_bind.mpr (wp_gets.mpr (wp_bind.mpr (wp_assert (fun hfalse => ?_)
      fun _ => wp_update.mpr hloop))))
    have hgt := of_decide_eq_false hfalse
    simp only at hgt
    omega

theorem entered_wf (hwf : cache.Wf) (key : κ) (val : ν) :
    ((cache.entered key val).map Prod.fst).Nodup ∧
      (cache.entered key val).length ≤ cache.grown := by
  refine ⟨?_, List.length_take_le _ _⟩
  exact (nodup_front hwf.nodup key val).sublist ((List.take_sublist _ _).map _)

/-- Whatever has leaked before, an insertion leaks what the inner cache removes by itself, and the
    size is not above the memory target afterwards. -/
theorem insert_spec (hwf : cache.Wf)
    (hsize : cache.cur_size = resident heap_size_of cache.inner + drift)
    (hmax : cache.cur_size ≤ cache.max_size) (key : κ) (val : ν) :
    (cache.insert heap_size_of key val).Wf ∧
      (cache.insert heap_size_of key val).cur_size =
        resident heap_size_of (cache.insert heap_size_of key val).inner +
          (drift + cache.leaked heap_size_of key) ∧
      (cache.insert heap_size_of key val).cur_size ≤ cache.max_size ∧
      (cache.insert heap_size_of key val).max_size = cache.max_size := by
  have hentered := entered_size hwf hsize key val
  obtain ⟨hnodup, hroom⟩ := entered_wf hwf key val
  have hcur : cache.entered_cur_size heap_size_of key val =
      resident heap_size_of (cache.entered key val).reverse +
        (drift + cache.leaked heap_size_of key) := by
    rw [resident_reverse]
    unfold entered_cur_size
    omega
  obtain ⟨hsum, hfits, hsuffix⟩ :=
    shrink_spec cache.max_size (cache.entered key val).reverse _ hcur
  rw [insert_eq]
  generalize shrink heap_size_of cache.max_size (cache.entered key val).reverse
    (cache.entered_cur_size heap_size_of key val) = kept at hsum hfits hsuffix
  refine ⟨⟨?_, ?_, ?_⟩, ?_, ?_, rfl⟩
  · have hsub : kept.1.reverse.Sublist (cache.entered key val) := by
      have h := hsuffix.sublist.reverse
      rwa [List.reverse_reverse] at h
    exact hnodup.sublist (hsub.map _)
  · have hlen := hsuffix.length_le
    rw [List.length_reverse] at hlen
    show kept.1.reverse.length ≤ cache.grown
    rw [List.length_reverse]
    omega
  · exact lt_of_lt_of_le hwf.capacity_pos cache.le_grown
  · show kept.2 = resident heap_size_of kept.1.reverse + _
    rw [resident_reverse]
    exact hsum
  · -- If all entries are gone, only what has leaked is left, which was part of the size before.
    show kept.2 ≤ cache.max_size
    rcases hfits with hle | hnil
    · exact hle
    · have hlast := resident_dropLast heap_size_of cache
      have hleak : cache.leaked heap_size_of key ≤ cache.lru_size heap_size_of := by
        unfold leaked
        split <;> omega
      have hzero : resident heap_size_of kept.1 = 0 := by
        rw [hnil]
        rfl
      omega

/-- A reference to an item leaves the sizes alone. -/
theorem write_mut_spec (hwf : cache.Wf) (key : κ) {write : ν → ν}
    (hwrite : ∀ v, heap_size_of (write v) = heap_size_of v) :
    (cache.write_mut key write).Wf ∧ (cache.write_mut key write).cur_size = cache.cur_size ∧
      resident heap_size_of (cache.write_mut key write).inner =
        resident heap_size_of cache.inner ∧
      (cache.write_mut key write).max_size = cache.max_size := by
  unfold write_mut get_mut
  rcases hold : cache.inner.lookup key with _ | old
  · exact ⟨hwf, rfl, rfl, rfl⟩
  · obtain ⟨hlen, hsum⟩ := others_of_present hwf.nodup hold
    have hothers : (((key, old) :: cache.inner.filter fun e => e.1 ≠ key).filter
        fun e => e.1 ≠ key) = cache.inner.filter fun e => e.1 ≠ key := by
      rw [List.filter_cons, List.filter_filter]
      simp
    dsimp only
    rw [hothers]
    refine ⟨⟨nodup_front hwf.nodup key _, ?_, hwf.capacity_pos⟩, rfl, ?_, rfl⟩
    · show List.length (_ :: _) ≤ cache.capacity
      rw [List.length_cons, hlen]
      exact hwf.room
    · rw [resident_cons, hwrite, hsum]

/-! ## All uses -/

/-- The cache is in order, but its size is too large by what has leaked. -/
structure Drifts (heap_size_of : ν → ℕ) (max_size drift : ℕ) (cache : MemoryLruCache κ ν) : Prop
    extends cache.Wf where
  size : cache.cur_size = resident heap_size_of cache.inner + drift
  size_le : cache.cur_size ≤ max_size
  target : cache.max_size = max_size

/-- What leaks in the use of a cache. -/
def lost (heap_size_of : ν → ℕ) (cache : MemoryLruCache κ ν) : CacheOp κ heap_size_of → ℕ
  | .insert key _ => cache.leaked heap_size_of key
  | .get_mut _ _ _ => 0

/-- The size of the new item does not fit into a `usize` together with the size of the cache. -/
def TooLarge (heap_size_of : ν → ℕ) (cache : MemoryLruCache κ ν) : CacheOp κ heap_size_of → Prop
  | .insert _ val => 2 ^ 64 ≤ cache.cur_size + heap_size_of val
  | .get_mut _ _ _ => False

omit [DecidableEq κ] in
theorem drifts_new (heap_size_of : ν → ℕ) (max_size : ℕ) :
    Drifts heap_size_of max_size 0 (new max_size : MemoryLruCache κ ν) :=
  ⟨⟨List.nodup_nil, Nat.zero_le _, Nat.zero_lt_succ 3⟩, rfl, Nat.zero_le _, rfl⟩

theorem Drifts.apply {max_size : ℕ} (h : Drifts heap_size_of max_size drift cache)
    (op : CacheOp κ heap_size_of) :
    (cache.apply heap_size_of op = .error .add_overflow ∧ cache.TooLarge heap_size_of op) ∨
      (¬cache.TooLarge heap_size_of op ∧ ∃ cache', cache.apply heap_size_of op = .ok cache' ∧
        Drifts heap_size_of max_size (drift + cache.lost heap_size_of op) cache') := by
  cases op with
  | insert key val =>
    have hspec := checked_insert_spec h.toWf h.size key val
    have hfinal : cache.apply heap_size_of (.insert key val) =
        ((checked_insert heap_size_of key val).run cache).map Prod.snd := rfl
    rw [hfinal]
    rcases hrun : (checked_insert heap_size_of key val).run cache with p | ⟨r, cache'⟩
    · obtain ⟨rfl, hlarge⟩ := wp_of_panic hspec hrun
      exact .inl ⟨rfl, hlarge⟩
    · obtain ⟨-, hlt, rfl⟩ := wp_of_run hspec hrun
      obtain ⟨hwf, hsize, hmax, htarget⟩ := insert_spec h.toWf h.size (h.target ▸ h.size_le) key val
      exact .inr ⟨not_le.mpr hlt, _, rfl, hwf, hsize, h.target ▸ hmax, htarget.trans h.target⟩
  | get_mut key write hwrite =>
    obtain ⟨hwf, hcur, hsum, htarget⟩ := write_mut_spec h.toWf key hwrite
    refine .inr ⟨id, _, rfl, hwf, ?_, ?_, htarget.trans h.target⟩
    · rw [hcur, hsum]
      exact h.size
    · rw [hcur]
      exact h.size_le

/-- The cache after some uses. -/
def uses (heap_size_of : ν → ℕ) (max_size : ℕ) (ops : List (CacheOp κ heap_size_of)) :
    Except CacheSizePanic (MemoryLruCache κ ν) :=
  ops.foldlM (apply heap_size_of) (new max_size)

/-- The cache accounts for what it holds, no more than it may hold, and no subtraction went below
    zero. -/
def Accounts (heap_size_of : ν → ℕ) (max_size : ℕ)
    (outcome : Except CacheSizePanic (MemoryLruCache κ ν)) : Prop :=
  outcome ≠ .error .sub_underflow ∧ ∀ cache, outcome = .ok cache →
    cache.cur_size = resident heap_size_of cache.inner ∧ cache.cur_size ≤ max_size

/-- No item leaks: a new key is not inserted into a cache that is full both in items and in bytes,
    unless the value that goes has no size, or the size of the new one is too large to be added. -/
def Notices (heap_size_of : ν → ℕ) (cache : MemoryLruCache κ ν) (op : CacheOp κ heap_size_of) :
    Prop :=
  match op with
  | .insert key _ =>
    cache.Evicts key → cache.lru_size heap_size_of = 0 ∨ cache.TooLarge heap_size_of op
  | .get_mut _ _ _ => True

theorem uses_append (max_size : ℕ) (ops : List (CacheOp κ heap_size_of))
    (op : CacheOp κ heap_size_of) :
    uses heap_size_of max_size (ops ++ [op]) =
      (uses heap_size_of max_size ops).bind fun cache => cache.apply heap_size_of op := by
  unfold uses
  rw [List.foldlM_append]
  rcases ops.foldlM (apply heap_size_of) (new max_size) with p | cache
  · rfl
  · exact bind_pure (cache.apply heap_size_of op)

/-- Nothing is lost in a step that notices what the inner cache removes, and is carried out. -/
theorem lost_eq_zero_iff {op : CacheOp κ heap_size_of} (hsmall : ¬cache.TooLarge heap_size_of op) :
    cache.lost heap_size_of op = 0 ↔ cache.Notices heap_size_of op := by
  cases op with
  | get_mut key write hwrite => exact ⟨fun _ => trivial, fun _ => rfl⟩
  | insert key val =>
    show cache.leaked heap_size_of key = 0 ↔ (cache.Evicts key → _ ∨ _)
    unfold leaked
    by_cases hevicts : cache.Evicts key
    · rw [if_pos hevicts]
      exact ⟨fun hzero _ => .inl hzero, fun h => (h hevicts).resolve_right hsmall⟩
    · rw [if_neg hevicts]
      exact ⟨fun _ h => absurd h hevicts, fun _ => rfl⟩

/-- Whatever leaks, no subtraction goes below zero and the size is not above the target. -/
theorem uses_drifts (max_size : ℕ) (ops : List (CacheOp κ heap_size_of)) :
    uses heap_size_of max_size ops = .error .add_overflow ∨
      ∃ cache drift, uses heap_size_of max_size ops = .ok cache ∧
        Drifts heap_size_of max_size drift cache := by
  induction ops using List.reverseRecOn with
  | nil => exact .inr ⟨_, 0, rfl, drifts_new heap_size_of max_size⟩
  | append_singleton ops op ih =>
    rw [uses_append]
    rcases ih with hoverflow | ⟨cache, drift, hcache, hdrifts⟩
    · rw [hoverflow]
      exact .inl rfl
    · rw [hcache]
      rcases hdrifts.apply op with ⟨hoverflow, -⟩ | ⟨-, cache', hcache', hdrifts'⟩
      · exact .inl hoverflow
      · exact .inr ⟨cache', _, hcache', hdrifts'⟩

/-- As long as every step notices what the inner cache removes, nothing leaks. -/
theorem drifts_zero {max_size : ℕ} {ops : List (CacheOp κ heap_size_of)}
    (hnotices : ∀ done op, done ++ [op] <+: ops →
      ∀ cache, uses heap_size_of max_size done = .ok cache →
      cache.Notices heap_size_of op) {cache : MemoryLruCache κ ν}
    (hcache : uses heap_size_of max_size ops = .ok cache) :
    Drifts heap_size_of max_size 0 cache := by
  induction ops using List.reverseRecOn generalizing cache with
  | nil =>
    cases hcache
    exact drifts_new heap_size_of max_size
  | append_singleton ops op ih =>
    rw [uses_append] at hcache
    rcases hbefore : uses heap_size_of max_size ops with p | before
    · rw [hbefore] at hcache
      cases hcache
    · rw [hbefore] at hcache
      change before.apply heap_size_of op = .ok cache at hcache
      have hdrifts := ih (fun done op' hdone =>
        hnotices done op' (hdone.trans (List.prefix_append _ _))) hbefore
      rcases hdrifts.apply op with ⟨hoverflow, -⟩ | ⟨hsmall, cache', hcache', hdrifts'⟩
      · rw [hoverflow] at hcache
        cases hcache
      · have hzero := (lost_eq_zero_iff hsmall).mpr
          (hnotices ops op (List.prefix_refl _) before hbefore)
        rw [hzero] at hdrifts'
        obtain rfl := Except.ok.inj (hcache'.symm.trans hcache)
        exact hdrifts'

/-- The cache accounts for what it holds just as long as it notices what the inner cache removes.
    For any memory target and any values, the size is the sum of the sizes of the values in the
    cache, within the target and never below zero, in all states of a sequence of uses if and only
    if no use of the sequence inserts a new key into a cache that is full both in items and in
    bytes. -/
theorem cache_accounts_iff (max_size : ℕ) (ops : List (CacheOp κ heap_size_of)) :
    (∀ done, done <+: ops → Accounts heap_size_of max_size (uses heap_size_of max_size done)) ↔
      ∀ done op, done ++ [op] <+: ops → ∀ cache, uses heap_size_of max_size done = .ok cache →
        cache.Notices heap_size_of op := by
  refine ⟨fun haccounts done op hop cache hcache => ?_, fun hnotices done hdone => ?_⟩
  · have hdone : done <+: ops := (List.prefix_append _ _).trans hop
    rcases uses_drifts max_size done with hoverflow | ⟨cache', drift, hcache', hdrifts⟩
    · rw [hcache] at hoverflow
      cases hoverflow
    obtain rfl := Except.ok.inj (hcache'.symm.trans hcache)
    rcases hdrifts.apply op with ⟨-, hlarge⟩ | ⟨hsmall, after, hafter, hdrifts'⟩
    · cases op with
      | insert key val => exact fun _ => .inr hlarge
      | get_mut key write hwrite => trivial
    · refine (lost_eq_zero_iff hsmall).mp ?_
      have huses : uses heap_size_of max_size (done ++ [op]) = .ok after := by
        rw [uses_append, hcache]
        exact hafter
      have hsize := ((haccounts _ hop).2 after huses).1
      have hsize' := hdrifts'.size
      omega
  · rcases uses_drifts max_size done with hoverflow | ⟨cache, drift, hcache, hdrifts⟩
    · rw [hoverflow]
      exact ⟨by rintro ⟨⟩, fun _ h => nomatch h⟩
    · rw [hcache]
      refine ⟨by rintro ⟨⟩, ?_⟩
      rintro _ ⟨⟩
      have hsize :=
        (drifts_zero (fun done' op hop => hnotices done' op (hop.trans hdone)) hcache).size
      exact ⟨hsize, hdrifts.size_le⟩

/-- Five items of code of at most 32 bytes, where there is room for four of them. -/
theorem fifth_item_leaks :
    ¬Accounts CacheItem.heap_size_of 2112 (uses CacheItem.heap_size_of 2112
      (([1, 2, 3, 4, 5] : List H256).map fun key => .insert key ⟨⟨[], 32⟩, ⟨[], 32⟩⟩)) :=
  fun h => absurd (h.2 _ rfl).1 (by decide)

end CfxEvm.MemoryLruCache
