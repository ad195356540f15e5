import CfxEvm.Evm.Proofs.FlowProofs

/-!
# Proofs: whose jump destinations an interpreter uses

The destinations of a code are kept in a cache under the hash that the interpreter was given with
its code, and the cache is shared by all interpreters. As long as every one of them is given the
hash of its own code, whatever is under a hash was found in a code with that hash: no jump is
checked against the destinations of a code with another hash.
-/

open Lib Lib.Prog

namespace CfxEvm

variable [Keccak]

/-- The destinations of the cache under a hash were found in a code with that hash. -/
def SharedCache.Hashed (cache : SharedCache) : Prop :=
  ∀ e ∈ cache.jump_destinations.inner, ∃ code, keccak code = e.1 ∧
    e.2 = SharedCache.find_jump_and_sub_destinations code

theorem SharedCache.hashed_new (max_size : Nat) : (SharedCache.new max_size).Hashed :=
  fun _ h => nomatch h

/-- A lookup under the hash of a code gives the destinations of a code with that hash. -/
theorem SharedCache.Hashed.destinations {cache : SharedCache} (h : cache.Hashed)
    {code_hash : Option H256} {code : Bytes}
    (hcode : code_hash = none ∨ code_hash = some (keccak code)) :
    (∃ code', keccak code' = keccak code ∧
      (cache.jump_and_sub_destinations code_hash code).1 = find_jump_and_sub_destinations code') ∧
      (cache.jump_and_sub_destinations code_hash code).2.Hashed := by
  unfold jump_and_sub_destinations
  rcases hcode with rfl | rfl
  · exact ⟨⟨code, rfl, rfl⟩, h⟩
  by_cases hempty : keccak code = KECCAK_EMPTY
  · simp only [hempty, if_true]
    exact ⟨⟨code, hempty, rfl⟩, h⟩
  · simp only [hempty, if_false]
    unfold MemoryLruCache.get_mut
    rcases hlookup : cache.jump_destinations.inner.lookup (keccak code) with _ | item
    · refine ⟨⟨code, rfl, rfl⟩, fun e he => ?_⟩
      rcases MemoryLruCache.mem_insert he with rfl | hmem
      · exact ⟨code, rfl, rfl⟩
      · exact h e hmem
    · have hmem := mem_of_lookup hlookup
      refine ⟨h _ hmem, fun e he => ?_⟩
      rcases List.mem_cons.mp he with rfl | hmem'
      · exact h _ hmem
      · exact h e (List.mem_of_mem_filter hmem')

namespace Interpreter

variable {c : CostType} {g : Globals} {ctx : FrameContext}

/-- The hash of the interpreter is missing or the one of its code, and the destinations that it has
    looked up are those of a code with this hash. -/
structure OwnCode (i : Interpreter c) : Prop where
  hash : i.params.code_hash = none ∨ i.params.code_hash = some (keccak i.code)
  jumps : ∀ dests, i.valid_jump_destinations = some dests → ∃ code, keccak code = keccak i.code ∧
    dests = (SharedCache.find_jump_and_sub_destinations code).jump_destination
  subroutines : ∀ dests, i.valid_subroutine_destinations = some dests →
    ∃ code, keccak code = keccak i.code ∧
      dests = (SharedCache.find_jump_and_sub_destinations code).sub_entrypoint

theorem OwnCode.of_sameJumps {i i' : Interpreter c} (h : i.OwnCode) (hsame : SameJumps i i') :
    i'.OwnCode := by
  constructor
  · rw [hsame.params, hsame.code]
    exact h.hash
  · rw [hsame.jumps, hsame.code]
    exact h.jumps
  · rw [hsame.subroutines, hsame.code]
    exact h.subroutines

/-- A new interpreter has looked up nothing. -/
theorem ownCode_new {params : ActionParams} {code : Bytes}
    (h : params.code_hash = none ∨ params.code_hash = some (keccak code)) :
    (Interpreter.new params code : Interpreter c).OwnCode :=
  ⟨h, fun _ h => (nomatch h), fun _ h => nomatch h⟩

/-- The interpreter and the cache are in order. -/
def InOrder (p : Interpreter c × Host State) : Prop := p.1.OwnCode ∧ p.2.shared_cache.Hashed

/-- They stay in order. -/
def StaysInOrder (p q : Interpreter c × Host State) : Prop := InOrder p → InOrder q

instance : IsPreorder (Interpreter c × Host State) StaysInOrder where
  refl _ := id
  trans _ _ _ h h' := h' ∘ h

theorem StaysInOrder.of_sameJumps {p q : Interpreter c × Host State} (hsame : SameJumps p.1 q.1)
    (hcache : q.2.shared_cache = p.2.shared_cache) : StaysInOrder p q := by
  rintro ⟨hown, hhashed⟩
  refine ⟨hown.of_sameJumps hsame, ?_⟩
  rw [hcache]
  exact hhashed

/-- The destinations that a jump is checked against. -/
theorem wp_own_jump_destinations {i : Interpreter c} {h : Host State} (hin : InOrder (i, h)) :
    wp jump_destinations (fun _ => True) (fun r p => InOrder p ∧ ∀ dests, r = .ok dests →
      ∃ code, keccak code = keccak i.code ∧
        dests = (SharedCache.find_jump_and_sub_destinations code).jump_destination) (i, h) := by
  obtain ⟨hown, hhashed⟩ := hin
  refine wp_bind.mpr (wp_gets.mpr ?_)
  rcases hdests : i.valid_jump_destinations with _ | dests
  · obtain ⟨⟨code, hcode, hitem⟩, hcache⟩ := hhashed.destinations hown.hash
    have hfound : ∀ dests, some (h.shared_cache.jump_and_sub_destinations i.params.code_hash
        i.code).1.jump_destination = some dests → ∃ code, keccak code = keccak i.code ∧
        dests = (SharedCache.find_jump_and_sub_destinations code).jump_destination := by
      rintro _ ⟨⟩
      exact ⟨code, hcode, congrArg CacheItem.jump_destination hitem⟩
    refine wp_bind.mpr (wp_gets.mpr (wp_bind.mpr (wp_update.mpr ?_)))
    refine ⟨⟨⟨hown.hash, hfound, hown.subroutines⟩, hcache⟩, ?_⟩
    rintro _ ⟨⟩
    exact hfound _ rfl
  · refine ⟨⟨hown, hhashed⟩, ?_⟩
    rintro _ ⟨⟩
    exact hown.jumps dests hdests

/-- The entries that a jump to a subroutine is checked against. -/
theorem wp_own_subroutine_destinations {i : Interpreter c} {h : Host State} (hin : InOrder (i, h)) :
    wp subroutine_destinations (fun _ => True) (fun r p => InOrder p ∧ ∀ dests, r = .ok dests →
      ∃ code, keccak code = keccak i.code ∧
        dests = (SharedCache.find_jump_and_sub_destinations code).sub_entrypoint) (i, h) := by
  obtain ⟨hown, hhashed⟩ := hin
  refine wp_bind.mpr (wp_gets.mpr ?_)
  rcases hdests : i.valid_subroutine_destinations with _ | dests
  · obtain ⟨⟨code, hcode, hitem⟩, hcache⟩ := hhashed.destinations hown.hash
    have hfound : ∀ dests, some (h.shared_cache.jump_and_sub_destinations i.params.code_hash
        i.code).1.sub_entrypoint = some dests → ∃ code, keccak code = keccak i.code ∧
        dests = (SharedCache.find_jump_and_sub_destinations code).sub_entrypoint := by
      rintro _ ⟨⟩
      exact ⟨code, hcode, congrArg CacheItem.sub_entrypoint hitem⟩
    refine wp_bind.mpr (wp_gets.mpr (wp_bind.mpr (wp_update.mpr ?_)))
    refine ⟨⟨⟨hown.hash, hown.jumps, hfound⟩, hcache⟩, ?_⟩
    rintro _ ⟨⟩
    exact hfound _ rfl
  · refine ⟨⟨hown, hhashed⟩, ?_⟩
    rintro _ ⟨⟩
    exact hown.subroutines dests hdests

theorem staysInOrder_stepKeeps : StepKeeps g ctx (StaysInOrder (c := c)) where
  exec_next := by
    rintro ⟨i, h⟩
    refine wp_post (exec_next_flow i h) ?_
    rintro r p ⟨hcache, -, hsame, -⟩
    exact .of_sameJumps hsame hcache
  jump_destinations := by
    rintro ⟨i, h⟩
    refine wp_intro (fun _ _ => trivial) fun r p hrun hin => ?_
    exact (wp_of_run (wp_own_jump_destinations hin) hrun).1
  subroutine_destinations := by
    rintro ⟨i, h⟩
    refine wp_intro (fun _ _ => trivial) fun r p hrun hin => ?_
    exact (wp_of_run (wp_own_subroutine_destinations hin) hrun).1
  onLocal _ _ _ := .of_sameJumps ⟨rfl, rfl, rfl, rfl⟩ rfl
  gasometer _ _ _ := .of_sameJumps ⟨rfl, rfl, rfl, rfl⟩ rfl
  taken_up _ _ := .of_sameJumps ⟨rfl, rfl, rfl, rfl⟩ rfl
  done _ _ := .of_sameJumps ⟨rfl, rfl, rfl, rfl⟩ rfl

/-- A step leaves the interpreter and the cache in order. -/
theorem step_staysInOrder : Keeps StaysInOrder (step g ctx : StepM c _) :=
  staysInOrder_stepKeeps.step

end Interpreter

end CfxEvm
