import CfxEvm.State.Substate

/-!
# Proofs: the call stack and its counters

The recipients of the live frames are kept twice: as a stack, and as a table that says how often
each address is on the stack. Whatever is pushed and popped, the table counts the stack.
-/

open Lib

namespace CfxEvm

/-- An operation on the call stack. -/
inductive StackOp
  | push (address : Address) (is_create : Bool)
  | pop
  deriving DecidableEq, Repr

namespace StackOp

/-- What an operation is for, on the stack alone. -/
def recipients (stack : List (Address × Bool)) : StackOp → List (Address × Bool)
  | push address is_create => (address, is_create) :: stack
  | pop => stack.tail

end StackOp

namespace FrameStackInfo

def apply (c : FrameStackInfo) : StackOp → Except Panic FrameStackInfo
  | .push address is_create => c.push address is_create
  | .pop => c.pop.map Prod.snd

/-- How often the address is on the stack. -/
def occurrences (stack : List (Address × Bool)) (a : Address) : ℕ := (stack.map Prod.fst).count a

/-- The table has a counter for every address on the stack, and for no other one. -/
def Counts (c : FrameStackInfo) : Prop :=
  ∀ a, c.address_counter.lookup a =
    if occurrences c.call_stack_recipient_addresses a = 0 then none
    else some (occurrences c.call_stack_recipient_addresses a)

variable {c c' : FrameStackInfo} {a : Address} {is_create : Bool}

theorem occurrences_cons (top : Address × Bool) (stack : List (Address × Bool)) (a : Address) :
    occurrences (top :: stack) a = occurrences stack a + if top.1 = a then 1 else 0 := by
  unfold occurrences
  rw [List.map_cons, List.count_cons]
  simp only [beq_iff_eq]

theorem counts_new : Counts new := fun _ => rfl

/-- The counter of an address, where no counter stands for zero. -/
theorem Counts.counter (h : c.Counts) (a : Address) :
    (c.address_counter.lookup a).getD 0 = occurrences c.call_stack_recipient_addresses a := by
  rw [h a]
  split
  · exact Eq.symm ‹_›
  · rfl

theorem Counts.contains_key_iff (h : c.Counts) (a : Address) :
    c.contains_key a = true ↔ a ∈ c.call_stack_recipient_addresses.map Prod.fst := by
  unfold contains_key
  rw [h a, ← List.count_pos_iff]
  change _ ↔ 0 < occurrences c.call_stack_recipient_addresses a
  split
  · simp [*]
  · simp only [Option.isSome_some, true_iff]
    omega

/-! ## Operations -/

/-- A push fails only if the counter of the address is as large as it can be. -/
theorem Counts.push (h : c.Counts) (a : Address) (is_create : Bool) :
    (∃ c', c.push a is_create = .ok c' ∧ c'.Counts ∧
      c'.call_stack_recipient_addresses = (a, is_create) :: c.call_stack_recipient_addresses) ∨
    (c.push a is_create = .error .callstack_counter ∧
      2 ^ 32 ≤ occurrences c.call_stack_recipient_addresses a + 1) := by
  unfold FrameStackInfo.push
  rw [h.counter a]
  by_cases hlt : occurrences c.call_stack_recipient_addresses a + 1 < 2 ^ 32
  · refine .inl ⟨_, if_pos hlt, fun b => ?_, rfl⟩
    rw [HashMap.lookup_insert_eq, occurrences_cons]
    by_cases hb : b = a
    · subst hb
      rw [if_pos rfl, if_pos rfl, if_neg (by omega)]
    · rw [if_neg hb, if_neg (Ne.symm hb), Nat.add_zero]
      exact h b
  · exact .inr ⟨if_neg hlt, by omega⟩

/-- A pop takes the top of the stack, and finds its counter. -/
theorem Counts.pop (h : c.Counts) :
    ∃ c', c.pop = .ok (c.call_stack_recipient_addresses.head?, c') ∧ c'.Counts ∧
      c'.call_stack_recipient_addresses = c.call_stack_recipient_addresses.tail := by
  obtain ⟨stack, counter⟩ := c
  cases stack with
  | nil => exact ⟨_, rfl, h, rfl⟩
  | cons top rest =>
    have htop : counter.lookup top.1 = some (occurrences rest top.1 + 1) := by
      have := h top.1
      rw [occurrences_cons, if_pos rfl, if_neg (by omega)] at this
      exact this
    simp only [FrameStackInfo.pop, htop]
    refine ⟨_, rfl, fun b => ?_, rfl⟩
    have hb := h b
    rw [occurrences_cons] at hb
    change (if occurrences rest top.1 = 0 then _ else _ : HashMap Address ℕ).lookup b =
      if occurrences rest b = 0 then none else some (occurrences rest b)
    by_cases heq : b = top.1
    · -- The counter goes down, and the entry goes with the last occurrence.
      subst heq
      split
      · rw [HashMap.lookup_erase_eq, if_pos rfl]
      · rw [HashMap.lookup_insert_eq, if_pos rfl]
    · rw [if_neg (Ne.symm heq), Nat.add_zero] at hb
      rw [← hb]
      split
      · rw [HashMap.lookup_erase_eq, if_neg heq, HashMap.lookup_insert_eq, if_neg heq]
      · rw [HashMap.lookup_insert_eq, if_neg heq]

/-! ## All histories -/

/-- What is said of a call stack that should hold the given recipients. -/
structure Faithful (stack : List (Address × Bool)) (c : FrameStackInfo) : Prop where
  stack_eq : c.call_stack_recipient_addresses = stack
  counter : ∀ a, (c.address_counter.lookup a).getD 0 = occurrences stack a
  contains_key_iff : ∀ a, c.contains_key a = true ↔ a ∈ stack.map Prod.fst
  last_eq : c.last = stack.head?.map Prod.fst
  /-- A pop returns the pair that was pushed last of those that are left. -/
  pop_ok : ∃ c', c.pop = .ok (stack.head?, c')

theorem Counts.faithful (h : c.Counts) : Faithful c.call_stack_recipient_addresses c := by
  obtain ⟨c', hpop, -⟩ := h.pop
  exact ⟨rfl, h.counter, h.contains_key_iff, rfl, c', hpop⟩

/-- One operation does to the stack what it is for, unless it pushes an address too often. -/
theorem Counts.apply (h : c.Counts) (op : StackOp) :
    (∃ c', c.apply op = .ok c' ∧ c'.Counts ∧
      c'.call_stack_recipient_addresses = op.recipients c.call_stack_recipient_addresses) ∨
    ∃ a is_create, op = .push a is_create ∧ c.apply op = .error .callstack_counter ∧
      2 ^ 32 ≤ occurrences c.call_stack_recipient_addresses a + 1 := by
  cases op with
  | push a is_create =>
    rcases h.push a is_create with hok | hfull
    · exact .inl hok
    · exact .inr ⟨a, is_create, rfl, hfull⟩
  | pop =>
    obtain ⟨c', hpop, hcounts, hstack⟩ := h.pop
    exact .inl ⟨c', by rw [FrameStackInfo.apply, hpop]; rfl, hcounts, hstack⟩

/-- The operations that come before a push that fails, because the address is on the stack as often
    as the counter can tell. -/
structure Overflows (c : FrameStackInfo) (ops before : List StackOp) (c' : FrameStackInfo) :
    Prop where
  push : ∃ a is_create after, ops = before ++ .push a is_create :: after ∧
    c'.push a is_create = .error .callstack_counter ∧
    2 ^ 32 ≤ occurrences c'.call_stack_recipient_addresses a + 1
  before_ok : before.foldlM FrameStackInfo.apply c = .ok c'

/-- From a stack that is counted, all operations do what they are for up to a push that fails. -/
theorem Counts.foldlM (h : c.Counts) (ops : List StackOp) :
    ∃ before c', (before = ops ∧ ops.foldlM FrameStackInfo.apply c = .ok c' ∨
      Overflows c ops before c') ∧
      c'.Counts ∧ c'.call_stack_recipient_addresses =
        before.foldl StackOp.recipients c.call_stack_recipient_addresses := by
  induction ops generalizing c with
  | nil => exact ⟨[], c, .inl ⟨rfl, rfl⟩, h, rfl⟩
  | cons op ops ih =>
    rcases h.apply op with ⟨c₁, hok, hcounts, hstack⟩ | ⟨a, is_create, rfl, herror, hfull⟩
    · obtain ⟨before, c', hrun, hcounts', hstack'⟩ := ih hcounts
      refine ⟨op :: before, c', ?_, hcounts', by rw [List.foldl_cons, ← hstack, hstack']⟩
      rcases hrun with ⟨rfl, hrest⟩ | ⟨⟨a, is_create, after, rfl, hpush⟩, hbefore⟩
      · exact .inl ⟨rfl, by rw [List.foldlM_cons, hok]; exact hrest⟩
      · refine .inr ⟨⟨a, is_create, after, rfl, hpush⟩, ?_⟩
        rw [List.foldlM_cons, hok]
        exact hbefore
    · exact ⟨[], c, .inr ⟨⟨a, is_create, ops, rfl, herror, hfull⟩, rfl⟩, h, rfl⟩

/-- The call stack is a faithful multiset. After any sequence of pushes and pops the counter of
    every address is the number of its occurrences, an address has one just if it is on the stack,
    and a pop returns the pair pushed last, without a panic. Only a push of an address that is on
    the stack `2 ^ 32 - 1` times keeps a sequence from being carried out, and all this holds up to
    it. -/
theorem call_stack_is_a_faithful_multiset (ops : List StackOp) :
    ∃ before c, (before = ops ∧ ops.foldlM FrameStackInfo.apply new = .ok c ∨
      Overflows new ops before c) ∧ Faithful (before.foldl StackOp.recipients []) c := by
  obtain ⟨before, c, hrun, hcounts, hstack⟩ := counts_new.foldlM ops
  refine ⟨before, c, hrun, ?_⟩
  rw [← show c.call_stack_recipient_addresses = before.foldl StackOp.recipients [] from hstack]
  exact hcounts.faithful

end FrameStackInfo

end CfxEvm
