import CfxEvm.Evm.SharedCache
import CfxEvm.Lib.Loop

/-!
# Proofs: jump destinations

The sweep over a code goes from one instruction to the next and skips the data of pushes. It finds
the destinations of jumps, and the cache gives back what it found, whatever entries it has dropped.
-/

open Lib Lib.Prog

namespace CfxEvm

/-! ## The sweep -/

/-- The number of bytes of data that follow an opcode. -/
def pushData (opcode : UInt8) : Nat :=
  ((Instruction.from_u8 opcode).bind Instruction.push_bytes).getD 0

/-- The positions that the linear sweep of the code comes to: its beginning, and what follows an
    opcode on it and the data of that opcode. -/
inductive Swept (code : Bytes) : Nat → Prop
  | zero : Swept code 0
  | next {position : Nat} {opcode : UInt8} (h : Swept code position)
      (hopcode : code[position]? = some opcode) : Swept code (position + 1 + pushData opcode)

/-- The instruction stands at a position of the sweep. -/
def SweptAt (code : Bytes) (instruction : Instruction) (position : Nat) : Prop :=
  Swept code position ∧ ∃ opcode, code[position]? = some opcode ∧
    Instruction.from_u8 opcode = some instruction

theorem Swept.next_of {code : Bytes} {position : Nat} {opcode : UInt8} {instruction : Instruction}
    (h : Swept code position) (hopcode : code[position]? = some opcode)
    (hins : Instruction.from_u8 opcode = some instruction) :
    Swept code (position + 1 + instruction.push_bytes.getD 0) := by
  have hnext := h.next hopcode
  simpa only [pushData, hins, Option.bind_some] using hnext

/-- What the sweep finds in the rest of the code, whose first `skip` bytes are data. -/
theorem sweptAt_of_mem {code rest : Bytes} {position skip : Nat}
    (hrest : code.drop position = rest) (hswept : Swept code (position + skip)) :
    (∀ p ∈ (SharedCache.find_destinations rest position skip).1, SweptAt code .JUMPDEST p) ∧
      ∀ p ∈ (SharedCache.find_destinations rest position skip).2, SweptAt code .BEGINSUB p := by
  induction rest generalizing position skip with
  | nil => exact ⟨by simp [SharedCache.find_destinations], by simp [SharedCache.find_destinations]⟩
  | cons b rest ih =>
    have hrest' : code.drop (position + 1) = rest := by
      rw [← List.tail_drop, hrest, List.tail_cons]
    have hb : code[position]? = some b := by
      rw [← List.head?_drop, hrest, List.head?_cons]
    cases skip with
    | succ skip =>
      simp only [SharedCache.find_destinations]
      exact ih hrest' (by simpa only [Nat.add_assoc, Nat.add_comm 1 skip] using hswept)
    | zero =>
      have hnext := hswept.next hb
      simp only [Nat.add_zero] at hnext
      unfold SharedCache.find_destinations
      rcases hins : Instruction.from_u8 b with _ | instruction
      · simp only [pushData, hins] at hnext
        exact ih hrest' hnext
      · simp only [pushData, hins, Option.bind_some] at hnext
        obtain ⟨hjump, hsub⟩ := ih hrest' hnext
        have hat : SweptAt code instruction position := ⟨hswept, b, hb, hins⟩
        cases instruction
        case JUMPDEST =>
          refine ⟨fun p hp => ?_, hsub⟩
          rcases List.mem_cons.mp hp with rfl | hp
          · exact hat
          · exact hjump p hp
        case BEGINSUB =>
          refine ⟨hjump, fun p hp => ?_⟩
          rcases List.mem_cons.mp hp with rfl | hp
          · exact hat
          · exact hsub p hp
        all_goals exact ⟨hjump, hsub⟩

/-- The destinations found in a code are swept. -/
theorem sweptAt_destinations (code : Bytes) :
    (∀ p ∈ (SharedCache.find_jump_and_sub_destinations code).jump_destination.members,
      SweptAt code .JUMPDEST p) ∧
    ∀ p ∈ (SharedCache.find_jump_and_sub_destinations code).sub_entrypoint.members,
      SweptAt code .BEGINSUB p :=
  sweptAt_of_mem (List.drop_zero) .zero

/-- The bytes of data are passed over. -/
theorem find_destinations_skip (code : Bytes) (position skip : Nat) :
    SharedCache.find_destinations code position skip =
      SharedCache.find_destinations (code.drop skip) (position + skip) 0 := by
  induction skip generalizing code position with
  | zero => rfl
  | succ skip ih =>
    cases code with
    | nil => rfl
    | cons b code =>
      rw [SharedCache.find_destinations, ih, List.drop_succ_cons, Nat.add_assoc, Nat.add_comm 1]

/-- What an opcode on the sweep adds to the destinations. -/
def foundAt (opcode : UInt8) (position : Nat) : List Nat × List Nat :=
  match Instruction.from_u8 opcode with
  | some .JUMPDEST => ([position], [])
  | some .BEGINSUB => ([], [position])
  | _ => ([], [])

theorem find_destinations_cons (opcode : UInt8) (code : Bytes) (position : Nat) :
    SharedCache.find_destinations (opcode :: code) position 0 =
      ((foundAt opcode position).1 ++ (SharedCache.find_destinations
          (code.drop (pushData opcode)) (position + 1 + pushData opcode) 0).1,
        (foundAt opcode position).2 ++ (SharedCache.find_destinations
          (code.drop (pushData opcode)) (position + 1 + pushData opcode) 0).2) := by
  rw [← find_destinations_skip]
  conv_lhs => unfold SharedCache.find_destinations
  unfold foundAt pushData
  rcases Instruction.from_u8 opcode with _ | instruction
  · rfl
  · cases instruction <;> rfl

/-- What is found from a position of the sweep on is found in the whole code. -/
theorem find_destinations_of_swept {code : Bytes} {position : Nat} (h : Swept code position) :
    ∃ jumps subs, SharedCache.find_destinations code 0 0 =
      (jumps ++ (SharedCache.find_destinations (code.drop position) position 0).1,
        subs ++ (SharedCache.find_destinations (code.drop position) position 0).2) := by
  induction h with
  | zero => exact ⟨[], [], rfl⟩
  | @next position opcode _ hopcode ih =>
    obtain ⟨jumps, subs, ih⟩ := ih
    have hdrop : code.drop position = opcode :: code.drop (position + 1) := by
      obtain ⟨hlt, rfl⟩ := List.getElem?_eq_some_iff.mp hopcode
      exact List.drop_eq_getElem_cons hlt
    rw [hdrop, find_destinations_cons, List.drop_drop] at ih
    refine ⟨jumps ++ (foundAt opcode position).1, subs ++ (foundAt opcode position).2, ?_⟩
    rw [ih, List.append_assoc, List.append_assoc]

theorem mem_of_sweptAt {code : Bytes} {position : Nat} {opcode : UInt8} (h : Swept code position)
    (hopcode : code[position]? = some opcode) :
    ((foundAt opcode position).1 ⊆ (SharedCache.find_destinations code 0 0).1) ∧
      (foundAt opcode position).2 ⊆ (SharedCache.find_destinations code 0 0).2 := by
  obtain ⟨jumps, subs, hfound⟩ := find_destinations_of_swept h
  have hdrop : code.drop position = opcode :: code.drop (position + 1) := by
    obtain ⟨hlt, rfl⟩ := List.getElem?_eq_some_iff.mp hopcode
    exact List.drop_eq_getElem_cons hlt
  rw [hdrop, find_destinations_cons] at hfound
  rw [hfound]
  exact ⟨fun p hp => by simp [hp], fun p hp => by simp [hp]⟩

theorem from_u8_jumpdest {opcode : UInt8} :
    Instruction.from_u8 opcode = some .JUMPDEST ↔ opcode = 0x5b := by
  have hall : ∀ n : Fin 256, Instruction.from_u8 (UInt8.ofNat n) = some .JUMPDEST ↔
      UInt8.ofNat n = 0x5b := by decide +kernel
  simpa using hall ⟨opcode.toNat, opcode.toNat_lt⟩

theorem from_u8_beginsub {opcode : UInt8} :
    Instruction.from_u8 opcode = some .BEGINSUB ↔ opcode = 0x5c := by
  have hall : ∀ n : Fin 256, Instruction.from_u8 (UInt8.ofNat n) = some .BEGINSUB ↔
      UInt8.ofNat n = 0x5c := by decide +kernel
  simpa using hall ⟨opcode.toNat, opcode.toNat_lt⟩

/-- A position is a jump destination just if the sweep finds a `JUMPDEST` at it. -/
theorem mem_jump_destination {code : Bytes} {p : Nat} :
    p ∈ (SharedCache.find_jump_and_sub_destinations code).jump_destination.members ↔
      Swept code p ∧ code[p]? = some 0x5b := by
  constructor
  · intro hp
    obtain ⟨hswept, opcode, hopcode, hins⟩ := (sweptAt_destinations code).1 p hp
    exact ⟨hswept, by rw [hopcode, from_u8_jumpdest.mp hins]⟩
  · rintro ⟨hswept, hopcode⟩
    exact (mem_of_sweptAt hswept hopcode).1 (List.mem_singleton_self p)

theorem mem_sub_entrypoint {code : Bytes} {p : Nat} :
    p ∈ (SharedCache.find_jump_and_sub_destinations code).sub_entrypoint.members ↔
      Swept code p ∧ code[p]? = some 0x5c := by
  constructor
  · intro hp
    obtain ⟨hswept, opcode, hopcode, hins⟩ := (sweptAt_destinations code).2 p hp
    exact ⟨hswept, by rw [hopcode, from_u8_beginsub.mp hins]⟩
  · rintro ⟨hswept, hopcode⟩
    exact (mem_of_sweptAt hswept hopcode).2 (List.mem_singleton_self p)

/-! ## The loop -/

theorem run_sweep_instruction (opcode : UInt8) (s : SharedCache.Sweep) :
    (SharedCache.sweep_instruction (Instruction.from_u8 opcode)).run s = .ok (.ok (),
      ⟨s.position + pushData opcode, s.jump_dests ++ (foundAt opcode s.position).1,
        s.sub_entrypoints ++ (foundAt opcode s.position).2⟩) := by
  unfold foundAt pushData
  rcases Instruction.from_u8 opcode with _ | instruction
  · simp [SharedCache.sweep_instruction]
  · cases instruction <;>
      simp only [SharedCache.sweep_instruction, Instruction.push_bytes, Option.bind_some,
        Option.getD_some, Option.getD_none, List.append_nil, Nat.add_zero] <;>
      rfl

/-- One round goes to the next opcode and adds what it found. -/
theorem run_sweep_round {code : Bytes} {s : SharedCache.Sweep} {opcode : UInt8}
    (hopcode : code[s.position]? = some opcode) :
    (SharedCache.sweep_round code).run s = .ok (.ok none,
      ⟨s.position + 1 + pushData opcode, s.jump_dests ++ (foundAt opcode s.position).1,
        s.sub_entrypoints ++ (foundAt opcode s.position).2⟩) := by
  have hlt := (List.getElem?_eq_some_iff.mp hopcode).1
  refine run_bind_eq_ok.mpr ⟨s, s, rfl, ?_⟩
  rw [if_pos hlt, hopcode]
  refine run_bind_eq_ok.mpr ⟨opcode, s, rfl, ?_⟩
  refine run_bind_eq_ok.mpr ⟨(), _, run_sweep_instruction opcode s, ?_⟩
  rw [Nat.add_right_comm]
  rfl

/-- The loop of the sweep ends, after at most one round for each byte, with what is found from its
    position on. -/
theorem sweep_ends {code : Bytes} {n : Nat} {s : SharedCache.Sweep}
    (hn : code.length - s.position < n) :
    ∃ s', (Prog.loop (SharedCache.sweep_round code) n).run s = .ok (.ok (some ()), s') ∧
      s'.jump_dests = s.jump_dests ++
        (SharedCache.find_destinations (code.drop s.position) s.position 0).1 ∧
      s'.sub_entrypoints = s.sub_entrypoints ++
        (SharedCache.find_destinations (code.drop s.position) s.position 0).2 := by
  induction n generalizing s with
  | zero => omega
  | succ n ih =>
    rw [run_loop_succ]
    by_cases hlt : s.position < code.length
    · have hopcode := List.getElem?_eq_getElem hlt
      obtain ⟨s', hrun, hjumps, hsubs⟩ := ih (s := ⟨s.position + 1 + pushData code[s.position],
        s.jump_dests ++ (foundAt code[s.position] s.position).1,
        s.sub_entrypoints ++ (foundAt code[s.position] s.position).2⟩) (by simp only; omega)
      refine ⟨s', ?_, ?_, ?_⟩
      · rw [run_sweep_round hopcode]
        exact hrun
      · rw [hjumps, List.drop_eq_getElem_cons hlt, find_destinations_cons, List.drop_drop,
          List.append_assoc]
      · rw [hsubs, List.drop_eq_getElem_cons hlt, find_destinations_cons, List.drop_drop,
          List.append_assoc]
    · have hend : (SharedCache.sweep_round code).run s = .ok (.ok (some ()), s) := by
        refine run_bind_eq_ok.mpr ⟨s, s, rfl, ?_⟩
        rw [if_neg hlt]
        rfl
      rw [hend, List.drop_eq_nil_of_le (by omega)]
      exact ⟨s, rfl, by simp [SharedCache.find_destinations],
        by simp [SharedCache.find_destinations]⟩

/-! ## The cache -/

/-- What the cache holds under a hash was found in the code that the hash stands for. -/
def SharedCache.Faithful (codeOf : H256 → Bytes) (cache : SharedCache) : Prop :=
  ∀ e ∈ cache.jump_destinations.inner,
    e.2 = SharedCache.find_jump_and_sub_destinations (codeOf e.1)

section
variable {κ ν : Type} [DecidableEq κ]

theorem mem_of_lookup {l : List (κ × ν)} {key : κ} {val : ν} (h : l.lookup key = some val) :
    (key, val) ∈ l := by
  induction l with
  | nil => cases h
  | cons e l ih =>
    obtain ⟨k, v⟩ := e
    rw [List.lookup_cons] at h
    by_cases hk : key = k
    · subst hk
      simp only [beq_self_eq_true, Option.some.injEq] at h
      subst h
      exact List.mem_cons_self
    · rw [beq_eq_false_iff_ne.mpr hk] at h
      exact List.mem_cons_of_mem _ (ih h)

omit [DecidableEq κ] in
theorem MemoryLruCache.mem_shrink {heap_size_of : ν → Nat} {max_size : Nat} {l : List (κ × ν)}
    {cur_size : Nat} {e : κ × ν}
    (h : e ∈ (MemoryLruCache.shrink heap_size_of max_size l cur_size).1) : e ∈ l := by
  induction l generalizing cur_size with
  | nil => exact h
  | cons e' l ih =>
    unfold MemoryLruCache.shrink at h
    split at h
    · exact List.mem_cons_of_mem _ (ih h)
    · exact h

/-- An insertion adds nothing but the item. -/
theorem MemoryLruCache.mem_insert {heap_size_of : ν → Nat} {cache : MemoryLruCache κ ν} {key : κ}
    {val : ν} {e : κ × ν} (h : e ∈ (cache.insert heap_size_of key val).inner) :
    e = (key, val) ∨ e ∈ cache.inner := by
  simp only [MemoryLruCache.insert, List.mem_reverse] at h
  have hmem := List.mem_of_mem_take (List.mem_reverse.mp (MemoryLruCache.mem_shrink h))
  rcases List.mem_cons.mp hmem with heq | hmem
  · exact .inl heq
  · exact .inr (List.mem_of_mem_filter hmem)

end

/-- A lookup in a faithful cache gives the destinations of the code, and leaves it faithful. -/
theorem SharedCache.Faithful.destinations [Keccak] {codeOf : H256 → Bytes} {cache : SharedCache}
    (h : cache.Faithful codeOf) {code_hash : Option H256} {code : Bytes}
    (hcode : ∀ hash, code_hash = some hash → codeOf hash = code) :
    (cache.jump_and_sub_destinations code_hash code).1 = find_jump_and_sub_destinations code ∧
      (cache.jump_and_sub_destinations code_hash code).2.Faithful codeOf := by
  unfold jump_and_sub_destinations
  cases code_hash with
  | none => exact ⟨rfl, h⟩
  | some hash =>
    have hof := hcode hash rfl
    by_cases hempty : hash = KECCAK_EMPTY
    · simp only [hempty, if_true]
      exact ⟨trivial, h⟩
    · simp only [hempty, if_false]
      unfold MemoryLruCache.get_mut
      rcases hlookup : cache.jump_destinations.inner.lookup hash with _ | item
      · refine ⟨rfl, fun e he => ?_⟩
        rcases MemoryLruCache.mem_insert he with rfl | hmem
        · exact congrArg find_jump_and_sub_destinations hof.symm
        · exact h e hmem
      · have hmem := mem_of_lookup hlookup
        refine ⟨(h _ hmem).trans (congrArg find_jump_and_sub_destinations hof), fun e he => ?_⟩
        rcases List.mem_cons.mp he with rfl | hmem'
        · exact h _ hmem
        · exact h e (List.mem_of_mem_filter hmem')

/-! ## Sequences of calls -/

/-- Calls of `jump_and_sub_destinations` on one cache, with their answers, and the cache after them.
    The hash of a call is missing or that of its code. Entries may be dropped between the calls. -/
inductive SharedCache.Runs [Keccak] (max_size : Nat) :
    List (Option H256 × Bytes) → List CacheItem → SharedCache → Prop
  | new : Runs max_size [] [] (.new max_size)
  | call {calls : List (Option H256 × Bytes)} {answers : List CacheItem} {cache : SharedCache}
      (h : Runs max_size calls answers cache) (code_hash : Option H256) (code : Bytes)
      (hhash : code_hash = none ∨ code_hash = some (keccak code)) :
      Runs max_size (calls ++ [(code_hash, code)])
        (answers ++ [(cache.jump_and_sub_destinations code_hash code).1])
        (cache.jump_and_sub_destinations code_hash code).2
  | evict {calls : List (Option H256 × Bytes)} {answers : List CacheItem} {cache : SharedCache}
      (h : Runs max_size calls answers cache) (cache' : SharedCache)
      (hevict : cache'.jump_destinations.inner ⊆ cache.jump_destinations.inner) :
      Runs max_size calls answers cache'

/-- No two codes of the calls have the same hash. -/
def NoCollision [Keccak] (calls : List (Option H256 × Bytes)) : Prop :=
  ∀ call ∈ calls, ∀ call' ∈ calls, keccak call.2 = keccak call'.2 → call.2 = call'.2

section
variable [Keccak] {max_size : Nat} {calls : List (Option H256 × Bytes)} {answers : List CacheItem}
  {cache : SharedCache}

/-- The code that a hash stands for among the calls. -/
noncomputable def codeAmong (calls : List (Option H256 × Bytes)) (hash : H256) : Bytes :=
  open Classical in if h : ∃ call ∈ calls, keccak call.2 = hash then h.choose.2 else []

theorem codeAmong_eq (hno : NoCollision calls) {call : Option H256 × Bytes} (hcall : call ∈ calls) :
    codeAmong calls (keccak call.2) = call.2 := by
  have hex : ∃ call' ∈ calls, keccak call'.2 = keccak call.2 := ⟨call, hcall, rfl⟩
  unfold codeAmong
  rw [dif_pos hex]
  exact hno _ hex.choose_spec.1 _ hcall hex.choose_spec.2

theorem SharedCache.Runs.transparent {codeOf : H256 → Bytes}
    (h : SharedCache.Runs max_size calls answers cache)
    (hcode : ∀ call ∈ calls, codeOf (keccak call.2) = call.2) :
    cache.Faithful codeOf ∧
      answers = calls.map fun call => SharedCache.find_jump_and_sub_destinations call.2 := by
  induction h with
  | new => exact ⟨fun e he => (nomatch he), rfl⟩
  | @call calls answers cache _ code_hash code hhash ih =>
    obtain ⟨hfaithful, hanswers⟩ := ih fun call hcall => hcode call (List.mem_append_left _ hcall)
    have hof : ∀ hash, code_hash = some hash → codeOf hash = code := by
      rintro hash rfl
      rcases hhash with hnone | hsome
      · cases hnone
      · rw [Option.some_inj.mp hsome]
        exact hcode (some hash, code) (List.mem_append_right _ (List.mem_singleton_self _))
    obtain ⟨hanswer, hfaithful'⟩ := hfaithful.destinations hof
    refine ⟨hfaithful', ?_⟩
    rw [hanswer, hanswers, List.map_append]
    rfl
  | evict _ cache' hevict ih =>
    obtain ⟨hfaithful, hanswers⟩ := ih hcode
    exact ⟨fun e he => hfaithful e (hevict he), hanswers⟩

/-- The analysis finds just the destinations on the sweep, its loop ends with them, and the cache
    gives each call what would be found in its own code. -/
theorem jump_analysis_is_correct :
    (∀ (code : Bytes) (p : Nat),
      (p ∈ (SharedCache.find_jump_and_sub_destinations code).jump_destination.members ↔
        Swept code p ∧ code[p]? = some 0x5b) ∧
      (p ∈ (SharedCache.find_jump_and_sub_destinations code).sub_entrypoint.members ↔
        Swept code p ∧ code[p]? = some 0x5c)) ∧
    (∀ (code : Bytes) (n : Nat), code.length < n →
      ∃ s, (Prog.loop (SharedCache.sweep_round code) n).run ⟨0, [], []⟩ = .ok (.ok (some ()), s) ∧
        s.jump_dests =
          (SharedCache.find_jump_and_sub_destinations code).jump_destination.members ∧
        s.sub_entrypoints =
          (SharedCache.find_jump_and_sub_destinations code).sub_entrypoint.members) ∧
    (∀ max_size calls answers cache, SharedCache.Runs max_size calls answers cache →
      NoCollision calls →
      answers = calls.map fun call => SharedCache.find_jump_and_sub_destinations call.2) := by
  refine ⟨fun code p => ⟨mem_jump_destination, mem_sub_entrypoint⟩, fun code n hn => ?_, ?_⟩
  · exact sweep_ends (s := ⟨0, [], []⟩) hn
  · intro max_size calls answers cache hruns hno
    exact (hruns.transparent fun call hcall => codeAmong_eq hno hcall).2

end

/-- A hash function that agrees with Keccak-256 on the empty string and on the two codes of the
    calls below, which hash nothing else. -/
@[reducible] def keccakOfDestinations : Keccak :=
  ⟨fun bytes =>
    if bytes.isEmpty then 0xc5d2460186f7233c927e7db2dcc703c0e500b653ca82273b7bfad8045d85a470
    else if bytes = [0x5b] then 0x9f50164828976b6baa479ea39c718c745bbc0d2521b67dfde8474cbdc9711057
    else 0xef2b56b362c04c80b70f83c01073fb31a54133d8134532abfa4de9dbeb38a6dc⟩

section
attribute [local instance] keccakOfDestinations

/-- A code whose first `JUMPDEST` is data of a push, another code, and the first one again. -/
def destinationCalls : List (Option H256 × Bytes) :=
  [(some (keccak [0x60, 0x5b, 0x5b]), [0x60, 0x5b, 0x5b]), (some (keccak [0x5b]), [0x5b]),
    (some (keccak [0x60, 0x5b, 0x5b]), [0x60, 0x5b, 0x5b])]

/-- The calls are answered from their own codes, also when the cache is emptied in between. -/
theorem destination_calls_answered :
    NoCollision destinationCalls ∧
    (∃ answers cache, SharedCache.Runs 1000 destinationCalls answers cache ∧
      answers.map (·.jump_destination.members) = [[2], [0], [2]]) ∧
    ∃ s, (Prog.loop (SharedCache.sweep_round [0x60, 0x5b, 0x5b]) 4).run ⟨0, [], []⟩ =
        .ok (.ok (some ()), s) ∧ s.jump_dests = [2] := by
  have hno : NoCollision destinationCalls := by
    unfold NoCollision
    decide +kernel
  obtain ⟨-, hloop, hcalls⟩ := jump_analysis_is_correct
  refine ⟨hno, ?_, ?_⟩
  -- the entries of the first two calls are dropped before the third
  · have hnew : SharedCache.Runs 1000 [] [] (.new 1000) := .new
    have hruns :=
      (((hnew.call (some (keccak [0x60, 0x5b, 0x5b])) [0x60, 0x5b, 0x5b] (.inr rfl)).call
      (some (keccak [0x5b])) [0x5b] (.inr rfl)).evict (.new 1000) (List.nil_subset _)).call
      (some (keccak [0x60, 0x5b, 0x5b])) [0x60, 0x5b, 0x5b] (.inr rfl)
    refine ⟨_, _, hruns, ?_⟩
    rw [hcalls _ _ _ _ hruns hno]
    rfl
  · obtain ⟨s, hrun, hjumps, -⟩ := hloop [0x60, 0x5b, 0x5b] 4 (by decide)
    exact ⟨s, hrun, hjumps⟩

end

end CfxEvm
