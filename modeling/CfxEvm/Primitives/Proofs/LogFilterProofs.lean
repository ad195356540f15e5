import CfxEvm.Primitives.LogFilter

/-!
# Proofs: log filters

The blooms of a filter lose no log that matches, just when the filter has no empty list of search
topics. An empty list matches every topic, but its combinations with the blooms so far are none.
-/

open Lib

namespace CfxEvm

section
variable [BloomInput]

/-! ## Blooms -/

namespace Bloom

variable {b b' : Bloom} {raw : Bytes}

omit [BloomInput] in
theorem Within.refl (b : Bloom) : b.Within b := fun _ h => h

theorem Within.accrue (hb : b.Within b') (raw : Bytes) : b.Within (b'.accrue raw) := by
  intro i hi
  rw [Bloom.accrue, BitVec.getLsbD_or, hb i hi, Bool.true_or]

theorem accrue_within (hb : b.Within b') (hraw : (BloomInput.bits raw).Within b') :
    (b.accrue raw).Within b' := by
  intro i hi
  rw [Bloom.accrue, BitVec.getLsbD_or, Bool.or_eq_true] at hi
  rcases hi with hi | hi
  · exact hb i hi
  · exact hraw i hi

theorem bits_within_accrue (b : Bloom) (raw : Bytes) :
    (BloomInput.bits raw).Within (b.accrue raw) := by
  intro i hi
  rw [Bloom.accrue, BitVec.getLsbD_or, hi, Bool.or_true]

omit [BloomInput] in
theorem zero_within (b : Bloom) : (0 : Bloom).Within b := by
  intro i hi
  simp at hi

end Bloom

/-! ## The bloom of a log -/

/-- The bits of the bloom so far stay, and the bits of every topic are added. -/
theorem accrue_topics_within (topics : List H256) (b : Bloom) :
    b.Within (topics.foldl (fun b t => b.accrue (U256.to_big_endian t)) b) ∧
      ∀ t ∈ topics, (BloomInput.bits (U256.to_big_endian t)).Within
        (topics.foldl (fun b t => b.accrue (U256.to_big_endian t)) b) := by
  induction topics generalizing b with
  | nil => exact ⟨.refl b, fun t ht => absurd ht List.not_mem_nil⟩
  | cons t topics ih =>
    obtain ⟨hstay, hadded⟩ := ih (b.accrue (U256.to_big_endian t))
    rw [List.foldl_cons]
    refine ⟨fun i hi => hstay i ((Bloom.Within.refl b).accrue _ i hi), ?_⟩
    intro t' ht'
    rcases List.mem_cons.mp ht' with rfl | ht'
    · exact fun i hi => hstay i (Bloom.bits_within_accrue b _ i hi)
    · exact hadded t' ht'

theorem address_within_bloom (log : LogEntry) : (Bloom.of log.address.to_bytes).Within log.bloom :=
  (accrue_topics_within log.topics _).1

theorem topic_within_bloom (log : LogEntry) {t : H256} (ht : t ∈ log.topics) :
    (BloomInput.bits (U256.to_big_endian t)).Within log.bloom :=
  (accrue_topics_within log.topics _).2 t ht

namespace LogFilterParams

variable {log : LogEntry} {params : LogFilterParams}

/-! ## A log that matches -/

/-- The search topics at one position, combined with the blooms so far. -/
def combine (bs : List Bloom) (topic : Option (List H256)) : List Bloom :=
  match topic with
  | none => bs
  | some topics =>
    bs.flatMap fun bloom => topics.map fun topic => bloom.accrue (U256.to_big_endian topic)

/-- Some bloom is within that of the log. -/
def Covers (bs : List Bloom) (log : LogEntry) : Prop := ∃ bloom ∈ bs, bloom.Within log.bloom

/-- One position of the filter. -/
theorem Covers.combine {bs : List Bloom} (hcovers : Covers bs log)
    {topic : Option (List H256)} {i : Nat}
    (hmatch : matches_topic log topic i = true) (hsome : topic ≠ some []) :
    Covers (combine bs topic) log := by
  cases topic with
  | none => exact hcovers
  | some topics =>
    have hnonempty : (!topics.isEmpty) = true := by
      cases topics with
      | nil => exact absurd rfl hsome
      | cons t topics => rfl
    rw [matches_topic, if_pos hnonempty, List.any_eq_true] at hmatch
    obtain ⟨t, ht, hlog⟩ := hmatch
    have hmem : t ∈ log.topics := List.mem_of_getElem? (beq_iff_eq.mp hlog)
    obtain ⟨bloom, hbloom, hwithin⟩ := hcovers
    refine ⟨bloom.accrue (U256.to_big_endian t), ?_, ?_⟩
    · exact List.mem_flatMap.mpr ⟨bloom, hbloom, List.mem_map.mpr ⟨t, ht, rfl⟩⟩
    · exact Bloom.accrue_within hwithin (topic_within_bloom log hmem)

/-- All positions, from some position on. -/
theorem Covers.combine_all {bs : List Bloom} (hcovers : Covers bs log)
    (topics : List (Option (List H256)))
    (k : Nat) (hmatch : ∀ e ∈ topics.zipIdx k, matches_topic log e.1 e.2 = true)
    (hsome : some [] ∉ topics) : Covers (topics.foldl LogFilterParams.combine bs) log := by
  induction topics generalizing bs k with
  | nil => exact hcovers
  | cons topic topics ih =>
    rw [List.zipIdx_cons] at hmatch
    have hhead := hmatch (topic, k) List.mem_cons_self
    have hne : topic ≠ some [] := fun h => hsome (h ▸ List.mem_cons_self)
    exact ih (hcovers.combine hhead hne) (k + 1) (fun e he => hmatch e (List.mem_cons_of_mem _ he))
      fun h => hsome (List.mem_cons_of_mem _ h)

/-- The blooms of the addresses. -/
theorem covers_address (hmatch : params.matches_address log = true) :
    Covers (match params.address with
      | some addresses =>
        if !addresses.isEmpty then addresses.map fun address => Bloom.of address.to_bytes else [0]
      | none => [0]) log := by
  have hall : Covers [0] log := ⟨0, List.mem_cons_self, Bloom.zero_within _⟩
  unfold matches_address at hmatch
  rcases haddress : params.address with _ | addresses
  · exact hall
  · rw [haddress] at hmatch
    dsimp only at hmatch ⊢
    by_cases hnonempty : (!addresses.isEmpty) = true
    · rw [if_pos hnonempty, List.any_eq_true] at hmatch
      obtain ⟨a, ha, hlog⟩ := hmatch
      have hlog : log.address = a := beq_iff_eq.mp hlog
      rw [if_pos hnonempty]
      exact ⟨_, List.mem_map.mpr ⟨a, ha, rfl⟩, hlog ▸ address_within_bloom log⟩
    · rw [if_neg hnonempty]
      exact hall

/-! ## An empty list of search topics -/

theorem combine_all_nil (topics : List (Option (List H256))) : topics.foldl combine [] = [] := by
  induction topics with
  | nil => rfl
  | cons topic topics ih =>
    have hnil : combine [] topic = [] := by cases topic <;> rfl
    rw [List.foldl_cons, hnil, ih]

/-- There are no combinations at all then. -/
theorem combine_all_of_empty {topics : List (Option (List H256))} (hempty : some [] ∈ topics)
    (bs : List Bloom) : topics.foldl combine bs = [] := by
  induction topics generalizing bs with
  | nil => exact absurd hempty List.not_mem_nil
  | cons topic topics ih =>
    rw [List.foldl_cons]
    rcases List.mem_cons.mp hempty with rfl | hempty
    · have hnil : combine bs (some []) = [] := by simp [combine]
      rw [hnil, combine_all_nil]
    · exact ih hempty _

/-- A log that matches the filter. -/
def someLog (params : LogFilterParams) : LogEntry where
  address := ((params.address.getD []).head?).getD 0
  topics := params.topics.map fun topic => ((topic.getD []).head?).getD 0
  data := []

omit [BloomInput] in
theorem matches_someLog (params : LogFilterParams) : params.matches params.someLog = true := by
  unfold LogFilterParams.matches
  rw [Bool.and_eq_true]
  constructor
  · unfold matches_address someLog
    rcases params.address with _ | _ | ⟨a, addresses⟩
    · rfl
    · rfl
    · simp
  · rw [List.all_eq_true]
    rintro ⟨topic, i⟩ hmem
    have hget : params.topics[i]? = some topic := List.mem_zipIdx_iff_getElem?.mp hmem
    unfold matches_topic someLog
    rcases topic with _ | _ | ⟨t, topics⟩
    · rfl
    · rfl
    · simp [hget]

/-- The blooms lose no log that matches the filter just when no list of search topics is empty. -/
theorem blooms_lose_no_log_iff (params : LogFilterParams) :
    (∀ log : LogEntry, params.matches log = true →
      ∃ bloom ∈ params.bloom_possibilities, bloom.Within log.bloom) ↔ some [] ∉ params.topics := by
  constructor
  · intro hkept hempty
    obtain ⟨bloom, hbloom, -⟩ := hkept params.someLog (matches_someLog params)
    have hnone : params.bloom_possibilities = [] := combine_all_of_empty hempty _
    rw [hnone] at hbloom
    exact absurd hbloom List.not_mem_nil
  · intro hsome log hmatch
    obtain ⟨haddress, htopics⟩ := Bool.and_eq_true_iff.mp hmatch
    rw [List.all_eq_true] at htopics
    exact (covers_address haddress).combine_all params.topics 0 htopics hsome

end LogFilterParams

end

/-- Any address, and an empty list of search topics for the first position. -/
def emptyTopicFilter : LogFilterParams := ⟨none, [some []]⟩

/-- The filter matches a log without topics, and there is no bloom that the block with the log could
    be found by, whatever bits an input sets. -/
theorem empty_topic_list_loses_the_log :
    ¬∃ _ : BloomInput, emptyTopicFilter.matches ⟨0, [], []⟩ = true →
      ∃ bloom ∈ emptyTopicFilter.bloom_possibilities,
        bloom.Within (LogEntry.bloom ⟨0, [], []⟩) := by
  rintro ⟨_, hkept⟩
  obtain ⟨bloom, hbloom, -⟩ := hkept (by decide)
  exact absurd hbloom List.not_mem_nil

end CfxEvm
