import CfxEvm.Primitives.ChainId

/-!
# Proofs: chain ids

The parameters that are read from a configuration give the chain id of every epoch, except where a
table has no pair of integers, which panics, and where its heights do not increase, which is not
noticed.
-/

open Lib

namespace CfxEvm

namespace ChainIdParamsInnerGeneric

variable {T : Type}

/-- The epoch has the chain id of the entry with the largest height that it has reached. -/
def GivesChainId (self : ChainIdParamsInnerGeneric T) (epoch_number : UInt64) : Prop :=
  ∃ (i : Nat) (height : UInt64) (chain_id : T),
    self.heights[i]? = some height ∧ self.chain_ids[i]? = some chain_id ∧
    self.get_chain_id epoch_number = .ok chain_id ∧ height ≤ epoch_number ∧
      ∀ h ∈ self.heights, h ≤ epoch_number → h ≤ height

/-- The heights start at zero and increase, and every epoch has a chain id. -/
structure Sound (p : ChainIdParamsInnerGeneric T) : Prop where
  starts : p.heights.head? = some 0
  increasing : p.heights.Pairwise (· < ·)
  ids : p.chain_ids.length = p.heights.length
  gives : ∀ epoch_number, p.GivesChainId epoch_number

/-! ## The last height that is reached -/

/-- The index is that of the last height that the epoch has reached. -/
structure LastReached (heights : List UInt64) (epoch_number : UInt64) (i : Nat) : Prop where
  lt : i < heights.length
  reached_iff : ∀ j h, heights[j]? = some h → (h ≤ epoch_number ↔ j ≤ i)

/-- The place of the epoch, or the one before the place where it would be inserted. -/
def reached_index (heights : List UInt64) (epoch_number : UInt64) : Except ChainIdPanic Nat :=
  match binary_search heights epoch_number with
  | .ok i => .ok i
  | .error x => if x = 0 then .error .sub_underflow else .ok (x - 1)

/-- The search goes to the last height that is reached, if heights increase from zero on. -/
theorem reached_index_spec {heights : List UInt64} (hstarts : heights.head? = some 0)
    (hincreasing : heights.Pairwise (· < ·)) (epoch_number : UInt64) :
    ∃ i, reached_index heights epoch_number = .ok i ∧ LastReached heights epoch_number i := by
  have hsearch := binary_search_spec hincreasing epoch_number
  unfold reached_index
  rcases hresult : binary_search heights epoch_number with x | i
  · rw [hresult] at hsearch
    obtain ⟨hx, hbelow, habove⟩ := hsearch
    have hfirst : heights[0]? = some 0 := by rw [← List.head?_eq_getElem?, hstarts]
    -- zero is reached by every epoch, so there is a height before the place that is found
    have hpos : x ≠ 0 := by
      rintro rfl
      have hlt := UInt64.lt_iff_toNat_lt.mp (habove 0 0 (Nat.le_refl 0) hfirst)
      rw [UInt64.toNat_zero] at hlt
      omega
    refine ⟨x - 1, if_neg hpos, by omega, fun j h hget => ⟨fun hle => ?_, fun hle => ?_⟩⟩
    · by_contra hge
      exact Std.not_lt.mpr hle (habove j h (by omega) hget)
    · exact Std.le_of_lt (hbelow j h (by omega) hget)
  · rw [hresult] at hsearch
    obtain ⟨hi, hepoch⟩ := List.getElem?_eq_some_iff.mp hsearch
    refine ⟨i, rfl, hi, fun j h hget => ?_⟩
    obtain ⟨hj, rfl⟩ := List.getElem?_eq_some_iff.mp hget
    rw [← hepoch]
    refine ⟨fun hle => ?_, fun hle => ?_⟩
    · by_contra hlt
      exact Std.not_lt.mpr hle (List.pairwise_iff_getElem.mp hincreasing i j hi hj (by omega))
    · rcases Nat.lt_or_eq_of_le hle with hlt | rfl
      · exact Std.le_of_lt (List.pairwise_iff_getElem.mp hincreasing j i hj hi hlt)
      · exact Std.le_refl _

/-- What the search found if there is an index. -/
theorem search_of_reached_index {heights : List UInt64} {epoch_number : UInt64} {i : Nat}
    (hindex : reached_index heights epoch_number = .ok i) :
    binary_search heights epoch_number = .ok i ∨
      binary_search heights epoch_number = .error (i + 1) := by
  unfold reached_index at hindex
  rcases hresult : binary_search heights epoch_number with x | j
  · rw [hresult] at hindex
    dsimp only at hindex
    by_cases hx : x = 0
    · rw [if_pos hx] at hindex
      cases hindex
    · rw [if_neg hx] at hindex
      obtain rfl := Except.ok.inj hindex
      exact .inr (congrArg Except.error (by omega))
  · rw [hresult] at hindex
    obtain rfl := Except.ok.inj hindex
    exact .inl rfl

theorem get_chain_id_eq {self : ChainIdParamsInnerGeneric T} {epoch_number : UInt64} {i : Nat}
    (hindex : reached_index self.heights epoch_number = .ok i) :
    self.get_chain_id epoch_number = index self.chain_ids i := by
  unfold get_chain_id
  rcases search_of_reached_index hindex with hresult | hresult
  · rw [hresult]
    rfl
  · rw [hresult]
    rfl

/-- The epoch has the chain id of the last height that it has reached. -/
theorem gives_chain_id {self : ChainIdParamsInnerGeneric T} (hstarts : self.heights.head? = some 0)
    (hincreasing : self.heights.Pairwise (· < ·))
    (hids : self.chain_ids.length = self.heights.length)
    (epoch_number : UInt64) : self.GivesChainId epoch_number := by
  obtain ⟨i, hindex, hlast⟩ := reached_index_spec hstarts hincreasing epoch_number
  have hlt := hlast.lt
  have hheight := List.getElem?_eq_getElem hlt
  have hi : i < self.chain_ids.length := hids ▸ hlt
  have hid := List.getElem?_eq_getElem hi
  refine ⟨i, self.heights[i], self.chain_ids[i], hheight, hid, ?_, ?_, ?_⟩
  · rw [get_chain_id_eq hindex, index, hid]
  · exact (hlast.reached_iff i _ hheight).mpr (Nat.le_refl i)
  · intro h hmem hle
    obtain ⟨j, hj, rfl⟩ := List.getElem_of_mem hmem
    have hji := (hlast.reached_iff j _ (List.getElem?_eq_getElem hj)).mp hle
    rcases Nat.lt_or_eq_of_le hji with hlt' | rfl
    · exact Std.le_of_lt (List.pairwise_iff_getElem.mp hincreasing j i hj hlt hlt')
    · exact Std.le_refl _

theorem LastReached.unique {heights : List UInt64} {e : UInt64} {i j : Nat}
    (hi : LastReached heights e i)
    (hj : LastReached heights e j) : i = j := by
  have hgeti := List.getElem?_eq_getElem hi.lt
  have hgetj := List.getElem?_eq_getElem hj.lt
  have hij := (hj.reached_iff i _ hgeti).mp ((hi.reached_iff i _ hgeti).mpr (Nat.le_refl i))
  have hji := (hi.reached_iff j _ hgetj).mp ((hj.reached_iff j _ hgetj).mpr (Nat.le_refl j))
  omega

/-! ## Peers -/

/-- A map from heights to chain ids: the heights increase from zero on. -/
structure Ordered (p : ChainIdParamsInnerGeneric T) : Prop where
  starts : p.heights.head? = some 0
  increasing : p.heights.Pairwise (· < ·)
  ids : p.chain_ids.length = p.heights.length

/-- The length of the shorter of two maps. -/
def minLen (A B : ChainIdParamsInnerGeneric T) : Nat := min A.heights.length B.heights.length

/-- One of the maps goes on where the other one ends. -/
structure SubArray (A B : ChainIdParamsInnerGeneric T) : Prop where
  heights : A.heights.take (minLen A B) = B.heights.take (minLen A B)
  chain_ids : A.chain_ids.take (minLen A B) = B.chain_ids.take (minLen A B)

variable {A B : ChainIdParamsInnerGeneric T} {e eA eB : UInt64}

theorem minLen_comm (A B : ChainIdParamsInnerGeneric T) : minLen A B = minLen B A :=
  Nat.min_comm _ _

theorem SubArray.symm (h : SubArray A B) : SubArray B A := by
  refine ⟨?_, ?_⟩
  · rw [minLen_comm]
    exact h.heights.symm
  · rw [minLen_comm]
    exact h.chain_ids.symm

/-- Below the length of the shorter map the heights are the same. -/
theorem SubArray.getElem_heights (h : SubArray A B) {i : Nat} (hi : i < minLen A B) :
    A.heights[i]? = B.heights[i]? := by
  rw [← List.getElem?_take_of_lt hi, h.heights, List.getElem?_take_of_lt hi]

theorem SubArray.getElem_chain_ids (h : SubArray A B) {i : Nat} (hi : i < minLen A B) :
    A.chain_ids[i]? = B.chain_ids[i]? := by
  rw [← List.getElem?_take_of_lt hi, h.chain_ids, List.getElem?_take_of_lt hi]

/-- A peer that is accepted at an epoch is in the shared part of the maps at every earlier one. -/
theorem LastReached.lt_of_le {heights : List UInt64} {i j n : Nat} (hi : LastReached heights e i)
    (hj : LastReached heights eB j) (hle : e ≤ eB) (hlt : j < n) : i < n := by
  have hget := List.getElem?_eq_getElem hi.lt
  have hreached := (hi.reached_iff i _ hget).mpr (Nat.le_refl i)
  have hij := (hj.reached_iff i _ hget).mp (Std.le_trans hreached hle)
  omega

/-- Where both maps have the last height that is reached, it is the same one. -/
theorem SubArray.le_of_reached (h : SubArray A B) {i j : Nat} (hi : LastReached A.heights e i)
    (hj : LastReached B.heights e j) (hlt : i < minLen A B) : i ≤ j := by
  have hget := List.getElem?_eq_getElem hi.lt
  have hreached := (hi.reached_iff i _ hget).mpr (Nat.le_refl i)
  rw [h.getElem_heights hlt] at hget
  exact (hj.reached_iff i _ hget).mp hreached

/-- One of the maps is a prefix of the other. -/
def PrefixOf (A B : ChainIdParamsInnerGeneric T) : Prop :=
  A.heights <+: B.heights ∧ A.chain_ids <+: B.chain_ids

theorem PrefixOf.subArray (hA : A.Ordered) (h : PrefixOf A B) : SubArray A B := by
  have hlen : minLen A B = A.heights.length := Nat.min_eq_left h.1.length_le
  refine ⟨?_, ?_⟩
  · rw [hlen, List.take_length]
    exact List.prefix_iff_eq_take.mp h.1
  · rw [hlen, ← hA.ids, List.take_length]
    exact List.prefix_iff_eq_take.mp h.2

theorem same_slice_ok {α : Type} [DecidableEq α] {v w : List α} {len : Nat} (hv : len ≤ v.length)
    (hw : len ≤ w.length) : same_slice v w len = .ok (decide (v.take len = w.take len)) := by
  unfold same_slice take_slice
  rw [if_pos hv, if_pos hw]
  rfl

section
variable [DecidableEq T]

/-- The heights are compared first, then the chain ids, then the place of the epoch is looked up. -/
theorem matches_eq (hA : A.Ordered) (hB : B.Ordered) {i : Nat}
    (hindex : reached_index A.heights e = .ok i) :
    A.«matches» B e = .ok (decide (B.heights.take (minLen A B) = A.heights.take (minLen A B)) &&
      decide (B.chain_ids.take (minLen A B) = A.chain_ids.take (minLen A B)) &&
      decide (i < minLen A B)) := by
  have hmin : min A.heights.length B.heights.length = minLen A B := rfl
  have hleA : minLen A B ≤ A.heights.length := Nat.min_le_left _ _
  have hleB : minLen A B ≤ B.heights.length := Nat.min_le_right _ _
  have hheights := same_slice_ok hleB hleA
  have hids := same_slice_ok (hB.ids ▸ hleB) (hA.ids ▸ hleA)
  simp only [«matches», hmin, hheights, bind, Except.bind]
  by_cases hsame : B.heights.take (minLen A B) = A.heights.take (minLen A B)
  · simp only [hsame, decide_true, if_true, hids, Bool.true_and]
    by_cases hsame_ids : B.chain_ids.take (minLen A B) = A.chain_ids.take (minLen A B)
    · simp only [hsame_ids, decide_true, if_true, Bool.true_and]
      rcases search_of_reached_index hindex with hresult | hresult
      · rw [hresult]
        rfl
      · rw [hresult]
        rfl
    · simp only [hsame_ids, decide_false, Bool.false_and]
      rfl
  · simp only [hsame, decide_false, Bool.false_and]
    rfl

/-- The check finds out whether one map is a sub-array of the other, and whether the last height
    that the peer has reached is in both. -/
theorem matches_iff (hA : A.Ordered) (hB : B.Ordered) (e : UInt64) :
    A.«matches» B e = .ok true ↔
      SubArray A B ∧ ∃ i, LastReached A.heights e i ∧ i < minLen A B := by
  obtain ⟨i, hindex, hlast⟩ := reached_index_spec hA.starts hA.increasing e
  rw [matches_eq hA hB hindex, Except.ok.injEq, Bool.and_eq_true, Bool.and_eq_true,
    decide_eq_true_eq, decide_eq_true_eq, decide_eq_true_eq]
  refine ⟨fun ⟨⟨hheights, hids⟩, hlt⟩ => ⟨⟨hheights.symm, hids.symm⟩, i, hlast, hlt⟩, ?_⟩
  rintro ⟨hsub, j, hj, hlt⟩
  obtain rfl := hlast.unique hj
  exact ⟨⟨hsub.heights.symm, hsub.chain_ids.symm⟩, hlt⟩

/-- Peers that have accepted each other agree on the chain id of every epoch that both have
    reached. -/
theorem agree_of_matches (hA : A.Ordered) (hB : B.Ordered) (hmatchA : A.«matches» B eB = .ok true)
    (hmatchB : B.«matches» A eA = .ok true) (he : e ≤ eA ∧ e ≤ eB) :
    ∃ chain_id, A.get_chain_id e = .ok chain_id ∧ B.get_chain_id e = .ok chain_id := by
  obtain ⟨hsub, iA, hiA, hltA⟩ := (matches_iff hA hB eB).mp hmatchA
  obtain ⟨-, iB, hiB, hltB⟩ := (matches_iff hB hA eA).mp hmatchB
  obtain ⟨i, hindexA, hi⟩ := reached_index_spec hA.starts hA.increasing e
  obtain ⟨j, hindexB, hj⟩ := reached_index_spec hB.starts hB.increasing e
  have hlti := hi.lt_of_le hiA he.2 hltA
  have hltj := hj.lt_of_le hiB he.1 hltB
  have hij := hsub.le_of_reached hi hj hlti
  have hji := hsub.symm.le_of_reached hj hi hltj
  obtain rfl : i = j := by omega
  have hlt : i < A.chain_ids.length := hA.ids ▸ hi.lt
  have hid := List.getElem?_eq_getElem hlt
  refine ⟨A.chain_ids[i], ?_, ?_⟩
  · rw [get_chain_id_eq hindexA, index, hid]
  · rw [get_chain_id_eq hindexB, index, ← hsub.getElem_chain_ids hlti, hid]

/-- A peer is accepted if its epoch lies before the first height that one of the maps is missing. -/
theorem matches_of_subArray (hA : A.Ordered) (hB : B.Ordered) (hsub : SubArray A B)
    (hbefore : ∀ height, A.heights[minLen A B]? = some height → e < height) :
    A.«matches» B e = .ok true := by
  obtain ⟨i, -, hi⟩ := reached_index_spec hA.starts hA.increasing e
  refine (matches_iff hA hB e).mpr ⟨hsub, i, hi, ?_⟩
  by_contra hge
  have hget := List.getElem?_eq_getElem (by have := hi.lt; omega : minLen A B < A.heights.length)
  have hreached := (hi.reached_iff _ _ hget).mpr (by omega)
  exact Std.not_lt.mpr hreached (hbefore _ hget)

/-- Peers that accept each other agree. If each of two peers accepts the other one at its epoch,
    both have the same chain id for every epoch up to the lower one; and they do accept each other
    if one map is a prefix of the other and both epochs lie before the first height that the shorter
    one is missing. -/
theorem mutual_matching_guarantees_agreement (A B : ChainIdParamsInnerGeneric T) (hA : A.Ordered)
    (hB : B.Ordered) (eA eB : UInt64) :
    (A.«matches» B eB = .ok true → B.«matches» A eA = .ok true → ∀ e, e ≤ min eA eB →
      ∃ chain_id, A.get_chain_id e = .ok chain_id ∧ B.get_chain_id e = .ok chain_id) ∧
    (PrefixOf A B ∨ PrefixOf B A →
      (∀ height, A.heights[minLen A B]? = some height ∨ B.heights[minLen A B]? = some height →
        eA < height ∧ eB < height) →
      A.«matches» B eB = .ok true ∧ B.«matches» A eA = .ok true) := by
  refine ⟨fun hmatchA hmatchB e he => ?_, fun hpre hbefore => ?_⟩
  · exact agree_of_matches hA hB hmatchA hmatchB (Std.le_min_iff.mp he)
  · have hsub : SubArray A B := by
      rcases hpre with hpre | hpre
      · exact hpre.subArray hA
      · exact (hpre.subArray hB).symm
    refine ⟨matches_of_subArray hA hB hsub fun height hget => (hbefore height (.inl hget)).2,
      matches_of_subArray hB hA hsub.symm fun height hget => (hbefore height (.inr ?_)).1⟩
    rw [minLen_comm]
    exact hget

end

/-- A peer does not know of a change at height 10 yet: before that height the peers accept each
    other, and agree. -/
theorem peers_agree_before_a_change :
    ChainIdParamsInnerGeneric.matches (T := UInt32) ⟨[0, 10], [1, 2]⟩ ⟨[0], [1]⟩ 9 = .ok true ∧
      ∀ e : UInt64, e ≤ 5 → ∃ chain_id : UInt32,
        get_chain_id ⟨[0, 10], [1, 2]⟩ e = .ok chain_id ∧
          get_chain_id ⟨[0], [1]⟩ e = .ok chain_id := by
  obtain ⟨hagree, hmatch⟩ := mutual_matching_guarantees_agreement (T := UInt32) ⟨[0, 10], [1, 2]⟩
    ⟨[0], [1]⟩ ⟨rfl, by decide, rfl⟩ ⟨rfl, by decide, rfl⟩ 5 9
  obtain ⟨hmatchA, hmatchB⟩ := hmatch (.inr ⟨by decide, by decide⟩) (by
    rintro height (hheight | hheight)
    · cases hheight
      decide
    · cases hheight)
  exact ⟨hmatchA, hagree hmatchA hmatchB⟩

end ChainIdParamsInnerGeneric

namespace ChainIdParamsOneChainInner

open ChainIdParamsInnerGeneric (Sound index gives_chain_id)

/-! ## The table -/

/-- A height and a chain id, if that is what the element is. -/
def integerPair : TomlValue → Option (Int64 × Int64)
  | .Array [.Integer height, .Integer chain_id] => some (height, chain_id)
  | _ => none

/-- An element that is taken: one of two values and, where these are integers, with a height and an
    id in range. -/
def Taken (element : TomlValue) : Prop :=
  (∃ a b, element = .Array [a, b]) ∧
    ∀ height chain_id, integerPair element = some (height, chain_id) →
      0 ≤ height ∧ 0 ≤ chain_id ∧ chain_id ≤ 4294967295

/-- The heights and ids of a table. -/
def entries (array : List TomlValue) : List (Int64 × Int64) := array.filterMap integerPair

/-- A table that is read to its end: no element is refused, and no id comes twice. -/
structure Accepted (array : List TomlValue) : Prop where
  taken : ∀ element ∈ array, Taken element
  nodup : ((entries array).map Prod.snd).Nodup

def heightsOf (entries : List (Int64 × Int64)) : List UInt64 := entries.map fun e => e.1.toUInt64

namespace Parsing

def pushAll (s : Parsing) (entries : List (Int64 × Int64)) : Parsing :=
  entries.foldl (fun s e => s.push e.1 e.2) s

theorem heights_pushAll (s : Parsing) (entries : List (Int64 × Int64)) :
    (s.pushAll entries).parsed.heights = s.parsed.heights ++ heightsOf entries := by
  induction entries generalizing s with
  | nil => exact (List.append_nil _).symm
  | cons e entries ih =>
    show ((s.push e.1 e.2).pushAll entries).parsed.heights = _
    rw [ih]
    exact List.append_assoc _ _ _

theorem length_chain_ids_pushAll (s : Parsing) (entries : List (Int64 × Int64)) :
    (s.pushAll entries).parsed.chain_ids.length = s.parsed.chain_ids.length + entries.length := by
  induction entries generalizing s with
  | nil => rfl
  | cons e entries ih =>
    show ((s.push e.1 e.2).pushAll entries).parsed.chain_ids.length = _
    rw [ih, List.length_cons, push, List.length_append, List.length_singleton]
    omega

theorem mem_used_pushAll {s : Parsing} {entries : List (Int64 × Int64)} {chain_id : Int64} :
    chain_id ∈ (s.pushAll entries).used_chain_ids ↔
      chain_id ∈ entries.map Prod.snd ∨ chain_id ∈ s.used_chain_ids := by
  induction entries generalizing s with
  | nil => simp [pushAll]
  | cons e entries ih =>
    have htail : (s.pushAll (e :: entries)).used_chain_ids =
        ((s.push e.1 e.2).pushAll entries).used_chain_ids := rfl
    rw [htail, ih, push, List.map_cons, List.mem_cons, List.mem_cons, or_assoc, or_left_comm]

theorem pushAll_append (s : Parsing) (entries entries' : List (Int64 × Int64)) :
    s.pushAll (entries ++ entries') = (s.pushAll entries).pushAll entries' :=
  List.foldl_append

/-- A pair of integers. -/
theorem element_integers (s : Parsing) (height chain_id : Int64) (s' : Parsing) :
    s.element (.Array [.Integer height, .Integer chain_id]) = .ok s' ↔
      (0 ≤ height ∧ 0 ≤ chain_id ∧ chain_id ≤ 4294967295) ∧ chain_id ∉ s.used_chain_ids ∧
        s' = s.push height chain_id := by
  rw [element, if_neg (by simp)]
  by_cases hheight : height < 0
  · rw [if_pos hheight]
    simp [Std.not_le.mpr hheight]
  rw [if_neg hheight]
  by_cases hused : chain_id ∈ s.used_chain_ids
  · rw [if_pos hused]
    simp [hused]
  rw [if_neg hused]
  by_cases hrange : chain_id < 0 ∨ 4294967295 < chain_id
  · rw [if_pos hrange]
    rcases hrange with h | h
    · simp [Std.not_le.mpr h]
    · simp [Std.not_le.mpr h]
  rw [if_neg hrange]
  rw [not_or] at hrange
  have hin : 0 ≤ height ∧ 0 ≤ chain_id ∧ chain_id ≤ 4294967295 :=
    ⟨Std.not_lt.mp hheight, Std.not_lt.mp hrange.1, Std.not_lt.mp hrange.2⟩
  constructor
  · intro h
    exact ⟨hin, hused, (Except.ok.inj h).symm⟩
  · rintro ⟨-, -, rfl⟩
    rfl

/-- Two values that are not both integers are passed over. -/
theorem element_others (s : Parsing) {a b : TomlValue} (h : integerPair (.Array [a, b]) = none) :
    s.element (.Array [a, b]) = .ok s := by
  have hne : ∀ height chain_id,
      [a, b] = [TomlValue.Integer height, TomlValue.Integer chain_id] → False := by
    intro height chain_id heq
    rw [heq] at h
    cases h
  rw [element, if_neg (by simp)]
  exact hne

/-- Anything else is refused. -/
theorem element_refused (s : Parsing) {element : TomlValue} (h : ¬ ∃ a b, element = .Array [a, b]) :
    ∃ e, s.element element = .error e := by
  cases element with
  | Array pair =>
    have hlen : pair.length ≠ 2 := by
      intro hlen
      obtain ⟨a, b, rfl⟩ := List.length_eq_two.mp hlen
      exact h ⟨a, b, rfl⟩
    exact ⟨_, if_pos hlen⟩
  | _ => exact ⟨_, rfl⟩

theorem integerPair_eq_some {element : TomlValue} {e : Int64 × Int64}
    (h : integerPair element = some e) :
    element = .Array [.Integer e.1, .Integer e.2] := by
  unfold integerPair at h
  split at h
  · cases h
    rfl
  · cases h

/-- One element. -/
theorem element_eq_ok {s s' : Parsing} {element : TomlValue} :
    s.element element = .ok s' ↔
      Taken element ∧ (∀ e ∈ integerPair element, e.2 ∉ s.used_chain_ids) ∧
        s' = s.pushAll (integerPair element).toList := by
  by_cases hpair : ∃ a b, element = .Array [a, b]
  · rcases hentry : integerPair element with _ | ⟨height, chain_id⟩
    · obtain ⟨a, b, rfl⟩ := hpair
      rw [element_others s hentry]
      constructor
      · intro h
        refine ⟨⟨⟨a, b, rfl⟩, fun _ _ h => ?_⟩, fun _ h => (nomatch h), (Except.ok.inj h).symm⟩
        rw [hentry] at h
        cases h
      · rintro ⟨-, -, rfl⟩
        rfl
    · have helement := integerPair_eq_some hentry
      have htaken : Taken element ↔ 0 ≤ height ∧ 0 ≤ chain_id ∧ chain_id ≤ 4294967295 := by
        constructor
        · intro h
          exact h.2 height chain_id hentry
        · intro h
          refine ⟨hpair, fun _ _ h' => ?_⟩
          rw [hentry] at h'
          cases h'
          exact h
      have hused : (∀ e ∈ some (height, chain_id), e.2 ∉ s.used_chain_ids) ↔
          chain_id ∉ s.used_chain_ids := by
        constructor
        · intro h
          exact h (height, chain_id) rfl
        · intro h e he
          cases he
          exact h
      rw [htaken, hused, helement]
      exact element_integers s height chain_id s'
  · obtain ⟨e, he⟩ := element_refused s hpair
    rw [he]
    constructor
    · intro h
      cases h
    · rintro ⟨h, -⟩
      exact absurd h.1 hpair

theorem entries_cons (element : TomlValue) (array : List TomlValue) :
    entries (element :: array) = (integerPair element).toList ++ entries array := by
  unfold entries
  rcases h : integerPair element with _ | e
  · rw [List.filterMap_cons_none h]
    rfl
  · rw [List.filterMap_cons_some h]
    rfl

/-- A table is accepted element by element. -/
theorem accepted_cons {element : TomlValue} {array : List TomlValue} {s : Parsing} :
    (Accepted (element :: array) ∧ ∀ e ∈ entries (element :: array), e.2 ∉ s.used_chain_ids) ↔
      (Taken element ∧ ∀ e ∈ integerPair element, e.2 ∉ s.used_chain_ids) ∧ Accepted array ∧
        ∀ e ∈ entries array, e.2 ∉ (s.pushAll (integerPair element).toList).used_chain_ids := by
  constructor
  · rintro ⟨⟨htaken, hnodup⟩, hfresh⟩
    rw [entries_cons] at hfresh hnodup
    rw [List.map_append, List.nodup_append] at hnodup
    obtain ⟨-, hrest, hdisjoint⟩ := hnodup
    refine ⟨⟨htaken _ List.mem_cons_self, fun e he => ?_⟩,
      ⟨fun e he => htaken e (List.mem_cons_of_mem _ he), hrest⟩, fun e he => ?_⟩
    · exact hfresh e (List.mem_append_left _ (Option.mem_toList.mpr he))
    · rw [mem_used_pushAll, not_or]
      refine ⟨fun h => ?_, hfresh e (List.mem_append_right _ he)⟩
      exact hdisjoint _ h _ (List.mem_map_of_mem he) rfl
  · rintro ⟨⟨htaken, hfresh⟩, ⟨htakens, hnodup⟩, hfreshes⟩
    have hapart : ∀ e ∈ entries array, e.2 ∉ (integerPair element).toList.map Prod.snd ∧
        e.2 ∉ s.used_chain_ids := by
      intro e he
      have h := hfreshes e he
      rwa [mem_used_pushAll, not_or] at h
    refine ⟨⟨?_, ?_⟩, ?_⟩
    · intro e he
      rcases List.mem_cons.mp he with rfl | he
      · exact htaken
      · exact htakens e he
    · rw [entries_cons, List.map_append, List.nodup_append]
      refine ⟨?_, hnodup, ?_⟩
      · cases integerPair element with
        | none => exact List.nodup_nil
        | some e => exact List.nodup_singleton _
      · rintro c hc c' hc' rfl
        obtain ⟨e, he, rfl⟩ := List.mem_map.mp hc'
        exact (hapart e he).1 hc
    · intro e he
      rw [entries_cons] at he
      rcases List.mem_append.mp he with he | he
      · exact hfresh e (Option.mem_toList.mp he)
      · exact (hapart e he).2

/-- The loop over the elements. -/
theorem foldlM_element_eq_ok {s s' : Parsing} {array : List TomlValue} :
    array.foldlM element s = .ok s' ↔
      (Accepted array ∧ ∀ e ∈ entries array, e.2 ∉ s.used_chain_ids) ∧
        s' = s.pushAll (entries array) := by
  induction array generalizing s with
  | nil =>
    constructor
    · intro h
      exact ⟨⟨⟨fun _ h => (nomatch h), List.nodup_nil⟩, fun _ h => (nomatch h)⟩,
        (Except.ok.inj h).symm⟩
    · rintro ⟨-, rfl⟩
      rfl
  | cons element array ih =>
    have hbind : (element :: array).foldlM Parsing.element s = .ok s' ↔
        ∃ s₁, s.element element = .ok s₁ ∧ array.foldlM Parsing.element s₁ = .ok s' := by
      rw [List.foldlM_cons]
      rcases s.element element with e | s₁
      · constructor
        · intro h
          cases h
        · rintro ⟨s₁, h, -⟩
          cases h
      · constructor
        · intro h
          exact ⟨s₁, rfl, h⟩
        · rintro ⟨_, h, hrest⟩
          cases h
          exact hrest
    rw [hbind, accepted_cons, entries_cons, pushAll_append]
    constructor
    · rintro ⟨s₁, helement, hrest⟩
      obtain ⟨htaken, hfresh, rfl⟩ := element_eq_ok.mp helement
      obtain ⟨haccepted, rfl⟩ := ih.mp hrest
      exact ⟨⟨⟨htaken, hfresh⟩, haccepted⟩, rfl⟩
    · rintro ⟨⟨⟨htaken, hfresh⟩, haccepted⟩, rfl⟩
      exact ⟨_, element_eq_ok.mpr ⟨htaken, hfresh, rfl⟩, ih.mpr ⟨haccepted, rfl⟩⟩

end Parsing

/-! ## The configuration -/

/-- The code does not panic, and the parameters that it gives are sound. -/
def Reliable (result : Except ChainIdPanic (Except String ChainIdParamsOneChainInner)) : Prop :=
  (∃ e, result = .ok (.error e)) ∨ ∃ p : ChainIdParamsOneChainInner, result = .ok (.ok p) ∧ p.Sound

/-- The array in a configuration. -/
def heightTable : TomlValue → Option (List TomlValue)
  | .Table table =>
    match table.lookup "height_to_chain_ids" with
    | some (.Array array) => some array
    | _ => none
  | _ => none

/-- A table that is accepted has a pair of integers, and heights that increase if they start at
    zero. -/
def Orderly (value : TomlValue) : Prop :=
  ∀ array ∈ heightTable value, array ≠ [] → Accepted array →
    entries array ≠ [] ∧
      ((heightsOf (entries array)).head? = some 0 → (heightsOf (entries array)).Pairwise (· < ·))

/-- All has been read. -/
theorem finish_reliable_iff (entries : List (Int64 × Int64)) :
    Reliable (Parsing.start.pushAll entries).finish ↔
      entries ≠ [] ∧ ((heightsOf entries).head? = some 0 →
        (heightsOf entries).Pairwise (· < ·)) := by
  have hheights : (Parsing.start.pushAll entries).parsed.heights = heightsOf entries :=
    Parsing.heights_pushAll _ _
  have hids : (Parsing.start.pushAll entries).parsed.chain_ids.length =
      (Parsing.start.pushAll entries).parsed.heights.length := by
    rw [Parsing.length_chain_ids_pushAll, hheights, heightsOf, List.length_map]
    exact Nat.zero_add _
  generalize Parsing.start.pushAll entries = s at hheights hids
  cases entries with
  | nil =>
    have hpanic : s.finish = .error .index_out_of_range := by
      unfold Parsing.finish index
      rw [hheights]
      rfl
    rw [hpanic]
    constructor
    · rintro (⟨e, h⟩ | ⟨p, h, -⟩)
      · cases h
      · cases h
    · rintro ⟨h, -⟩
      exact absurd rfl h
  | cons e entries =>
    have hhead : s.parsed.heights.head? = some e.1.toUInt64 := by
      rw [hheights]
      rfl
    have hfinish : s.finish = if e.1.toUInt64 ≠ 0 then
        .ok (.error "Invalid ChainIdParams config format: height must start from 0")
        else .ok (.ok s.parsed) := by
      unfold Parsing.finish index
      rw [← List.head?_eq_getElem?, hhead]
      show (if e.1.toUInt64 ≠ 0 then _ else _) = _
      split <;> rfl
    rw [hfinish, ← hheights]
    by_cases hzero : e.1.toUInt64 = 0
    · rw [if_neg (not_not.mpr hzero)]
      rw [hzero] at hhead
      constructor
      · rintro (⟨e, h⟩ | ⟨p, h, hsound⟩)
        · cases h
        · cases h
          exact ⟨List.cons_ne_nil _ _, fun _ => hsound.increasing⟩
      · rintro ⟨-, h⟩
        exact .inr ⟨_, rfl, hhead, h hhead, hids, gives_chain_id hhead (h hhead) hids⟩
    · rw [if_pos hzero]
      constructor
      · intro _
        refine ⟨List.cons_ne_nil _ _, fun h => ?_⟩
        rw [hhead] at h
        exact absurd (Option.some.inj h) hzero
      · intro _
        exact .inl ⟨_, rfl⟩

section
variable [TomlParser] {config : String} {value : TomlValue}

/-- Without an array there is nothing to read. -/
theorem parse_config_str_without_array (hparse : TomlParser.parse config = .ok value)
    (htable : heightTable value = none) : ∃ e, parse_config_str config = .ok (.error e) := by
  unfold parse_config_str
  rw [hparse]
  cases value with
  | Table table =>
    unfold heightTable at htable
    dsimp only at htable ⊢
    rcases hlookup : table.lookup "height_to_chain_ids" with _ | found
    · exact ⟨_, rfl⟩
    · rw [hlookup] at htable
      cases found with
      | Array array => cases htable
      | _ => exact ⟨_, rfl⟩
  | _ => exact ⟨_, rfl⟩

theorem parse_config_str_array (hparse : TomlParser.parse config = .ok value)
    {array : List TomlValue}
    (htable : heightTable value = some array) :
    parse_config_str config =
      if array.length = 0 then
        .ok (.error "Invalid ChainIdParams config format: height_to_chain_ids is empty")
      else
        match array.foldlM Parsing.element Parsing.start with
        | .error e => .ok (.error e)
        | .ok s => s.finish := by
  cases value with
  | Table table =>
    unfold heightTable at htable
    dsimp only at htable
    have hlookup : table.lookup "height_to_chain_ids" = some (.Array array) := by
      split at htable
      · rename_i hlookup
        cases htable
        exact hlookup
      · cases htable
    unfold parse_config_str
    rw [hparse]
    dsimp only
    split
    · rename_i found hfound
      rw [hlookup] at hfound
      cases hfound
      rfl
    · rename_i hother hfound
      rw [hlookup] at hfound
      cases hfound
      exact (hother array rfl).elim
    · rename_i hfound
      rw [hlookup] at hfound
      cases hfound
  | _ => cases htable

theorem parse_array_reliable_iff (hparse : TomlParser.parse config = .ok value)
    {array : List TomlValue}
    (htable : heightTable value = some array) (hne : array ≠ []) :
    Reliable (parse_config_str config) ↔
      (Accepted array → entries array ≠ [] ∧
        ((heightsOf (entries array)).head? = some 0 →
          (heightsOf (entries array)).Pairwise (· < ·))) := by
  rw [parse_config_str_array hparse htable, if_neg fun h => hne (List.length_eq_zero_iff.mp h)]
  have hfresh : ∀ e ∈ entries array, e.2 ∉ Parsing.start.used_chain_ids :=
    fun _ _ => List.not_mem_nil
  rcases hread : array.foldlM Parsing.element Parsing.start with e | s
  · constructor
    · intro _ haccepted
      have hok := Parsing.foldlM_element_eq_ok.mpr ⟨⟨haccepted, hfresh⟩, rfl⟩
      rw [hread] at hok
      cases hok
    · intro _
      exact .inl ⟨e, rfl⟩
  · obtain ⟨⟨haccepted, -⟩, rfl⟩ := Parsing.foldlM_element_eq_ok.mp hread
    constructor
    · intro h _
      exact (finish_reliable_iff _).mp h
    · intro h
      exact (finish_reliable_iff _).mpr (h haccepted)

end

/-- Every configuration is read or refused without a panic, and what is read gives every epoch the
    chain id of the largest height that it has reached, just when the table that is accepted has an
    entry and heights that increase. -/
theorem parse_config_str_reliable_iff [TomlParser] (config : String) :
    Reliable (parse_config_str config) ↔ ∀ value, TomlParser.parse config = .ok value →
      Orderly value := by
  rcases hparse : TomlParser.parse config with e | value
  · have hresult : parse_config_str config = .ok (.error e) := by
      unfold parse_config_str
      rw [hparse]
    exact ⟨fun _ _ h => (nomatch h), fun _ => .inl ⟨e, hresult⟩⟩
  rcases htable : heightTable value with _ | array
  · constructor
    · intro _ _ hvalue array harray
      cases hvalue
      rw [htable] at harray
      cases harray
    · intro _
      exact .inl (parse_config_str_without_array hparse htable)
  by_cases hne : array = []
  · constructor
    · intro _ _ hvalue array' harray hne'
      cases hvalue
      rw [htable] at harray
      cases harray
      exact absurd hne hne'
    · intro _
      rw [parse_config_str_array hparse htable, hne]
      exact .inl ⟨_, rfl⟩
  rw [parse_array_reliable_iff hparse htable hne]
  constructor
  · intro h _ hvalue array' harray _
    cases hvalue
    rw [htable] at harray
    cases harray
    exact h
  · intro h
    exact h value rfl array htable hne

/-! ## Two tables -/

/-- Reads the two configurations below. -/
@[reducible] def twoTables : TomlParser where
  parse config :=
    if config = "height_to_chain_ids = [[0.0, 1]]" then
      .ok (.Table [("height_to_chain_ids", .Array [.Array [.Float 0, .Integer 1]])])
    else if config = "height_to_chain_ids = [[0, 0], [20, 1], [10, 2]]" then
      .ok (.Table [("height_to_chain_ids", .Array
        [.Array [.Integer 0, .Integer 0], .Array [.Integer 20, .Integer 1],
          .Array [.Integer 10, .Integer 2]])])
    else .error "expected a key"

/-- A table without a pair of integers panics, and one with heights out of order is accepted. -/
theorem table_panics_or_is_out_of_order :
    ¬ Reliable (@parse_config_str twoTables "height_to_chain_ids = [[0.0, 1]]") ∧
      @parse_config_str twoTables "height_to_chain_ids = [[0, 0], [20, 1], [10, 2]]" =
        .ok (.ok ⟨[0, 20, 10], [0, 1, 2]⟩) ∧
      ¬ Reliable (@parse_config_str twoTables
        "height_to_chain_ids = [[0, 0], [20, 1], [10, 2]]") := by
  have hpanic : @parse_config_str twoTables "height_to_chain_ids = [[0.0, 1]]" =
      .error .index_out_of_range := rfl
  have haccepted : @parse_config_str twoTables "height_to_chain_ids = [[0, 0], [20, 1], [10, 2]]" =
      .ok (.ok ⟨[0, 20, 10], [0, 1, 2]⟩) := rfl
  refine ⟨?_, haccepted, ?_⟩
  · rw [hpanic]
    rintro (⟨e, h⟩ | ⟨p, h, -⟩)
    · cases h
    · cases h
  · rw [haccepted]
    rintro (⟨e, h⟩ | ⟨p, h, hsound⟩)
    · cases h
    · cases h
      exact absurd hsound.increasing (by decide)

end ChainIdParamsOneChainInner

end CfxEvm
