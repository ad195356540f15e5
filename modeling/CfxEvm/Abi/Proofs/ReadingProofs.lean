import CfxEvm.Abi.Reading
import CfxEvm.Types.Proofs.WordProofs

/-!
# Proofs: decoding is safe

Decoding with its checks never panics and gives what decoding gives: a slice is only taken of what
was compared with the length before, and a location or a length that passed the comparison is no
larger than the length of a slice. Every static length is a multiple of 32, so a vector of values of
a static length other than zero loses 32 bytes for each value, whatever length its data declares.
-/

open Lib Lib.Prog

namespace CfxEvm

namespace Reading

variable {α β : Type} {p p' : Bytes}

/-! ## Checks that pass -/

theorem run_slice {data : Bytes} {start stop : ℕ} (hstart : start ≤ stop)
    (hstop : stop ≤ data.length) :
    (slice data start stop).run p = .ok (.ok ((data.take stop).drop start), p) := by
  unfold slice assert
  rw [decide_eq_true hstart, decide_eq_true hstop]
  rfl

theorem run_index {data : Bytes} {i : ℕ} {b : UInt8} (h : data[i]? = some b) :
    (index data i).run p = .ok (.ok b, p) := by
  unfold index
  rw [h]
  rfl

theorem run_try_into {bytes : Bytes} {n : ℕ} (h : bytes.length = n) :
    (try_into bytes n).run p = .ok (.ok ⟨bytes, h⟩, p) := by
  unfold try_into
  rw [dif_pos h]
  rfl

theorem run_try_from {results : List α} {n : ℕ} (h : results.length = n) :
    (try_from results n).run p = .ok (.ok ⟨results, h⟩, p) := by
  unfold try_from
  rw [dif_pos h]
  rfl

theorem run_from_big_endian {bytes : Bytes} (h : bytes.length ≤ 32) :
    (from_big_endian bytes).run p = .ok (.ok (U256.from_big_endian bytes), p) := by
  unfold from_big_endian assert
  rw [decide_eq_true h]
  rfl

theorem run_as_usize {v : U256} (h : v.toNat < 2 ^ 64) :
    (as_usize v).run p = .ok (.ok v.toNat, p) := by
  unfold as_usize assert
  rw [decide_eq_true h]
  rfl

theorem toNat_from_big_endian {bytes : Bytes} (h : bytes.length = 32) :
    (U256.from_big_endian bytes).toNat = ofBigEndian bytes := by
  have hlt := ofBigEndian_lt bytes
  rw [h] at hlt
  exact Nat.mod_eq_of_lt (by omega)

theorem toNat_length {data : Bytes} (h : data.length < 2 ^ 64) :
    (BitVec.ofNat 256 data.length).toNat = data.length :=
  Nat.mod_eq_of_lt (by omega)

/-! ## Agreement -/

section
variable {γ : Type} {out : α → Bytes → β} {x : Reading α} {y : Except String β}

/-- From `p`, the program does not panic and ends as `y` says, where `out` makes the value of what
    the program returns and of the pointer that it leaves. -/
def Agrees (out : α → Bytes → β) (x : Reading α) (p : Bytes) (y : Except String β) : Prop :=
  wp x (fun _ => False) (fun r p' => y = r.map fun a => out a p') p

theorem Agrees.of {y : Except String α} (h : Agrees (fun a _ => a) x p y) :
    Reading.of p x = .ok y := by
  obtain ⟨r, p', hrun, rfl⟩ := exists_run_of_wp h
  unfold Reading.of value
  rw [hrun]
  cases r <;> rfl

theorem agrees_pure (a : α) (p : Bytes) : Agrees Prod.mk (pure a) p (.ok (a, p)) := rfl

theorem Agrees.run_ok {x : Reading α} {y : Except String (α × Bytes)}
    (h : Agrees Prod.mk x p y) {a : α}
    (hy : y = .ok (a, p')) : x.run p = .ok (.ok a, p') := by
  obtain ⟨r, q, hrun, rfl⟩ := exists_run_of_wp h
  cases r with
  | error e => cases hy
  | ok a' =>
    cases hy
    exact hrun

theorem Agrees.run_error (h : Agrees out x p y) {e : String} (hy : y = .error e) :
    ∃ p', x.run p = .ok (.error e, p') := by
  obtain ⟨r, q, hrun, rfl⟩ := exists_run_of_wp h
  cases r with
  | error e' =>
    cases hy
    exact ⟨q, hrun⟩
  | ok a => cases hy

/-- The two parts of a program, one after the other. -/
theorem Agrees.bind {x : Reading γ} {f : γ → Reading α} {y : Except String (γ × Bytes)}
    {g : γ × Bytes → Except String β} (hx : Agrees Prod.mk x p y)
    (hf : ∀ a p', y = .ok (a, p') → Agrees out (f a) p' (g (a, p'))) :
    Agrees out (x >>= f) p (y >>= g) := by
  refine wp_bind.mpr (wp_post hx ?_)
  rintro (e | a) p' rfl
  · rfl
  · exact hf a p' rfl

/-- A part of the program of which it is known what it returns. -/
theorem Agrees.step {x : Reading γ} {f : γ → Reading α} {a : γ} (hx : x.run p = .ok (.ok a, p'))
    (hf : Agrees out (f a) p' y) : Agrees out (x >>= f) p y := by
  unfold Agrees wp
  rw [run_bind, hx]
  exact hf

theorem Agrees.as_slice {f : Bytes → Reading α} (hf : Agrees out (f p) p y) :
    Agrees out (as_slice >>= f) p y := hf

/-- Only the value of what a program returns. -/
theorem Agrees.fst {x : Reading α} {y : Except String (α × Bytes)} (h : Agrees Prod.mk x p y) :
    Agrees (fun a _ => a) x p (y.map Prod.fst) := by
  refine wp_post h ?_
  rintro (e | a) q rfl <;> rfl

theorem Agrees.last {a : α} (hx : x.run p = .ok (.ok a, p')) : Agrees out x p (.ok (out a p')) := by
  unfold Agrees wp
  rw [hx]
  rfl

theorem Agrees.fails {x : Reading γ} {f : γ → Reading α} {e : String}
    (hx : x.run p = .ok (.error e, p')) :
    Agrees out (x >>= f) p (.error e) := by
  unfold Agrees wp
  rw [run_bind, hx]
  rfl

/-- A requirement comes first in both. -/
theorem agrees_require {f : Unit → Reading α} {c : Bool} {desc : String}
    (hf : c = true → Agrees out (f ()) p y) :
    Agrees out (abi_require c desc >>= f) p (Abi.abi_require c desc >>= fun _ => y) := by
  cases c with
  | false => rfl
  | true => exact hf rfl

/-- What another type is decoded to comes first in both. -/
theorem agrees_call {r : Except DecodePanic (Except String γ)} {z : Except String γ}
    {f : γ → Reading α} {g : γ → Except String β} (hr : r = .ok z)
    (hf : ∀ a, Agrees out (f a) p (g a)) : Agrees out (call r >>= f) p (z >>= g) := by
  subst hr
  cases z with
  | error e => rfl
  | ok a => exact hf a

theorem agrees_call_last {r : Except DecodePanic (Except String α)} {z : Except String α}
    (hr : r = .ok z) : Agrees out (call r) p (do
      let a ← z
      return out a p) := by
  subst hr
  cases z <;> rfl

end

theorem pull_slice_eq (n : ℕ) (desc : String) :
    Abi.pull_slice p n desc =
      Abi.abi_require (n ≤ p.length) desc >>= fun _ => .ok (p.take n, p.drop n) := by
  unfold Abi.pull_slice
  by_cases hn : n ≤ p.length
  · rw [if_pos hn, decide_eq_true hn]
    rfl
  · rw [if_neg hn, decide_eq_false hn]
    rfl

theorem agrees_pull_slice (n : ℕ) (desc : String) :
    Agrees Prod.mk (pull_slice n desc) p (Abi.pull_slice p n desc) := by
  rw [pull_slice_eq]
  refine .as_slice (agrees_require fun h => ?_)
  have hn : n ≤ p.length := of_decide_eq_true h
  refine .step (run_slice (Nat.zero_le n) hn) ?_
  refine .step (run_slice hn le_rfl) ?_
  rw [List.drop_zero, List.take_length]
  rfl

theorem pull_slice_eq_ok {n : ℕ} {desc : String} {res : Bytes}
    (h : Abi.pull_slice p n desc = .ok (res, p')) :
    n ≤ p.length ∧ res = p.take n ∧ p' = p.drop n := by
  unfold Abi.pull_slice at h
  split at h
  · obtain ⟨rfl, rfl⟩ := Prod.mk.inj (Except.ok.inj h)
    exact ⟨‹_›, rfl, rfl⟩
  · cases h

end Reading

/-! ## Types -/

/-- Decoding a type does not panic and gives what the type decodes to; a static length is one of
    whole words. -/
structure ABIReader.Safe (α : Type) [ABIVariable α] [ABIReader α] : Prop where
  agrees : ∀ data : Bytes, data.length < 2 ^ 64 →
    ABIReader.from_abi data = .ok (ABIVariable.from_abi data : Except String α)
  words : ∀ len, ABIVariable.STATIC_LENGTH α = some len → 32 ∣ len

namespace Reading

variable {α : Type} [ABIVariable α] {p p' data : Bytes}

/-- A value of a list takes its place, and no more. -/
theorem read_abi_list_eq_ok {a : α} (h : Abi.read_abi_list α data p = .ok (a, p')) :
    Abi.head_length α ≤ p.length ∧ p' = p.drop (Abi.head_length α) := by
  unfold Abi.read_abi_list at h
  unfold Abi.head_length
  rcases hlen : ABIVariable.STATIC_LENGTH α with _ | len
  · simp only [hlen] at h
    obtain ⟨⟨head, q⟩, hpull, h⟩ := bind_eq_ok.mp h
    obtain ⟨hle, -, rfl⟩ := pull_slice_eq_ok hpull
    obtain ⟨-, -, h⟩ := bind_eq_ok.mp h
    obtain ⟨_, -, h⟩ := bind_eq_ok.mp h
    exact ⟨hle, (Prod.mk.inj (Except.ok.inj h)).2.symm⟩
  · simp only [hlen] at h
    obtain ⟨⟨res, q⟩, hpull, h⟩ := bind_eq_ok.mp h
    obtain ⟨hle, -, rfl⟩ := pull_slice_eq_ok hpull
    obtain ⟨_, -, h⟩ := bind_eq_ok.mp h
    exact ⟨hle, (Prod.mk.inj (Except.ok.inj h)).2.symm⟩

theorem length_read {a : α} (h : Abi.read_abi_list α data p = .ok (a, p')) :
    p'.length + Abi.head_length α = p.length := by
  obtain ⟨hle, rfl⟩ := read_abi_list_eq_ok h
  rw [List.length_drop]
  omega

theorem agrees_read_abi_list [ABIReader α] (hsafe : ABIReader.Safe α) (hdata : data.length < 2 ^ 64)
    (hp : p.length < 2 ^ 64) :
    Agrees Prod.mk (read_abi_list α data) p (Abi.read_abi_list α data p) := by
  unfold read_abi_list Abi.read_abi_list
  rcases ABIVariable.STATIC_LENGTH α with _ | len
  · refine .bind (agrees_pull_slice _ _) fun head q hpull => ?_
    obtain ⟨hle, rfl, rfl⟩ := pull_slice_eq_ok hpull
    have hlen : (p.take 32).length = 32 := List.length_take_of_le hle
    refine .step (run_from_big_endian hlen.le) ?_
    have hlocation : (U256.from_big_endian (p.take 32) < BitVec.ofNat 256 data.length) ↔
        ofBigEndian (p.take 32) < data.length := by
      rw [BitVec.lt_def, toNat_from_big_endian hlen, toNat_length hdata]
    rw [decide_eq_decide.mpr hlocation]
    refine agrees_require fun hlt => ?_
    have hlt : ofBigEndian (p.take 32) < data.length := of_decide_eq_true hlt
    rw [← toNat_from_big_endian hlen] at hlt ⊢
    refine .step (run_as_usize (by omega)) ?_
    refine .step (run_slice hlt.le le_rfl) ?_
    rw [List.take_length]
    refine agrees_call_last (hsafe.agrees _ ?_)
    rw [List.length_drop]
    omega
  · refine .bind (agrees_pull_slice _ _) fun res q hpull => ?_
    obtain ⟨hle, rfl, rfl⟩ := pull_slice_eq_ok hpull
    refine agrees_call_last (hsafe.agrees _ ?_)
    rw [List.length_take]
    omega

/-! ## Several values -/

section
variable [ABIReader α]

/-- A value of a list comes first in both. -/
theorem agrees_bind_read {β γ : Type} {out : β → Bytes → γ} {f : α → Reading β}
    {g : α × Bytes → Except String γ} (hsafe : ABIReader.Safe α) (hdata : data.length < 2 ^ 64)
    (hp : p.length < 2 ^ 64) (hf : ∀ a q, q.length < 2 ^ 64 → Agrees out (f a) q (g (a, q))) :
    Agrees out (read_abi_list α data >>= f) p (Abi.read_abi_list α data p >>= g) := by
  refine .bind (agrees_read_abi_list hsafe hdata hp) fun a q hread => hf a q ?_
  have hlen := length_read hread
  omega

theorem agrees_read_times (hsafe : ABIReader.Safe α) (hdata : data.length < 2 ^ 64) (n : ℕ)
    (results : List α) (hp : p.length < 2 ^ 64) :
    Agrees Prod.mk (read_times α data n results) p (do
      let (items, pointer) ← Abi.read_items α data n p
      return (results ++ items.1, pointer)) := by
  induction n generalizing results p with
  | zero =>
    show Agrees _ (pure results) p (.ok (results ++ [], p))
    rw [List.append_nil]
    rfl
  | succ n ih =>
    rw [Abi.read_items, bind_assoc]
    refine agrees_bind_read hsafe hdata hp fun item q hq => ?_
    have hrest := ih (results ++ [item]) hq
    simpa only [bind_assoc, pure_bind, List.append_assoc, List.singleton_append] using hrest

variable {expected_length i : U256} {results : List α}

theorem run_vec_round_last (hi : ¬i < expected_length) :
    (vec_round α data expected_length).run (⟨i, results⟩, p) =
      .ok (.ok (some ()), (⟨i, results⟩, p)) := by
  show (if i < expected_length then _ else _ : Prog _ _ _ _).run _ = _
  rw [if_neg hi]
  rfl

theorem run_vec_round_next (hsafe : ABIReader.Safe α) (hdata : data.length < 2 ^ 64)
    (hp : p.length < 2 ^ 64) (hi : i < expected_length) {item : α}
    (hread : Abi.read_abi_list α data p = .ok (item, p')) :
    (vec_round α data expected_length).run (⟨i, results⟩, p) =
      .ok (.ok none, (⟨i + 1, results ++ [item]⟩, p')) := by
  have hrun := (agrees_read_abi_list hsafe hdata hp).run_ok hread
  show (if i < expected_length then _ else _ : Prog _ _ _ _).run _ = _
  rw [if_pos hi, run_bind, run_zoom_eq_ok.mpr ⟨p', hrun, rfl⟩]
  have hcount : i.toNat + 1 < 2 ^ 256 := by
    have := BitVec.lt_def.mp hi
    have := expected_length.isLt
    omega
  unfold assert
  rw [decide_eq_true hcount]
  rfl

theorem run_vec_round_error (hsafe : ABIReader.Safe α) (hdata : data.length < 2 ^ 64)
    (hp : p.length < 2 ^ 64) (hi : i < expected_length) {e : String}
    (hread : Abi.read_abi_list α data p = .error e) :
    ∃ p', (vec_round α data expected_length).run (⟨i, results⟩, p) =
      .ok (.error e, (⟨i, results⟩, p')) := by
  obtain ⟨p', hrun⟩ := (agrees_read_abi_list hsafe hdata hp).run_error hread
  refine ⟨p', ?_⟩
  show (if i < expected_length then _ else _ : Prog _ _ _ _).run _ = _
  rw [if_pos hi, run_bind, run_zoom_eq_ok.mpr ⟨p', hrun, rfl⟩]

/-- The loop reads as many values as are missing. -/
theorem wp_vec_loop (hsafe : ABIReader.Safe α) (hdata : data.length < 2 ^ 64) {k n : ℕ}
    (hkn : k < n)
    (hi : i.toNat + k = expected_length.toNat) (hp : p.length < 2 ^ 64) :
    wp (loop (vec_round α data expected_length) n) (fun _ => False)
      (fun r s => (do
        let (items, pointer) ← Abi.read_items α data k p
        return (results ++ items.1, pointer)) = r.map fun _ => (s.1.results, s.2))
          (⟨i, results⟩, p) := by
  obtain ⟨n, rfl⟩ : ∃ m, n = m + 1 := ⟨n - 1, by omega⟩
  induction k generalizing i results p n with
  | zero =>
    have hlast : ¬i < expected_length := by
      rw [BitVec.lt_def]
      omega
    unfold wp
    rw [run_loop_succ, run_vec_round_last hlast]
    show Except.ok (results ++ [], p) = .ok (results, p)
    rw [List.append_nil]
  | succ k ih =>
    obtain ⟨n, rfl⟩ : ∃ m, n = m + 1 := ⟨n - 1, by omega⟩
    have hlt : i < expected_length := by
      rw [BitVec.lt_def]
      omega
    have hadd : (i + 1).toNat = i.toNat + 1 := by
      have := expected_length.isLt
      rw [BitVec.toNat_add]
      exact Nat.mod_eq_of_lt (by show i.toNat + 1 < _; omega)
    unfold wp
    rcases hread : Abi.read_abi_list α data p with e | ⟨item, q⟩
    · obtain ⟨p', hround⟩ := run_vec_round_error hsafe hdata hp hlt hread
      rw [run_loop_succ, hround, Abi.read_items, hread]
      rfl
    · have hlen := length_read hread
      rw [run_loop_succ, run_vec_round_next hsafe hdata hp hlt hread]
      have hnext : (i + 1).toNat + k = expected_length.toNat := by omega
      refine wp_post (ih hnext (by omega) n (by omega)) fun r s hrest => ?_
      rw [← hrest, Abi.read_items, hread]
      simp only [bind_assoc, pure_bind, List.append_assoc, List.singleton_append]
      rfl

end

end Reading

namespace ABIReader.Safe

open Reading

/-- The types of one word have the static length 32. -/
theorem words_of_eq {α : Type} [ABIVariable α] (h : ABIVariable.STATIC_LENGTH α = some 32) (len : ℕ)
    (hlen : ABIVariable.STATIC_LENGTH α = some len) : 32 ∣ len := by
  rw [h] at hlen
  exact dvd_of_eq (Option.some.inj hlen)

theorem words_of_none {α : Type} [ABIVariable α] (h : ABIVariable.STATIC_LENGTH α = none) (len : ℕ)
    (hlen : ABIVariable.STATIC_LENGTH α = some len) : 32 ∣ len := by
  rw [h] at hlen
  cases hlen

theorem address : ABIReader.Safe Address where
  agrees data _ := by
    refine Agrees.of (agrees_require fun h => ?_)
    have hlen : data.length = 32 := beq_iff_eq.mp h
    refine .step (run_slice (by omega) hlen.ge) ?_
    rw [← hlen, List.take_length]
    refine .step (run_try_into (by rw [List.length_drop]; omega)) ?_
    rfl
  words := words_of_eq rfl

theorem u256 : ABIReader.Safe U256 where
  agrees data _ := by
    refine Agrees.of (agrees_require fun h => ?_)
    have hlen : data.length = 32 := beq_iff_eq.mp h
    exact .last (run_from_big_endian hlen.le)
  words := words_of_eq rfl

theorem bool : ABIReader.Safe Bool where
  agrees data _ := by
    refine Agrees.of (agrees_require fun h => ?_)
    have hlen : data.length = 32 := beq_iff_eq.mp h
    have hlast : data[31]? = some (data.getLastD 0) := by
      rw [List.getLastD_eq_getLast?, List.getLast?_eq_getElem?, hlen,
        List.getElem?_eq_getElem (by omega)]
      rfl
    exact .step (run_index hlast) rfl
  words := words_of_eq rfl

theorem primitive {bytes : ℕ} (h : bytes ≤ 32) :
    @ABIReader.Safe (BitVec (8 * bytes)) (.primitive bytes) (.primitive bytes) := by
  refine @ABIReader.Safe.mk _ (_) (_) (fun data _ => ?_) ?_
  · refine Agrees.of (agrees_require fun h => ?_)
    have hlen : data.length = 32 := beq_iff_eq.mp h
    refine .step (run_slice (by omega) le_rfl) ?_
    rw [List.take_length]
    exact .step (run_try_into (by rw [List.length_drop]; omega)) rfl
  · rintro len ⟨⟩
    exact dvd_rfl

theorem fixed_bytes (n : ℕ) : ABIReader.Safe (FixedBytes n) where
  agrees data _ := by
    refine Agrees.of (.as_slice ?_)
    by_cases hn : n ≤ data.length
    · rw [if_neg (by omega)]
      refine .step (run_slice (Nat.zero_le n) hn) ?_
      have hpure : (ABIVariable.from_abi data : Except String (FixedBytes n)) =
          .ok ⟨data.take n, List.length_take_of_le hn⟩ := dif_pos hn
      rw [hpure]
      exact .last (run_try_into (List.length_take_of_le hn))
    · rw [if_pos (by omega)]
      exact dif_neg hn
  words := words_of_eq rfl

theorem bytes : ABIReader.Safe Bytes where
  agrees data hdata := by
    refine Agrees.of (.bind (agrees_pull_slice _ _) fun head rest hpull => ?_)
    obtain ⟨hle, rfl, rfl⟩ := pull_slice_eq_ok hpull
    have hlen : (data.take 32).length = 32 := List.length_take_of_le hle
    have hrest : (data.drop 32).length < 2 ^ 64 := by
      rw [List.length_drop]
      omega
    refine .step (run_from_big_endian hlen.le) (.as_slice ?_)
    have hlength : (BitVec.ofNat 256 (data.drop 32).length < U256.from_big_endian (data.take 32)) ↔
        (data.drop 32).length < ofBigEndian (data.take 32) := by
      rw [BitVec.lt_def, toNat_length hrest, toNat_from_big_endian hlen]
    show Agrees _ _ _ (if (data.drop 32).length < ofBigEndian (data.take 32) then _ else _)
    by_cases hlt : (data.drop 32).length < ofBigEndian (data.take 32)
    · rw [if_pos (hlength.mpr hlt), if_pos hlt]
      rfl
    · rw [if_neg (mt hlength.mp hlt), if_neg hlt]
      rw [← toNat_from_big_endian hlen] at hlt ⊢
      refine .step (run_as_usize (by omega)) ?_
      exact .last (run_slice (Nat.zero_le _) (by omega))
  words := words_of_none rfl

theorem h256 : @ABIReader.Safe H256 .h256 .h256 := by
  refine @ABIReader.Safe.mk _ (_) (_) (fun data hdata => ?_) ?_
  · exact Agrees.of (agrees_call ((fixed_bytes 32).agrees data hdata) fun _ => rfl)
  · rintro len ⟨⟩
    exact dvd_rfl

theorem string : ABIReader.Safe String where
  agrees data hdata := by
    refine Agrees.of (agrees_call (bytes.agrees data hdata) fun byte_array => ?_)
    rcases String.fromUTF8? ⟨byte_array.toArray⟩ with _ | s
    · rfl
    · rfl
  words := words_of_none rfl

section
variable {α : Type} [ABIVariable α] [ABIReader α]

theorem vec (hsafe : ABIReader.Safe α) : @ABIReader.Safe (List α) .vec .vec := by
  refine @ABIReader.Safe.mk _ (_) (_) (fun data hdata => ?_) (fun len h => nomatch h)
  refine Agrees.of (.bind (agrees_pull_slice _ _) fun head rest hpull => ?_)
  obtain ⟨hle, rfl, rfl⟩ := pull_slice_eq_ok hpull
  have hlen : (data.take 32).length = 32 := List.length_take_of_le hle
  have hrest : (data.drop 32).length < 2 ^ 64 := by
    rw [List.length_drop]
    omega
  refine .step (run_from_big_endian hlen.le) (.as_slice ?_)
  show Agrees _ _ _
    (Abi.read_items α (data.drop 32) (ofBigEndian (data.take 32)) (data.drop 32) >>=
      fun x => pure x.1.1)
  rw [← toNat_from_big_endian hlen]
  have hstart : (0 : U256).toNat + (U256.from_big_endian (data.take 32)).toNat =
      (U256.from_big_endian (data.take 32)).toNat := Nat.zero_add _
  refine wp_bind.mpr (wp_withPart.mpr
    (wp_post (wp_vec_loop hsafe hrest (Nat.lt_succ_self _) hstart hrest) fun r s hloop => ?_))
  rcases hitems : Abi.read_items α (data.drop 32) (U256.from_big_endian (data.take 32)).toNat
    (data.drop 32) with e | ⟨items, q⟩
  · rw [hitems] at hloop
    rcases r with e' | o
    · cases hloop
      rfl
    · cases hloop
  · rw [hitems] at hloop
    rcases r with e' | o
    · cases hloop
    · obtain ⟨hresults, -⟩ := Prod.mk.inj (Except.ok.inj hloop)
      exact congrArg Except.ok hresults

theorem array (hsafe : ABIReader.Safe α) (n : ℕ) :
    @ABIReader.Safe (FixedArray α n) (.array n) (.array n) := by
  refine @ABIReader.Safe.mk _ (_) (_) (fun data hdata => ?_) ?_
  · refine Agrees.of ?_
    have hread := agrees_read_times hsafe hdata n [] hdata
    show Agrees _ _ _ (Abi.read_items α data n data >>= fun x => pure x.1)
    rcases hitems : Abi.read_items α data n data with e | ⟨items, q⟩
    · rw [hitems] at hread
      obtain ⟨q, hrun⟩ := hread.run_error rfl
      exact .fails hrun
    · rw [hitems] at hread
      refine .step (hread.run_ok rfl) ?_
      exact .last (run_try_from items.2)
  · intro len hlen
    obtain ⟨length, hlength, rfl⟩ := Option.map_eq_some_iff.mp hlen
    exact dvd_mul_of_dvd_left (hsafe.words length hlength) n

end

end ABIReader.Safe

/-! ## Structures -/

/-- Reading the fields does not panic and gives what the fields are; they add whole words to a
    static length. -/
structure ABIFieldsReader.Safe (α : Type) [ABIFields α] [ABIFieldsReader α] : Prop where
  agrees : ∀ data p : Bytes, data.length < 2 ^ 64 → p.length < 2 ^ 64 →
    Reading.Agrees Prod.mk (ABIFieldsReader.read_fields data) p
      (ABIFields.read_fields data p : Except String (α × Bytes))
  words : ∀ answer len, (∀ length, answer = some length → 32 ∣ length) →
    ABIFields.static_length α answer = some len → 32 ∣ len

namespace ABIFieldsReader.Safe

open Reading

theorem empty : ABIFieldsReader.Safe Unit where
  agrees _ p _ _ := agrees_pure () p
  words _ len hanswer hlen := hanswer len hlen

variable {α β : Type} [ABIVariable α] [ABIReader α]

theorem add_static_length {answer : Option ℕ} {len : ℕ} (hsafe : ABIReader.Safe α)
    (hanswer : ∀ length, answer = some length → 32 ∣ length)
    (hlen : Abi.add_static_length answer (ABIVariable.STATIC_LENGTH α) = some len) : 32 ∣ len := by
  rcases answer with _ | x
  · cases hlen
  · rcases hy : ABIVariable.STATIC_LENGTH α with _ | y
    · rw [hy] at hlen
      cases hlen
    · rw [hy] at hlen
      cases hlen
      exact Nat.dvd_add (hanswer x rfl) (hsafe.words y hy)

theorem last (hsafe : ABIReader.Safe α) : @ABIFieldsReader.Safe α .last .last :=
  @ABIFieldsReader.Safe.mk _ (_) (_)
    (fun _ _ hdata hp => agrees_read_abi_list hsafe hdata hp) fun _ _ => add_static_length hsafe

theorem cons [ABIFields β] [ABIFieldsReader β] (hsafe : ABIReader.Safe α)
    (hrest : ABIFieldsReader.Safe β) : @ABIFieldsReader.Safe (α × β) .cons .cons := by
  refine @ABIFieldsReader.Safe.mk _ (_) (_) (fun data p hdata hp => ?_)
    fun answer len hanswer hlen => ?_
  · refine agrees_bind_read hsafe hdata hp fun x q hq => ?_
    refine Agrees.bind (hrest.agrees data q hdata hq) fun rest q' _ => ?_
    exact agrees_pure _ _
  · exact hrest.words _ len (fun _ => add_static_length hsafe hanswer) hlen

end ABIFieldsReader.Safe

theorem ABIReader.Safe.struct {α : Type} [ABIFields α] [ABIFieldsReader α]
    (hfields : ABIFieldsReader.Safe α) : ABIReader.Safe (Struct α) where
  agrees data hdata := by
    refine Reading.Agrees.of (.bind (hfields.agrees data data hdata hdata) fun fields q _ => ?_)
    rfl
  words len hlen := hfields.words (some 0) len (by rintro _ ⟨⟩; exact dvd_zero 32) hlen

/-! ## All types -/

mutual

theorem Built.safe {α : Type} {v : ABIVariable α} {r : ABIReader α} :
    Built α v r → ABIReader.Safe α
  | .address => .address
  | .u256 => .u256
  | .h256 => .h256
  | .bool => .bool
  | .primitive h =>
    .primitive (by simp only [List.mem_cons, List.not_mem_nil, or_false] at h; omega)
  | .fixed_bytes _ => .fixed_bytes _
  | .bytes => .bytes
  | .string => .string
  | .vec item _ => .vec item.safe
  | .array item n => .array item.safe n
  | .struct fields => .struct fields.safe

theorem BuiltFields.safe {α : Type} {f : ABIFields α} {r : ABIFieldsReader α} :
    BuiltFields α f r → ABIFieldsReader.Safe α
  | .empty => .empty
  | .last field => .last field.safe
  | .cons field rest => .cons field.safe rest.safe

end

open Reading in
/-- A list of parameters is decoded to what it is, without a panic. -/
theorem BuiltList.agrees {π : Type} {d : ABIDecodable π} {r : DecodableReader π}
    (h : BuiltList π d r)
    {data : Bytes} (hdata : data.length < 2 ^ 64) :
    DecodableReader.abi_decode data = .ok (abi_decode data : Except String π) := by
  cases h with
  | unit => rfl
  | one a => exact (agrees_read_abi_list a.safe hdata hdata).fst.of
  | two a b =>
    refine Agrees.of (agrees_bind_read a.safe hdata hdata fun a q hq => ?_)
    exact agrees_bind_read b.safe hdata hq fun b q _ => rfl
  | three a b c =>
    refine Agrees.of (agrees_bind_read a.safe hdata hdata fun a q hq => ?_)
    refine agrees_bind_read b.safe hdata hq fun b q hq => ?_
    exact agrees_bind_read c.safe hdata hq fun c q _ => rfl
  | four a b c d =>
    refine Agrees.of (agrees_bind_read a.safe hdata hdata fun a q hq => ?_)
    refine agrees_bind_read b.safe hdata hq fun b q hq => ?_
    refine agrees_bind_read c.safe hdata hq fun c q hq => ?_
    exact agrees_bind_read d.safe hdata hq fun d q _ => rfl
  | five a b c d e =>
    refine Agrees.of (agrees_bind_read a.safe hdata hdata fun a q hq => ?_)
    refine agrees_bind_read b.safe hdata hq fun b q hq => ?_
    refine agrees_bind_read c.safe hdata hq fun c q hq => ?_
    refine agrees_bind_read d.safe hdata hq fun d q hq => ?_
    exact agrees_bind_read e.safe hdata hq fun e q _ => rfl

/-! ## Vectors -/

namespace Reading

section
variable {α : Type} [ABIVariable α] [ABIReader α] {data : Bytes}

/-- A place takes at least a word. -/
theorem le_head_length (hsafe : ABIReader.Safe α) (hzero : ABIVariable.STATIC_LENGTH α ≠ some 0) :
    32 ≤ Abi.head_length α := by
  unfold Abi.head_length
  rcases hlen : ABIVariable.STATIC_LENGTH α with _ | len
  · exact le_rfl
  · have hpos : 0 < len := Nat.pos_of_ne_zero fun h => hzero (hlen.trans (congrArg some h))
    exact Nat.le_of_dvd hpos (hsafe.words len hlen)

/-- What has been read of a vector, and what the pointer has not passed, fit in the data. -/
def Fits (data : Bytes) (s : VecReading α × Bytes) : Prop :=
  s.1.results.length * 32 + s.2.length ≤ data.length

/-- A round that another one follows has read a value of 32 bytes or more. -/
theorem wp_vec_round (hsafe : ABIReader.Safe α) (hzero : ABIVariable.STATIC_LENGTH α ≠ some 0)
    (hdata : data.length < 2 ^ 64) (expected_length : U256) {s : VecReading α × Bytes}
    (hfits : Fits data s) :
    wp (vec_round α data expected_length) (fun _ => False)
      (fun r s' => s'.1.results.length * 32 ≤ data.length ∧
        (r = .ok none → Fits data s' ∧ s'.2.length + 32 ≤ s.2.length)) s := by
  obtain ⟨⟨i, results⟩, p⟩ := s
  have hfits : results.length * 32 + p.length ≤ data.length := hfits
  unfold wp
  by_cases hi : i < expected_length
  · rcases hread : Abi.read_abi_list α data p with e | ⟨item, q⟩
    · obtain ⟨p', hround⟩ := run_vec_round_error hsafe hdata (by omega) hi hread
      rw [hround]
      exact ⟨by show results.length * 32 ≤ _; omega, fun h => nomatch h⟩
    · have hlen := length_read hread
      have hword := le_head_length hsafe hzero
      rw [run_vec_round_next hsafe hdata (by omega) hi hread]
      have hcount : (results ++ [item]).length = results.length + 1 := List.length_append
      refine ⟨?_, fun _ => ⟨?_, ?_⟩⟩
      · show (results ++ [item]).length * 32 ≤ _
        omega
      · show (results ++ [item]).length * 32 + q.length ≤ _
        omega
      · show q.length + 32 ≤ p.length
        omega
  · rw [run_vec_round_last hi]
    exact ⟨by show results.length * 32 ≤ _; omega, fun h => nomatch h⟩

/-- However many rounds there are, the data has 32 bytes for each value of the vector; and more
    rounds than that are not made. -/
theorem vec_loop_bounded (hsafe : ABIReader.Safe α) (hzero : ABIVariable.STATIC_LENGTH α ≠ some 0)
    (hdata : data.length < 2 ^ 64) (expected_length : U256) (rounds : ℕ) :
    ∃ r s, (loop (vec_round α data expected_length) rounds).run (.start, data) = .ok (r, s) ∧
      s.1.results.length * 32 ≤ data.length ∧ (data.length / 32 < rounds → r ≠ .ok none) := by
  have hstart : Fits data ((.start : VecReading α), data) := by
    show 0 * 32 + data.length ≤ data.length
    omega
  have hround := fun (s : VecReading α × Bytes) (hs : Fits data s) =>
    wp_vec_round hsafe hzero hdata expected_length hs
  have hfits := wp_loop (I := Fits data) (Q := fun s => s.1.results.length * 32 ≤ data.length)
    (fun s hs => wp_post (hround s hs) fun r s' h => ⟨h.1, fun hr => (h.2 hr).1⟩)
    (fun s hs => by unfold Fits at hs; omega) rounds hstart
  obtain ⟨r, s, hrun, hbound⟩ := exists_run_of_wp hfits
  refine ⟨r, s, hrun, hbound, fun hlt hnone => ?_⟩
  subst hnone
  refine loop_ends (I := Fits data) (μ := fun s => s.2.length / 32) (fun s s' hs hnext => ?_)
    hstart hlt hrun
  obtain ⟨-, h⟩ := wp_of_run (hround s hs) hnext
  obtain ⟨hs', hlen⟩ := h rfl
  exact ⟨hs', by show s'.2.length / 32 < s.2.length / 32; omega⟩

end

end Reading

open Reading in
/-- Decoding is safe on any bytes. A list of parameters is decoded without a panic to what it is,
    value or error, with every slice, index, conversion and addition checked. Each value of a vector
    takes 32 bytes or more; and whatever length the data of a vector declares, the loop that reads
    the vector does not panic, has never read more than one value for 32 bytes of the data, and ends
    before it has made as many rounds. -/
theorem abi_decode_is_safe {π ι : Type} [d : ABIDecodable π] [q : DecodableReader π]
    [v : ABIVariable ι]
    [r : ABIReader ι] (hlist : BuiltList π d q) (hitem : Built ι v r)
    (hzero : ABIVariable.STATIC_LENGTH ι ≠ some 0) {data : Bytes} (hdata : data.length < 2 ^ 64) :
    DecodableReader.abi_decode data = .ok (abi_decode data : Except String π) ∧
    (∀ pointer item rest, pointer.length ≤ data.length →
      (read_abi_list ι (data.drop 32)).run pointer = .ok (.ok item, rest) →
      rest.length + 32 ≤ pointer.length) ∧
    ∀ (expected_length : U256) (rounds : ℕ), ∃ r s,
      (loop (vec_round ι (data.drop 32) expected_length) rounds).run (.start, data.drop 32) =
        .ok (r, s) ∧
        s.1.results.length ≤ data.length / 32 ∧ (data.length / 32 < rounds → r ≠ .ok none) := by
  have hdrop : (data.drop 32).length ≤ data.length := by
    rw [List.length_drop]
    omega
  refine ⟨hlist.agrees hdata, fun pointer item rest hpointer hrun => ?_,
    fun expected_length rounds => ?_⟩
  · have hread := wp_of_run (agrees_read_abi_list hitem.safe (hdrop.trans_lt hdata)
      (hpointer.trans_lt hdata)) hrun
    have hlen := length_read hread
    have hword := le_head_length hitem.safe hzero
    omega
  · obtain ⟨r, s, hrun, hbound, hends⟩ :=
      vec_loop_bounded hitem.safe hzero (hdrop.trans_lt hdata) expected_length rounds
    exact ⟨r, s, hrun, by omega, fun hlt => hends (by omega)⟩

open Reading in
/-- Two words that point at the second one, which is no length of anything. -/
theorem overlapping_tails_are_refused :
    (DecodableReader.abi_decode (List.replicate 31 0 ++ 32 :: List.replicate 31 0 ++ [32]) :
      Except DecodePanic (Except String (Bytes × String))) =
        .ok (.error "Invalid length in byte array") ∧
    ∀ (expected_length : U256) (rounds : ℕ), ∃ r s,
      (loop (vec_round U256 (List.replicate 31 0 ++ [32]) expected_length) rounds).run
          (.start, List.replicate 31 0 ++ [32]) = .ok (r, s) ∧
        s.1.results.length ≤ 2 ∧ (2 < rounds → r ≠ .ok none) := by
  obtain ⟨hdecode, -, hloop⟩ := abi_decode_is_safe (.two .bytes .string) .u256 nofun
    (by decide : (List.replicate 31 0 ++ 32 :: List.replicate 31 0 ++ [32] : Bytes).length < 2 ^ 64)
  have herror : (abi_decode (List.replicate 31 0 ++ 32 :: List.replicate 31 0 ++ [32]) :
      Except String (Bytes × String)) = .error "Invalid length in byte array" := by decide +kernel
  exact ⟨hdecode.trans (congrArg Except.ok herror), hloop⟩

end CfxEvm
