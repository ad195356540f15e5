import CfxEvm.Types.Words
import Mathlib.Tactic.Ring

/-!
# Proofs: numbers as bytes

Numbers in big-endian order: what comes back when they are read, and how the number of a byte string
goes with its parts.
-/

namespace CfxEvm

theorem bigEndian_succ (len n : Nat) :
    bigEndian (len + 1) n = UInt8.ofNat (n / 256 ^ len) :: bigEndian len n := by
  unfold bigEndian
  rw [List.range_succ_eq_map, List.map_cons, List.map_map]
  congr 1
  refine List.map_congr_left fun i hi => ?_
  have hlt : i < len := List.mem_range.mp hi
  show UInt8.ofNat (n / 256 ^ (len + 1 - 1 - (i + 1))) = UInt8.ofNat (n / 256 ^ (len - 1 - i))
  have hexp : len + 1 - 1 - (i + 1) = len - 1 - i := by omega
  rw [hexp]

theorem ofBigEndian_cons (b : UInt8) (l : Bytes) :
    ofBigEndian (b :: l) = b.toNat * 256 ^ l.length + ofBigEndian l := by
  have hfold : ∀ (l : Bytes) (n : Nat), l.foldl (fun n b => n * 256 + b.toNat) n =
      n * 256 ^ l.length + l.foldl (fun n b => n * 256 + b.toNat) 0 := by
    intro l
    induction l with
    | nil => simp
    | cons b l ih =>
      intro n
      rw [List.foldl_cons, List.foldl_cons, ih, ih (0 * 256 + b.toNat), List.length_cons]
      ring
  unfold ofBigEndian
  rw [List.foldl_cons, hfold]
  ring

/-- The number that the bytes of a number stand for. -/
theorem ofBigEndian_bigEndian (len n : Nat) : ofBigEndian (bigEndian len n) = n % 256 ^ len := by
  induction len with
  | zero => rw [Nat.pow_zero, Nat.mod_one]; rfl
  | succ len ih =>
    rw [bigEndian_succ, ofBigEndian_cons, ih, length_bigEndian, Nat.mod_pow_succ,
      UInt8.toNat_ofNat']
    ring

theorem ofBigEndian_append (l l' : Bytes) :
    ofBigEndian (l ++ l') = ofBigEndian l * 256 ^ l'.length + ofBigEndian l' := by
  induction l with
  | nil => simp [ofBigEndian]
  | cons b l ih =>
    rw [List.cons_append, ofBigEndian_cons, ofBigEndian_cons, ih, List.length_append]
    ring

theorem ofBigEndian_lt (l : Bytes) : ofBigEndian l < 256 ^ l.length := by
  induction l with
  | nil => decide
  | cons b l ih =>
    have hb : b.toNat + 1 ≤ 256 := b.toNat_lt
    calc ofBigEndian (b :: l) = b.toNat * 256 ^ l.length + ofBigEndian l := ofBigEndian_cons b l
      _ < b.toNat * 256 ^ l.length + 256 ^ l.length := by omega
      _ = (b.toNat + 1) * 256 ^ l.length := by ring
      _ ≤ 256 * 256 ^ l.length := Nat.mul_le_mul_right _ hb
      _ = 256 ^ (b :: l).length := by rw [List.length_cons]; ring

theorem ofBigEndian_zeros (n : Nat) : ofBigEndian (List.replicate n 0) = 0 := by
  induction n with
  | zero => rfl
  | succ n ih =>
    rw [List.replicate_succ, ofBigEndian_cons, ih]
    simp

/-- Leading zeros do not count. -/
theorem ofBigEndian_zeros_append (n : Nat) (l : Bytes) :
    ofBigEndian (List.replicate n 0 ++ l) = ofBigEndian l := by
  rw [ofBigEndian_append, ofBigEndian_zeros]
  simp

theorem ofBigEndian_dropWhile (l : Bytes) : ofBigEndian (l.dropWhile (· == 0)) = ofBigEndian l := by
  induction l with
  | nil => rfl
  | cons b l ih =>
    by_cases hb : b = 0
    · subst hb
      rw [List.dropWhile_cons_of_pos (by rfl), ih, ofBigEndian_cons]
      simp
    · rw [List.dropWhile_cons_of_neg (by simpa using hb)]

/-- The bytes of a number are those of its length. -/
theorem bigEndian_ofBigEndian (l : Bytes) : bigEndian l.length (ofBigEndian l) = l := by
  induction l with
  | nil => rfl
  | cons b l ih =>
    have hlt := ofBigEndian_lt l
    have hmod : ∀ n, bigEndian l.length (n * 256 ^ l.length + ofBigEndian l) =
        bigEndian l.length (ofBigEndian l) := by
      intro n
      refine List.map_congr_left fun i hi => ?_
      have hi : i < l.length := List.mem_range.mp hi
      have hpow : 256 ^ l.length = 256 ^ (i + 1) * 256 ^ (l.length - 1 - i) := by
        rw [← Nat.pow_add]
        congr 1
        omega
      apply UInt8.toNat_inj.mp
      have hpos : 0 < 256 ^ (l.length - 1 - i) := Nat.pow_pos (by decide)
      rw [UInt8.toNat_ofNat', UInt8.toNat_ofNat', hpow, ← Nat.mul_assoc,
        Nat.mul_comm _ (256 ^ (_ - _)),
        Nat.mul_add_div hpos, Nat.pow_succ, ← Nat.mul_assoc, Nat.mul_add_mod_self_right]
    rw [List.length_cons, bigEndian_succ, ofBigEndian_cons, hmod, ih]
    congr 1
    rw [Nat.mul_comm, Nat.mul_add_div (Nat.pow_pos (by decide)), Nat.div_eq_of_lt hlt]
    simp

end CfxEvm
