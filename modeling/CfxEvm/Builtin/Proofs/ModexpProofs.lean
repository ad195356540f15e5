import CfxEvm.Builtin.Modexp
import CfxEvm.Lib.Exponent
import CfxEvm.Types.Proofs.WordProofs
import Mathlib.Data.ZMod.Basic
import Mathlib.Tactic.IntervalCases

/-!
# Proofs: modular exponentiation

The implementation of the builtin contract squares and multiplies over the bits of the exponent, the
highest one first, so the result is a power of the base. It is read from the input and written to
the output as EIP-198 says, and the price is the one that EIP-198 gives, for the same lengths and
the same exponent.
-/

open Lib

namespace CfxEvm

/-! ## The loops -/

section
variable {base modulus : Nat}

/-- The mask before the last `k` bits. -/
def bitMask (k : Nat) : UInt8 := UInt8.ofNat (2 ^ k / 2)

theorem bitMask_shift {k : Nat} (hk : k < 8) : bitMask (k + 1) >>> 1 = bitMask k := by
  interval_cases k <;> decide

theorem and_bitMask {k : Nat} (hk : k < 8) (digit : UInt8) :
    digit &&& bitMask (k + 1) > 0 ↔ digit.toNat.testBit k = true := by
  have hmask : (bitMask (k + 1)).toNat = 2 ^ k := by interval_cases k <;> decide
  rw [gt_iff_lt, UInt8.lt_iff_toNat_lt, UInt8.toNat_and, hmask, Nat.and_two_pow]
  cases digit.toNat.testBit k with
  | false => simp
  | true => simp

/-- One bit, up to multiples of the modulus. -/
theorem cast_modexp_bit {k : Nat} (hk : k < 8) (digit : UInt8) (result : Nat) :
    ((modexp_bit base modulus digit (result, bitMask (k + 1))).1 : ZMod modulus) =
      squareMultiply (base : ZMod modulus) (result : ZMod modulus) (digit.toNat.testBit k) := by
  unfold modexp_bit squareMultiply
  simp only [and_bitMask hk]
  split
  · simp
  · simp

/-- The bits of one digit. -/
theorem cast_modexp_bits (digit : UInt8) {k : Nat} (hk : k ≤ 8) (result : Nat) :
    (((modexp_bit base modulus digit)^[k] (result, bitMask k)).1 : ZMod modulus) =
      (lowBits digit.toNat k).foldl (squareMultiply (base : ZMod modulus))
      (result : ZMod modulus) := by
  induction k generalizing result with
  | zero => rfl
  | succ k ih =>
    have hk : k < 8 := hk
    have hmask : (modexp_bit base modulus digit (result, bitMask (k + 1))).2 = bitMask k :=
      bitMask_shift hk
    rw [Function.iterate_succ_apply, lowBits, List.foldl_cons, ← cast_modexp_bit hk digit result,
      ← ih hk.le, ← hmask]

theorem cast_modexp_digit (result : Nat) (digit : UInt8) :
    (modexp_digit base modulus result digit : ZMod modulus) =
      (lowBits digit.toNat 8).foldl (squareMultiply (base : ZMod modulus))
      (result : ZMod modulus) := by
  have hloop : modexp_digit base modulus result digit =
      ((modexp_bit base modulus digit)^[8] (result, bitMask 8)).1 := rfl
  rw [hloop, cast_modexp_bits digit le_rfl]

/-- The digits of the exponent are bits that come after those of the digits before. -/
theorem cast_modexp_digits (exp : Bytes) (n result : Nat)
    (hresult : (result : ZMod modulus) = (base : ZMod modulus) ^ n) :
    ((exp.foldl (modexp_digit base modulus) result : Nat) : ZMod modulus) =
      (base : ZMod modulus) ^ (n * 256 ^ exp.length + ofBigEndian exp) := by
  induction exp generalizing n result with
  | nil => simpa [ofBigEndian] using hresult
  | cons digit exp ih =>
    have hdigit : (modexp_digit base modulus result digit : ZMod modulus) =
        (base : ZMod modulus) ^ (n * 256 + digit.toNat) := by
      have hlt : digit.toNat < 2 ^ 8 := digit.toNat_lt
      rw [cast_modexp_digit, hresult, foldl_squareMultiply, pushBits_lowBits, Nat.mod_eq_of_lt hlt]
      rfl
    rw [List.foldl_cons, ih _ _ hdigit, ofBigEndian_cons, List.length_cons]
    congr 1
    ring

theorem modexp_bit_lt (hmodulus : 0 < modulus) (digit : UInt8) (s : Nat × UInt8) :
    (modexp_bit base modulus digit s).1 < modulus := by
  unfold modexp_bit
  dsimp only
  split
  · exact Nat.mod_lt _ hmodulus
  · exact Nat.mod_lt _ hmodulus

theorem modexp_digit_lt (hmodulus : 0 < modulus) (result : Nat) (digit : UInt8) :
    modexp_digit base modulus result digit < modulus :=
  modexp_bit_lt hmodulus digit _

theorem modexp_digits_lt (hmodulus : 1 < modulus) (exp : Bytes) (result : Nat)
    (hresult : result < modulus) : exp.foldl (modexp_digit base modulus) result < modulus := by
  induction exp generalizing result with
  | nil => exact hresult
  | cons digit exp ih => exact ih _ (modexp_digit_lt (by omega) result digit)

/-- The loops compute the power modulo the modulus. -/
theorem modexp_digits_eq (hmodulus : 1 < modulus) (exp : Bytes) :
    exp.foldl (modexp_digit base modulus) 1 = base ^ ofBigEndian exp % modulus := by
  have hcast : ((exp.foldl (modexp_digit base modulus) 1 : Nat) : ZMod modulus) =
      (base : ZMod modulus) ^ (0 * 256 ^ exp.length + ofBigEndian exp) :=
    cast_modexp_digits exp 0 1 (by simp)
  rw [Nat.zero_mul, Nat.zero_add, ← Nat.cast_pow, ZMod.natCast_eq_natCast_iff'] at hcast
  rwa [Nat.mod_eq_of_lt (modexp_digits_lt hmodulus exp 1 hmodulus)] at hcast

/-- The exponent is zero just when nothing is left of it without its leading zeros. -/
theorem ofBigEndian_eq_zero_iff {exp : Bytes} :
    ofBigEndian exp = 0 ↔ (exp.dropWhile (· == 0)).isEmpty = true := by
  rw [← ofBigEndian_dropWhile, List.isEmpty_iff]
  constructor
  · intro hzero
    rcases hexp : exp.dropWhile (· == 0) with _ | ⟨b, l⟩
    · rfl
    · have hb : ¬(b == 0) = true := by
        have hne : exp.dropWhile (· == 0) ≠ [] := by rw [hexp]; exact List.cons_ne_nil b l
        have := List.head_dropWhile_not (· == 0) hne
        simp only [hexp, List.head_cons] at this
        simpa using this
      rw [hexp, ofBigEndian_cons] at hzero
      have hpos : 0 < b.toNat := Nat.pos_of_ne_zero fun h => hb (by
        rw [beq_iff_eq]
        exact UInt8.toNat_inj.mp h)
      have : 0 < b.toNat * 256 ^ l.length := Nat.mul_pos hpos (Nat.pow_pos (by decide))
      omega
  · intro hnil
    rw [hnil]
    rfl

/-- `modexp` computes the power, with the result zero for a modulus below two. -/
theorem modexp_eq (base : Nat) (exp : Bytes) (modulus : Nat) :
    modexp base exp modulus = if modulus ≤ 1 then 0 else base ^ ofBigEndian exp % modulus := by
  unfold modexp
  split
  · rfl
  rename_i hmodulus
  have hmodulus : 1 < modulus := by omega
  dsimp only
  split
  · rename_i hempty
    rw [ofBigEndian_eq_zero_iff.mpr hempty, Nat.pow_zero, Nat.mod_eq_of_lt hmodulus]
  rename_i hnonempty
  have hpos : ofBigEndian exp ≠ 0 := fun h => hnonempty (ofBigEndian_eq_zero_iff.mp h)
  split
  · rename_i hzero
    rw [hzero, Nat.zero_pow (Nat.pos_of_ne_zero hpos), Nat.zero_mod]
  split
  · rename_i hdvd
    rw [Nat.pow_mod, hdvd, Nat.zero_pow (Nat.pos_of_ne_zero hpos), Nat.zero_mod]
  · rw [modexp_digits_eq hmodulus, ofBigEndian_dropWhile, ← Nat.pow_mod]

end

/-! ## The input, extended by zeros -/

/-- So many bytes of the zero-extended input, from an offset on. -/
def zeroExtended (input : Bytes) (offset len : Nat) : Bytes :=
  (List.range len).map fun i => input.getD (offset + i) 0

/-- The word that gives a length: of the base, of the exponent and of the modulus. -/
def lengthWord (input : Bytes) (i : Nat) : Nat := ofBigEndian (zeroExtended input (32 * i) 32)

theorem length_zeroExtended (input : Bytes) (offset len : Nat) :
    (zeroExtended input offset len).length = len := by
  simp [zeroExtended]

theorem zeroExtended_take (input : Bytes) (offset : Nat) {len n : Nat} (hn : n ≤ len) :
    (zeroExtended input offset len).take n = zeroExtended input offset n := by
  unfold zeroExtended
  rw [← List.map_take, List.take_range, Nat.min_eq_left hn]

/-- What is read from the zero-extended input, and what is left then. -/
theorem read_exact_eq (input : Bytes) (offset len : Nat) :
    read_exact (input.drop offset) len =
      (zeroExtended input offset len, input.drop (offset + len)) := by
  unfold read_exact
  rw [List.drop_drop]
  congr 1
  apply List.ext_getElem?
  intro i
  rw [List.getElem?_append, List.getElem?_take, List.length_take, List.length_drop,
    List.getElem?_drop,
    List.getElem?_replicate, zeroExtended, List.getElem?_map]
  by_cases hi : i < len
  · rw [List.getElem?_range hi, Option.map_some, List.getD_eq_getElem?_getD, if_pos hi]
    by_cases hin : offset + i < input.length
    · rw [if_pos (by omega), List.getElem?_eq_getElem hin, Option.getD_some]
    · rw [if_neg (by omega), if_pos (by omega), List.getElem?_eq_none (by omega), Option.getD_none]
  · have hout : (List.range len)[i]? = none :=
      List.getElem?_eq_none (by rw [List.length_range]; omega)
    rw [hout, Option.map_none, if_neg (by omega), if_neg (by omega)]

theorem read_exact_front (input : Bytes) (len : Nat) :
    read_exact input len = (zeroExtended input 0 len, input.drop len) := by
  have hread := read_exact_eq input 0 len
  rwa [List.drop_zero, Nat.zero_add] at hread

theorem lengthWord_lt (input : Bytes) (i : Nat) : lengthWord input i < 2 ^ 256 := by
  have hlt := ofBigEndian_lt (zeroExtended input (32 * i) 32)
  rw [length_zeroExtended] at hlt
  exact hlt

/-- The lowest eight bytes of a word give its value modulo `2 ^ 64`. -/
theorem ofBigEndian_drop {bytes : Bytes} (hlen : bytes.length = 32) :
    ofBigEndian (bytes.drop 24) = ofBigEndian bytes % 2 ^ 64 := by
  have hlow : (bytes.drop 24).length = 8 := by rw [List.length_drop, hlen]
  have hlt := ofBigEndian_lt (bytes.drop 24)
  have hsplit := ofBigEndian_append (bytes.take 24) (bytes.drop 24)
  rw [List.take_append_drop, hlow] at hsplit
  rw [hlow] at hlt
  rw [hsplit]
  omega

/-- The implementation takes the lengths from the lowest eight bytes of the words. -/
theorem impl_read_lens_eq (input : Bytes) :
    ModexpImpl.read_lens input = ((lengthWord input 0 % 2 ^ 64, lengthWord input 1 % 2 ^ 64,
      lengthWord input 2 % 2 ^ 64), input.drop 96) := by
  unfold ModexpImpl.read_lens ModexpImpl.read_len
  simp only [read_exact_front input 32, read_exact_eq, ofBigEndian_drop (length_zeroExtended ..)]
  rfl

theorem pricer_read_lens_eq (input : Bytes) :
    ModexpPricer.read_lens input = (BitVec.ofNat 256 (lengthWord input 0),
      BitVec.ofNat 256 (lengthWord input 1), BitVec.ofNat 256 (lengthWord input 2)) := by
  unfold ModexpPricer.read_lens
  simp only [read_exact_front input 32, read_exact_eq]
  rfl

theorem read_nums_eq (input : Bytes) (base_len exp_len mod_len : Nat) :
    ModexpImpl.read_nums (input.drop 96) base_len exp_len mod_len =
      (ofBigEndian (zeroExtended input 96 base_len), zeroExtended input (96 + base_len) exp_len,
        ofBigEndian (zeroExtended input (96 + base_len + exp_len) mod_len)) := by
  unfold ModexpImpl.read_nums ModexpImpl.read_num
  simp only [read_exact_eq]

/-! ## The result -/

/-- What is documented of the two crates. -/
structure ByteLibrary.Documented (lib : ByteLibrary) : Prop where
  value : ∀ n, ofBigEndian (lib.to_bytes_be n) = n
  no_leading_zero : ∀ n, n ≠ 0 → (lib.to_bytes_be n).head? ≠ some 0
  zero : lib.to_bytes_be 0 = [0]
  /-- Writing past the end of a flexible buffer fills the gap with zeros. -/
  write_empty : ∀ offset bytes, lib.write [] offset bytes = List.replicate offset 0 ++ bytes

/-- A number that fits takes no more bytes than that, unless it is zero. -/
theorem ByteLibrary.Documented.length_le {lib : ByteLibrary} (hlib : lib.Documented) {n len : Nat}
    (hlen : 0 < len) (hn : n < 256 ^ len) : (lib.to_bytes_be n).length ≤ len := by
  by_cases hzero : n = 0
  · rw [hzero, hlib.zero]
    exact hlen
  rcases hbytes : lib.to_bytes_be n with _ | ⟨b, l⟩
  · exact Nat.zero_le len
  have hb : b ≠ 0 := by
    have := hlib.no_leading_zero n hzero
    rw [hbytes, List.head?_cons] at this
    exact fun h => this (congrArg some h)
  have hpos : 0 < b.toNat := Nat.pos_of_ne_zero fun h => hb (UInt8.toNat_inj.mp h)
  have hvalue := hlib.value n
  rw [hbytes, ofBigEndian_cons] at hvalue
  have hpow : 256 ^ l.length < 256 ^ len := by
    have : 1 * 256 ^ l.length ≤ b.toNat * 256 ^ l.length := Nat.mul_le_mul_right _ hpos
    omega
  exact (Nat.pow_lt_pow_iff_right (by decide)).mp hpow

/-- The value that EIP-198 gives to the input. -/
def modexpValue (input : Bytes) : Nat :=
  let base_len := lengthWord input 0
  let exp_len := lengthWord input 1
  let mod_len := lengthWord input 2
  let base := ofBigEndian (zeroExtended input 96 base_len)
  let exponent := ofBigEndian (zeroExtended input (96 + base_len) exp_len)
  let modulus := ofBigEndian (zeroExtended input (96 + base_len + exp_len) mod_len)
  if modulus ≤ 1 then 0 else base ^ exponent % modulus

theorem modexpValue_lt (input : Bytes) : modexpValue input < 256 ^ lengthWord input 2 := by
  have hlt := ofBigEndian_lt
    (zeroExtended input (96 + lengthWord input 0 + lengthWord input 1) (lengthWord input 2))
  rw [length_zeroExtended] at hlt
  unfold modexpValue
  dsimp only
  split
  · exact Nat.pow_pos (by decide)
  · exact (Nat.mod_lt _ (by omega)).trans hlt

/-- Without a base and a modulus there is nothing to compute. -/
theorem modexpValue_empty {input : Bytes} (hmod : lengthWord input 2 = 0) :
    modexpValue input = 0 := by
  have hlt := modexpValue_lt input
  rw [hmod] at hlt
  exact Nat.lt_one_iff.mp hlt

theorem execute_eq {input : Bytes} (hbase : lengthWord input 0 < 2 ^ 31)
    (hexp : lengthWord input 1 < 2 ^ 31) (hmod : lengthWord input 2 < 2 ^ 31) (lib : ByteLibrary)
    (output : Bytes) :
    ModexpImpl.execute lib input output =
      if (lib.to_bytes_be (modexpValue input)).length ≤ lengthWord input 2 then
        lib.write output (lengthWord input 2 - (lib.to_bytes_be (modexpValue input)).length)
          (lib.to_bytes_be (modexpValue input))
      else output := by
  unfold ModexpImpl.execute
  rw [impl_read_lens_eq, Nat.mod_eq_of_lt (by omega), Nat.mod_eq_of_lt (by omega),
    Nat.mod_eq_of_lt (by omega)]
  dsimp only
  rw [read_nums_eq]
  dsimp only
  rw [modexp_eq]
  split
  · rename_i hempty
    rw [modexpValue_empty hempty.2]
  · rfl

/-- For lengths below `2 ^ 31`, the builtin contract writes as many bytes as the modulus has, with
    the value of the power, and nothing if the modulus has no bytes. -/
theorem modexp_writes_the_power (lib : ByteLibrary) (hlib : lib.Documented) (input : Bytes)
    (hbase : lengthWord input 0 < 2 ^ 31) (hexp : lengthWord input 1 < 2 ^ 31)
    (hmod : lengthWord input 2 < 2 ^ 31) :
    (ModexpImpl.execute lib input []).length = lengthWord input 2 ∧
      ofBigEndian (ModexpImpl.execute lib input []) = modexpValue input ∧
      (lengthWord input 2 = 0 → ∀ output, ModexpImpl.execute lib input output = output) := by
  have hrun := execute_eq hbase hexp hmod lib
  by_cases hzero : lengthWord input 2 = 0
  · have hbytes : ¬(lib.to_bytes_be (modexpValue input)).length ≤ lengthWord input 2 := by
      rw [modexpValue_empty hzero, hlib.zero, hzero]
      decide
    have hsame : ∀ output, ModexpImpl.execute lib input output = output := by
      intro output
      rw [hrun, if_neg hbytes]
    refine ⟨?_, ?_, fun _ => hsame⟩
    · rw [hsame, hzero]
      rfl
    · rw [hsame, modexpValue_empty hzero]
      rfl
  · have hle := hlib.length_le (Nat.pos_of_ne_zero hzero) (modexpValue_lt input)
    rw [hrun, if_pos hle, hlib.write_empty]
    refine ⟨?_, ?_, fun h => absurd h hzero⟩
    · rw [List.length_append, List.length_replicate]
      omega
    · rw [ofBigEndian_zeros_append, hlib.value]

/-- The two crates, on a flexible buffer. -/
def flexibleBytes : ByteLibrary where
  to_bytes_be n := bigEndian (Nat.log2 n / 8 + 1) n
  write buffer offset bytes :=
    buffer.take offset ++ List.replicate (offset - buffer.length) 0 ++ bytes

theorem flexibleBytes_documented : flexibleBytes.Documented where
  value n := by
    have hlt : n < 256 ^ (Nat.log2 n / 8 + 1) := by
      have hpow : 256 ^ (Nat.log2 n / 8 + 1) = 2 ^ (8 * (Nat.log2 n / 8 + 1)) := by
        rw [Nat.pow_mul]
      rw [hpow]
      exact Nat.lt_log2_self.trans_le (Nat.pow_le_pow_right (by decide) (by omega))
    show ofBigEndian (bigEndian _ n) = n
    rw [ofBigEndian_bigEndian, Nat.mod_eq_of_lt hlt]
  no_leading_zero n hn := by
    show (bigEndian (Nat.log2 n / 8 + 1) n).head? ≠ some 0
    rw [bigEndian_succ, List.head?_cons]
    intro hzero
    have hpow : 256 ^ (Nat.log2 n / 8) = 2 ^ (8 * (Nat.log2 n / 8)) := by rw [Nat.pow_mul]
    have hle : 256 ^ (Nat.log2 n / 8) ≤ n := by
      rw [hpow]
      exact (Nat.pow_le_pow_right (by decide) (by omega)).trans (Nat.log2_self_le hn)
    have hlt : n / 256 ^ (Nat.log2 n / 8) < 256 := by
      rw [Nat.div_lt_iff_lt_mul (Nat.pow_pos (by decide)), hpow, show 256 = 2 ^ 8 from rfl,
        ← Nat.pow_add]
      exact Nat.lt_log2_self.trans_le (Nat.pow_le_pow_right (by decide) (by omega))
    have hpos : 0 < n / 256 ^ (Nat.log2 n / 8) := Nat.div_pos hle (Nat.pow_pos (by decide))
    have hmod := congrArg UInt8.toNat (Option.some.inj hzero)
    rw [UInt8.toNat_ofNat', Nat.mod_eq_of_lt hlt] at hmod
    exact absurd hmod (Nat.ne_of_gt hpos)
  zero := rfl
  write_empty offset bytes := by simp [flexibleBytes]

/-- Three to the fifth, modulo seven, with one byte for each. -/
def modexpInput : Bytes := bigEndian 32 1 ++ bigEndian 32 1 ++ bigEndian 32 1 ++ [3, 5, 7]

theorem modexp_input_is_computed : ModexpImpl.execute flexibleBytes modexpInput [] = [5] := by
  have hrun := modexp_writes_the_power flexibleBytes flexibleBytes_documented modexpInput
    (by decide +kernel) (by decide +kernel) (by decide +kernel)
  have hlen : lengthWord modexpInput 2 = 1 := by decide +kernel
  have hvalue : modexpValue modexpInput = 5 := by decide +kernel
  have hbytes := bigEndian_ofBigEndian (ModexpImpl.execute flexibleBytes modexpInput [])
  rw [hrun.1, hrun.2.1, hlen, hvalue] at hbytes
  exact hbytes.symm

/-! ## The price of EIP-198 -/

namespace Eip198

/-- How much a multiplication of numbers of so many bytes takes. -/
def mult_complexity (x : Int) : Int :=
  if x ≤ 64 then x * x
  else if x ≤ 1024 then x * x / 4 + 96 * x - 3072
  else x * x / 16 + 480 * x - 199680

/-- The length of the exponent in bits, as far as it counts, from its first 32 bytes. -/
def adjusted_exp_len (exp_len head : Nat) : Int :=
  let index : Int := if head = 0 then 0 else Nat.log2 head
  if exp_len ≤ 32 then index else 8 * (exp_len - 32) + index

/-- The exponent's first 32 bytes, or the whole exponent if it is shorter. -/
def exponentHead (input : Bytes) : Nat :=
  ofBigEndian (zeroExtended input (96 + lengthWord input 0) (min (lengthWord input 1) 32))

/-- The price before it is divided. -/
def complexity (input : Bytes) : Int :=
  mult_complexity (max (lengthWord input 2) (lengthWord input 0)) *
    max (adjusted_exp_len (lengthWord input 1) (exponentHead input)) 1

end Eip198

theorem mult_complexity_eq {x : Nat} (hx : x < 2 ^ 31) :
    ∃ gas, ModexpPricer.mult_complexity x = .ok gas ∧ (gas : Int) = Eip198.mult_complexity x := by
  have hsquare : x * x < 2 ^ 62 := by
    calc x * x ≤ 2 ^ 31 * x := Nat.mul_le_mul_right x hx.le
      _ < 2 ^ 31 * 2 ^ 31 := Nat.mul_lt_mul_of_pos_left hx (by decide)
      _ = 2 ^ 62 := rfl
  have hmul : U64.mul x x = .ok (x * x) := if_pos (hsquare.trans (by decide))
  unfold ModexpPricer.mult_complexity Eip198.mult_complexity
  by_cases hsmall : x ≤ 64
  · have hsmall' : (x : Int) ≤ 64 := by omega
    rw [if_pos hsmall, if_pos hsmall']
    exact ⟨x * x, hmul, by push_cast; rfl⟩
  have hsmall' : ¬(x : Int) ≤ 64 := by omega
  rw [if_neg hsmall, if_neg hsmall']
  by_cases hmiddle : x ≤ 1024
  · have hmiddle' : (x : Int) ≤ 1024 := by omega
    rw [if_pos hmiddle, if_pos hmiddle', hmul]
    have hlinear : U64.mul 96 x = .ok (96 * x) := if_pos (by omega)
    have hsum : U64.add (x * x / 4) (96 * x) = .ok (x * x / 4 + 96 * x) := if_pos (by omega)
    have hsub : U64.sub (x * x / 4 + 96 * x) 3072 = .ok (x * x / 4 + 96 * x - 3072) :=
      if_pos (by omega)
    refine ⟨x * x / 4 + 96 * x - 3072, ?_, ?_⟩
    · simp only [hlinear, Except.bind, bind, hsum, hsub]
    · omega
  · have hmiddle' : ¬(x : Int) ≤ 1024 := by omega
    rw [if_neg hmiddle, if_neg hmiddle', hmul]
    have hbig : 1024 * 1024 ≤ x * x := Nat.mul_le_mul (by omega) (by omega)
    have hlinear : U64.mul 480 x = .ok (480 * x) := if_pos (by omega)
    have hsum : U64.add (x * x / 16) (480 * x) = .ok (x * x / 16 + 480 * x) := if_pos (by omega)
    have hsub : U64.sub (x * x / 16 + 480 * x) 199680 = .ok (x * x / 16 + 480 * x - 199680) :=
      if_pos (by omega)
    refine ⟨x * x / 16 + 480 * x - 199680, ?_, ?_⟩
    · simp only [hlinear, Except.bind, bind, hsum, hsub]
    · omega

theorem adjusted_exp_len_eq {exp_len : Nat} (hlen : exp_len < 2 ^ 31) (head : U256) :
    ∃ len, ModexpPricer.adjusted_exp_len exp_len head = .ok len ∧
      (len : Int) = Eip198.adjusted_exp_len exp_len head.toNat := by
  have hindex : ∃ index, (if head.is_zero then 0 else 255 - (256 - U256.bits head)) = index ∧
      index < 256 ∧ (index : Int) = if head.toNat = 0 then 0 else (Nat.log2 head.toNat : Int) := by
    by_cases hzero : head.toNat = 0
    · have : head.is_zero = true := by
        unfold U256.is_zero
        exact beq_iff_eq.mpr (BitVec.eq_of_toNat_eq hzero)
      exact ⟨0, by rw [if_pos this], by decide, by rw [if_pos hzero]; rfl⟩
    · have hnot : ¬head.is_zero = true := by
        unfold U256.is_zero
        intro h
        exact hzero (congrArg BitVec.toNat (beq_iff_eq.mp h))
      have hbits : U256.bits head = Nat.log2 head.toNat + 1 := if_neg hzero
      have hle := U256.bits_le head
      refine ⟨Nat.log2 head.toNat, ?_, by omega, by rw [if_neg hzero]⟩
      rw [if_neg hnot]
      omega
  obtain ⟨index, hcode, hlt, hspec⟩ := hindex
  unfold ModexpPricer.adjusted_exp_len Eip198.adjusted_exp_len
  rw [hcode]
  dsimp only
  rw [← hspec]
  by_cases hshort : exp_len ≤ 32
  · rw [if_pos hshort, if_pos hshort]
    exact ⟨index, rfl, rfl⟩
  · rw [if_neg hshort, if_neg hshort]
    have hsub : U64.sub exp_len 32 = .ok (exp_len - 32) := if_pos (by omega)
    have hmul : U64.mul 8 (exp_len - 32) = .ok (8 * (exp_len - 32)) := if_pos (by omega)
    have hadd : U64.add (8 * (exp_len - 32)) index = .ok (8 * (exp_len - 32) + index) :=
      if_pos (by omega)
    refine ⟨8 * (exp_len - 32) + index, ?_, by omega⟩
    simp only [hsub, bind, Except.bind, hmul, hadd]

/-- The pricer's head of the exponent, also where the exponent starts past the end of the input. -/
theorem exp_low_eq {input : Bytes} (hbase : lengthWord input 0 < 2 ^ 31) :
    ∃ head : U256, ModexpPricer.exp_low input (lengthWord input 0) (lengthWord input 1) = .ok head ∧
      head.toNat = Eip198.exponentHead input := by
  have hadd : U64.add (lengthWord input 0) 96 = .ok (lengthWord input 0 + 96) := if_pos (by omega)
  unfold ModexpPricer.exp_low
  simp only [hadd, bind, Except.bind]
  by_cases hout : lengthWord input 0 + 96 ≥ input.length
  · have hzeros : zeroExtended input (96 + lengthWord input 0) (min (lengthWord input 1) 32) =
        List.replicate (min (lengthWord input 1) 32) 0 := by
      apply List.eq_replicate_iff.mpr
      refine ⟨length_zeroExtended .., fun b hb => ?_⟩
      obtain ⟨i, -, rfl⟩ := List.mem_map.mp hb
      rw [List.getD_eq_getElem?_getD, List.getElem?_eq_none (by omega), Option.getD_none]
    rw [if_pos hout]
    refine ⟨0, rfl, ?_⟩
    rw [Eip198.exponentHead, hzeros, ofBigEndian_zeros]
    rfl
  · rw [if_neg hout, if_neg (by omega)]
    refine ⟨_, rfl, ?_⟩
    have hlt := ofBigEndian_lt
      (zeroExtended input (96 + lengthWord input 0) (min (lengthWord input 1) 32))
    rw [length_zeroExtended] at hlt
    have hfits : 256 ^ min (lengthWord input 1) 32 ≤ 2 ^ 256 :=
      (Nat.pow_le_pow_right (by decide) (Nat.min_le_right _ 32)).trans_eq rfl
    rw [read_exact_eq, U256.from_big_endian, ofBigEndian_zeros_append, BitVec.toNat_ofNat,
      Nat.mod_eq_of_lt (hlt.trans_le hfits)]
    rfl

/-- The price of EIP-198, with the largest word for a length that is too large and for a product
    that does not fit 64 bits. -/
def Eip198.price (input : Bytes) : Nat :=
  if lengthWord input 0 = 0 ∧ lengthWord input 2 = 0 then 0
  else if 2 ^ 31 - 1 < lengthWord input 0 ∨ 2 ^ 31 - 1 < lengthWord input 2 ∨
      2 ^ 31 - 1 < lengthWord input 1 then 2 ^ 256 - 1
  else if 2 ^ 64 ≤ Eip198.complexity input then 2 ^ 256 - 1
  else (Eip198.complexity input / 20).toNat

theorem toNat_lengthWord (input : Bytes) (i : Nat) :
    (BitVec.ofNat 256 (lengthWord input i)).toNat = lengthWord input i := by
  rw [BitVec.toNat_ofNat, Nat.mod_eq_of_lt (lengthWord_lt input i)]

theorem is_zero_lengthWord (input : Bytes) (i : Nat) :
    U256.is_zero (BitVec.ofNat 256 (lengthWord input i)) = true ↔ lengthWord input i = 0 := by
  unfold U256.is_zero
  rw [beq_iff_eq]
  constructor
  · intro h
    have := congrArg BitVec.toNat h
    rwa [toNat_lengthWord] at this
  · intro h
    rw [h]
    rfl

theorem low_u64_lengthWord {input : Bytes} {i : Nat} (hlen : lengthWord input i < 2 ^ 31) :
    U256.low_u64 (BitVec.ofNat 256 (lengthWord input i)) = lengthWord input i := by
  unfold U256.low_u64
  rw [toNat_lengthWord, Nat.mod_eq_of_lt (by omega)]

/-- The price where all lengths are small enough. -/
theorem cost_of_lengths {input : Bytes}
    (hsome : ¬(lengthWord input 0 = 0 ∧ lengthWord input 2 = 0))
    (hbase : lengthWord input 0 < 2 ^ 31)
    (hexp : lengthWord input 1 < 2 ^ 31) (hmod : lengthWord input 2 < 2 ^ 31) :
    ∃ price, ModexpPricer.cost ⟨20⟩ input = .ok price ∧ price.toNat = Eip198.price input := by
  obtain ⟨head, hcode, hhead⟩ := exp_low_eq hbase
  obtain ⟨len, hlen, hlen'⟩ := adjusted_exp_len_eq hexp head
  have hmax : max (lengthWord input 2) (lengthWord input 0) < 2 ^ 31 := Nat.max_lt.mpr ⟨hmod, hbase⟩
  obtain ⟨gas, hgas, hgas'⟩ := mult_complexity_eq hmax
  have hcomplexity : Eip198.complexity input = ((gas * max len 1 : Nat) : Int) := by
    unfold Eip198.complexity
    rw [← hhead, ← hlen']
    push_cast at hgas' ⊢
    rw [← hgas']
  have hnotzero : ¬(U256.is_zero (BitVec.ofNat 256 (lengthWord input 2)) &&
      U256.is_zero (BitVec.ofNat 256 (lengthWord input 0))) = true := by
    rw [Bool.and_eq_true, is_zero_lengthWord, is_zero_lengthWord]
    exact fun h => hsome ⟨h.2, h.1⟩
  have hsmall : ¬(decide (lengthWord input 0 > 0xffffffff / 2) ||
      decide (lengthWord input 2 > 0xffffffff / 2) ||
        decide (lengthWord input 1 > 0xffffffff / 2)) = true := by
    simp only [Bool.or_eq_true, decide_eq_true_eq]
    omega
  unfold ModexpPricer.cost Eip198.price
  rw [pricer_read_lens_eq, if_neg hsome, if_neg (by omega), hcomplexity]
  dsimp only
  rw [if_neg hnotzero, toNat_lengthWord, toNat_lengthWord, toNat_lengthWord, if_neg hsmall,
    low_u64_lengthWord hbase, low_u64_lengthWord hexp, low_u64_lengthWord hmod, hcode]
  simp only [bind, Except.bind, hlen, hgas]
  by_cases hover : 2 ^ 64 ≤ gas * max len 1
  · have hflag : (U64.overflowing_mul gas (max len 1)).2 = true := decide_eq_true hover
    rw [if_pos hflag, if_pos (by omega)]
    exact ⟨_, rfl, rfl⟩
  · have hflag : ¬(U64.overflowing_mul gas (max len 1)).2 = true := fun h =>
      hover (of_decide_eq_true h)
    have hproduct : (U64.overflowing_mul gas (max len 1)).1 = gas * max len 1 :=
      Nat.mod_eq_of_lt (by omega)
    rw [if_neg hflag, if_neg (by omega), hproduct]
    refine ⟨_, rfl, ?_⟩
    rw [BitVec.toNat_ofNat, Nat.mod_eq_of_lt (by omega)]
    omega

/-- The price is the one of EIP-198 for every input, and where it is not the largest word, the
    implementation reads what the price was computed from: the same lengths and the same head of the
    exponent. -/
theorem modexp_is_priced_as_specified (input : Bytes) :
    ∃ price, ModexpPricer.cost ⟨20⟩ input = .ok price ∧ price.toNat = Eip198.price input ∧
      (price.toNat < 2 ^ 256 - 1 → ¬(lengthWord input 0 = 0 ∧ lengthWord input 2 = 0) →
        ∃ base_len exp_len mod_len head : U256,
          ModexpPricer.read_lens input = (base_len, exp_len, mod_len) ∧
          (ModexpImpl.read_lens input).1 = (base_len.toNat, exp_len.toNat, mod_len.toNat) ∧
          ModexpPricer.exp_low input base_len.low_u64 exp_len.low_u64 = .ok head ∧
          ofBigEndian ((ModexpImpl.read_nums (ModexpImpl.read_lens input).2 base_len.toNat
            exp_len.toNat mod_len.toNat).2.1.take 32) = head.toNat) := by
  by_cases hnone : lengthWord input 0 = 0 ∧ lengthWord input 2 = 0
  · have hzero : (U256.is_zero (BitVec.ofNat 256 (lengthWord input 2)) &&
        U256.is_zero (BitVec.ofNat 256 (lengthWord input 0))) = true := by
      rw [Bool.and_eq_true, is_zero_lengthWord, is_zero_lengthWord]
      exact ⟨hnone.2, hnone.1⟩
    refine ⟨0, ?_, ?_, fun _ h => absurd hnone h⟩
    · unfold ModexpPricer.cost
      rw [pricer_read_lens_eq]
      dsimp only
      rw [if_pos hzero]
      rfl
    · rw [Eip198.price, if_pos hnone]
      rfl
  by_cases hlarge : 2 ^ 31 - 1 < lengthWord input 0 ∨ 2 ^ 31 - 1 < lengthWord input 2 ∨
      2 ^ 31 - 1 < lengthWord input 1
  · have hnotzero : ¬(U256.is_zero (BitVec.ofNat 256 (lengthWord input 2)) &&
        U256.is_zero (BitVec.ofNat 256 (lengthWord input 0))) = true := by
      rw [Bool.and_eq_true, is_zero_lengthWord, is_zero_lengthWord]
      exact fun h => hnone ⟨h.2, h.1⟩
    have hcheck : (decide (lengthWord input 0 > 0xffffffff / 2) ||
        decide (lengthWord input 2 > 0xffffffff / 2) ||
          decide (lengthWord input 1 > 0xffffffff / 2)) = true := by
      simp only [Bool.or_eq_true, decide_eq_true_eq]
      omega
    refine ⟨BitVec.allOnes 256, ?_, ?_, fun h => absurd h (by decide)⟩
    · unfold ModexpPricer.cost
      rw [pricer_read_lens_eq]
      dsimp only
      rw [if_neg hnotzero, toNat_lengthWord, toNat_lengthWord, toNat_lengthWord, if_pos hcheck]
      rfl
    · rw [Eip198.price, if_neg hnone, if_pos hlarge]
      rfl
  have hbase : lengthWord input 0 < 2 ^ 31 := by omega
  have hexp : lengthWord input 1 < 2 ^ 31 := by omega
  have hmod : lengthWord input 2 < 2 ^ 31 := by omega
  obtain ⟨price, hcost, hprice⟩ := cost_of_lengths hnone hbase hexp hmod
  obtain ⟨head, hcode, hhead⟩ := exp_low_eq hbase
  refine ⟨price, hcost, hprice, fun _ _ => ⟨_, _, _, head, pricer_read_lens_eq input, ?_, ?_, ?_⟩⟩
  · rw [impl_read_lens_eq, toNat_lengthWord, toNat_lengthWord, toNat_lengthWord,
      Nat.mod_eq_of_lt (by omega), Nat.mod_eq_of_lt (by omega), Nat.mod_eq_of_lt (by omega)]
  · rw [low_u64_lengthWord hbase, low_u64_lengthWord hexp, hcode]
  · rw [impl_read_lens_eq, toNat_lengthWord, toNat_lengthWord, toNat_lengthWord,
      read_nums_eq, hhead]
    show ofBigEndian ((zeroExtended input _ (lengthWord input 1)).take 32) = _
    unfold Eip198.exponentHead
    by_cases hshort : lengthWord input 1 ≤ 32
    · rw [Nat.min_eq_left hshort,
        List.take_of_length_le (by rw [length_zeroExtended]; exact hshort)]
    · rw [Nat.min_eq_right (by omega), zeroExtended_take _ _ (by omega)]

end CfxEvm
