import CfxEvm.Evm.Interpreter
import Mathlib.Algebra.Group.Int.Defs

/-!
# Proofs: word arithmetic is exact

The arithmetic instructions work on unsigned words with the sign split off, on shifts in the place
of divisions and on words of twice the width. Against the values of the operands, signed or not,
they compute what their names say.
-/

open Lib Lib.Prog

namespace CfxEvm

namespace Word

theorem is_zero_iff {v : U256} : v.is_zero = true ↔ v = 0 := by
  simp [U256.is_zero]

theorem set_sign_eq (value : U256) (sign : Bool) :
    set_sign value sign = if sign then -value else value := by
  unfold set_sign
  rw [BitVec.allOnes_xor, BitVec.neg_eq_not_add]
  rfl

theorem get_and_reset_sign_eq (value : U256) :
    get_and_reset_sign value = (value.abs, value.msb) := by
  unfold get_and_reset_sign
  simp only [set_sign_eq]
  rfl

theorem abs_eq_zero_iff {v : U256} : v.abs = 0 ↔ v = 0 := by
  rw [BitVec.abs_eq]
  split
  · exact BitVec.neg_eq_zero_iff
  · exact Iff.rfl

/-- The absolute value of a word is at most `2 ^ 255`, which is the one of the least word. -/
theorem toNat_abs_le (v : U256) : v.abs.toNat ≤ 2 ^ 255 := by
  have hmsb := BitVec.msb_eq_decide v
  rw [BitVec.toNat_abs]
  split
  · rename_i hneg
    rw [hneg] at hmsb
    have : 2 ^ 255 ≤ v.toNat := by simpa using hmsb.symm
    omega
  · rename_i hpos
    rw [Bool.not_eq_true] at hpos
    rw [hpos] at hmsb
    have : v.toNat < 2 ^ 255 := by simpa using hmsb.symm
    omega

/-! ## Division -/

/-- A divisor of the table is the power of two that the shift stands for. -/
theorem toNat_of_lookup {b : U256} {shift : Nat} (h : pow_shifts.lookup b = some shift) :
    b.toNat = 2 ^ shift := by
  have hall : ∀ p ∈ pow_shifts, p.1.toNat = 2 ^ p.2 := by decide
  obtain ⟨before, after, hsplit, -⟩ := List.lookup_eq_some_iff.mp h
  refine hall (b, shift) ?_
  rw [hsplit]
  simp

theorem toNat_div (a b : U256) : (div a b).toNat = a.toNat / b.toNat := by
  unfold div
  split
  · split
    · rename_i shift hlookup
      rw [BitVec.toNat_ushiftRight, Nat.shiftRight_eq_div_pow, toNat_of_lookup hlookup]
    · exact BitVec.toNat_udiv
  · rename_i hzero
    have hb : b = 0 := by simpa [is_zero_iff] using hzero
    simp [hb]

theorem sdiv_eq_sdiv (a b : U256) : sdiv a b = BitVec.sdiv a b := by
  unfold sdiv
  simp only [get_and_reset_sign_eq]
  split
  · rename_i hzero
    rw [is_zero_iff, abs_eq_zero_iff] at hzero
    simp [hzero]
  · split
    -- the divisor of the special case is above every absolute value
    · rename_i hmin
      have hle := toNat_abs_le b
      rw [hmin.2] at hle
      exact absurd hle (by decide)
    · rw [set_sign_eq, BitVec.sdiv_eq]
      cases ha : a.msb <;> cases hb : b.msb <;> simp [BitVec.abs_eq, ha, hb]

theorem smod_eq_srem (a b : U256) : smod a b = if b = 0 then 0 else BitVec.srem a b := by
  unfold smod
  simp only [get_and_reset_sign_eq]
  split
  · rename_i hzero
    rw [Bool.not_eq_true', ← Bool.not_eq_true, is_zero_iff, abs_eq_zero_iff] at hzero
    rw [if_neg hzero, set_sign_eq, BitVec.srem_eq]
    cases ha : a.msb <;> cases hb : b.msb <;> simp [BitVec.abs_eq, ha, hb]
  · rename_i hzero
    rw [Bool.not_eq_true', Bool.not_eq_false, is_zero_iff, abs_eq_zero_iff] at hzero
    rw [if_pos hzero]

/-! ## Comparison -/

theorem slt_eq (a b : U256) : slt a b = bool_to_u256 (a.toInt < b.toInt) := by
  unfold slt
  simp only [get_and_reset_sign_eq, BitVec.toNat_abs, BitVec.toInt_eq_msb_cond]
  congr 1
  have ha := a.isLt
  have hb := b.isLt
  cases a.msb <;> cases b.msb <;> simp <;> omega

theorem sgt_eq (a b : U256) : sgt a b = bool_to_u256 (b.toInt < a.toInt) := by
  unfold sgt
  simp only [get_and_reset_sign_eq, BitVec.toNat_abs, BitVec.toInt_eq_msb_cond]
  congr 1
  have ha := a.isLt
  have hb := b.isLt
  cases a.msb <;> cases b.msb <;> simp <;> omega

/-! ## Bits -/

theorem sar_eq_sshiftRight (shift value : U256) :
    sar shift value = value.sshiftRight shift.toNat := by
  apply BitVec.eq_of_getLsbD_eq
  intro i hi
  unfold sar
  rw [BitVec.getLsbD_sshiftRight]
  by_cases hshift : 256 ≤ shift.toNat
  · have hout : ¬ shift.toNat + i < 256 := by omega
    cases hmsb : value.msb <;> simp [-BitVec.reduceAllOnes, hshift, hout, hi]
  · by_cases hin : shift.toNat + i < 256
    · have hlow : i < 256 - shift.toNat := by omega
      cases hmsb : value.msb <;> simp [hshift, hin, hi, hlow]
    -- the bits that are shifted in
    · have hhigh : ¬ i < 256 - shift.toNat := by omega
      have hnone : value.getLsbD (shift.toNat + i) = false := BitVec.getLsbD_of_ge _ _ (by omega)
      cases hmsb : value.msb <;> simp [-BitVec.reduceAllOnes, hshift, hin, hi, hhigh, hnone]

theorem toInt_sar (shift value : U256) :
    (sar shift value).toInt = value.toInt / 2 ^ shift.toNat := by
  rw [sar_eq_sshiftRight, BitVec.toInt_sshiftRight, Int.shiftRight_eq_div_pow]
  norm_cast

theorem getLsbD_mask {p i : Nat} (hp : p < 256) :
    (((1 : U256) <<< p) - 1).getLsbD i = decide (i < p) := by
  have hpow : (2 : Nat) ^ p < 2 ^ 256 := Nat.pow_lt_pow_right (by decide) hp
  have hone : ((1 : U256) <<< p).toNat = 2 ^ p := by
    rw [BitVec.toNat_shiftLeft, Nat.shiftLeft_eq]
    exact (congrArg (· % 2 ^ 256) (Nat.one_mul _)).trans (Nat.mod_eq_of_lt hpow)
  have hle : (1 : U256) ≤ (1 : U256) <<< p := by
    rw [BitVec.le_def, hone]
    exact Nat.one_le_two_pow
  rw [BitVec.getLsbD, BitVec.toNat_sub_of_le hle, hone]
  exact Nat.testBit_two_pow_sub_one p i

/-- The mask leaves out the bit of the sign: it is zero when it is masked, else it is set. -/
theorem signextend_eq_signExtend {bit : U256} (number : U256) (h : bit.toNat < 32) :
    signextend bit number = (number.setWidth (8 * (bit.toNat + 1))).signExtend 256 := by
  have hwidth : 8 * (bit.toNat + 1) = bit.toNat * 8 + 7 + 1 := by omega
  have hpos : bit.toNat * 8 + 7 < 256 := by omega
  unfold signextend
  rw [hwidth]
  generalize bit.toNat * 8 + 7 = p at hpos
  have hmsb : (number.setWidth (p + 1)).msb = number.getLsbD p := by
    simp [BitVec.msb_eq_getLsbD_last]
  apply BitVec.eq_of_getLsbD_eq
  intro i hi
  rw [BitVec.getLsbD_signExtend, hmsb, BitVec.getLsbD_setWidth]
  by_cases hsign : number.getLsbD p
  · simp only [hsign, if_true, BitVec.getLsbD_or, BitVec.getLsbD_not, getLsbD_mask hpos]
    rcases Nat.lt_trichotomy i p with hlt | rfl | hgt
    · simp [hi, hlt, Nat.lt_succ_of_lt hlt]
    · simp [hi, hsign]
    · simp [hi, Nat.not_lt_of_gt hgt]
      omega
  · rw [Bool.not_eq_true] at hsign
    simp only [hsign, Bool.false_eq_true, if_false, BitVec.getLsbD_and, getLsbD_mask hpos]
    rcases Nat.lt_trichotomy i p with hlt | rfl | hgt
    · simp [hi, hlt, Nat.lt_succ_of_lt hlt]
    · simp [hsign]
    · simp [Nat.not_lt_of_gt hgt]
      omega

theorem toNat_byte (word val : U256) :
    (byte word val).toNat = (val.to_big_endian[word.toNat]?.getD 0).toNat := by
  unfold byte U256.to_big_endian bigEndian
  by_cases hword : word.toNat < 32
  · rw [if_pos hword, BitVec.toNat_and, BitVec.toNat_ushiftRight, Nat.shiftRight_eq_div_pow,
      Nat.pow_mul]
    have hmask : BitVec.toNat (0xff : U256) = 2 ^ 8 - 1 := rfl
    rw [hmask, Nat.and_two_pow_sub_one_eq_mod]
    simp [hword]
  · rw [if_neg hword]
    simp [hword]

/-! ## Twice the width -/

theorem try_from_mod {x : BitVec 512} {c : U256} (hc : c ≠ 0) :
    U256.try_from (x % c.setWidth 512) = some (BitVec.ofNat 256 (x.toNat % c.toNat)) := by
  have hpos : 0 < c.toNat := by
    rcases Nat.eq_zero_or_pos c.toNat with h | h
    · exact absurd (BitVec.eq_of_toNat_eq h) hc
    · exact h
  have hlt := Nat.mod_lt x.toNat hpos
  have hwide : (x % c.setWidth 512).toNat = x.toNat % c.toNat := by
    rw [BitVec.toNat_umod, BitVec.toNat_setWidth_of_le (by decide)]
  unfold U256.try_from
  rw [hwide, if_pos (hlt.trans c.isLt)]
  refine congrArg some (BitVec.eq_of_toNat_eq ?_)
  rw [BitVec.toNat_setWidth, hwide, BitVec.toNat_ofNat]

theorem addmod_eq (a b c : U256) : addmod a b c =
    some (if c = 0 then 0 else BitVec.ofNat 256 ((a.toNat + b.toNat) % c.toNat)) := by
  unfold addmod
  by_cases hc : c = 0
  · simp [hc, U256.is_zero]
  · have hsum : (a.setWidth 512 + b.setWidth 512).toNat = a.toNat + b.toNat := by
      have ha := a.isLt
      have hb := b.isLt
      rw [BitVec.toNat_add, BitVec.toNat_setWidth_of_le (by decide),
        BitVec.toNat_setWidth_of_le (by decide)]
      exact Nat.mod_eq_of_lt (by omega)
    have hzero : c.is_zero = false := by simpa [U256.is_zero] using hc
    simp only [hzero, Bool.not_false, if_true, if_neg hc]
    rw [try_from_mod hc, hsum]

theorem mulmod_eq (a b c : U256) : mulmod a b c =
    some (if c = 0 then 0 else BitVec.ofNat 256 (a.toNat * b.toNat % c.toNat)) := by
  unfold mulmod
  by_cases hc : c = 0
  · simp [hc, U256.is_zero]
  · have hprod : (a.setWidth 512 * b.setWidth 512).toNat = a.toNat * b.toNat := by
      have hlt : a.toNat * b.toNat < 2 ^ 256 * 2 ^ 256 := Nat.mul_lt_mul'' a.isLt b.isLt
      rw [BitVec.toNat_mul, BitVec.toNat_setWidth_of_le (by decide),
        BitVec.toNat_setWidth_of_le (by decide)]
      exact Nat.mod_eq_of_lt (by omega)
    have hzero : c.is_zero = false := by simpa [U256.is_zero] using hc
    simp only [hzero, Bool.not_false, if_true, if_neg hc]
    rw [try_from_mod hc, hprod]

theorem toNat_of_mod {n : Nat} {c : U256} (hc : c ≠ 0) :
    (BitVec.ofNat 256 (n % c.toNat)).toNat = n % c.toNat := by
  have hpos : 0 < c.toNat := Nat.pos_of_ne_zero fun h => hc (BitVec.eq_of_toNat_eq h)
  rw [BitVec.toNat_ofNat]
  exact Nat.mod_eq_of_lt ((Nat.mod_lt n hpos).trans c.isLt)

end Word

/-! ## The instructions -/

namespace Interpreter

variable [Keccak]

/-- On these operands, the first one on top, the instruction leaves one word in their place, of
    which `spec` holds. It changes nothing else and asks the host for nothing. -/
def Computes (instruction : Instruction) (operands : List U256) (spec : U256 → Prop) : Prop :=
  ∃ result, spec result ∧ ∀ (c : CostType) (g : Globals) (ctx : FrameContext)
    (params : InterpreterParams) (code : Bytes) (gas : Cost c) (provided : Option (Cost c))
    (l : Local) (h : Host State),
    (exec_instruction g ctx params code gas instruction provided).run
        ({ l with stack := operands ++ l.stack }, h) =
      .ok (.ok .Ok, { l with stack := result :: l.stack }, h)

theorem computes_binary {instruction : Instruction} {f : U256 → U256 → U256}
    (harm : ∀ (c : CostType) (g : Globals) (ctx : FrameContext) (params : InterpreterParams)
      (code : Bytes) (gas : Cost c) (provided : Option (Cost c)),
      exec_instruction g ctx params code gas instruction provided = binary f)
    {a b : U256} {spec : U256 → Prop} (hspec : spec (f a b)) :
    Computes instruction [a, b] spec := by
  refine ⟨f a b, hspec, ?_⟩
  intro c g ctx params code gas provided l h
  rw [harm]
  rfl

theorem computes_ternary {instruction : Instruction} {f : U256 → U256 → U256 → Option U256}
    (harm : ∀ (c : CostType) (g : Globals) (ctx : FrameContext) (params : InterpreterParams)
      (code : Bytes) (gas : Cost c) (provided : Option (Cost c)),
      exec_instruction g ctx params code gas instruction provided = plain do
        let a ← Local.pop_back
        let b ← Local.pop_back
        let c ← Local.pop_back
        Local.push (← Prog.expect .word_overflow (f a b c)))
    {a b m r : U256} {spec : U256 → Prop} (hf : f a b m = some r) (hspec : spec r) :
    Computes instruction [a, b, m] spec := by
  refine ⟨r, hspec, ?_⟩
  intro c g ctx params code gas provided l h
  rw [harm]
  change (plain (Prog.expect .word_overflow (f a b m) >>= Local.push)).run (l, h) = _
  rw [hf]
  rfl

/-- From the last byte on, the number is left where it is. -/
theorem computes_signextend (a b : U256) : Computes .SIGNEXTEND [a, b] (fun r =>
    if 31 ≤ a.toNat then r = b else r.toInt = (b.setWidth (8 * (a.toNat + 1))).toInt) := by
  by_cases hbit : a.toNat < 32
  · refine ⟨Word.signextend a b, ?_, ?_⟩
    · rw [Word.signextend_eq_signExtend b hbit]
      split
      · rename_i hlast
        have hwidth : 8 * (a.toNat + 1) = 256 := by omega
        rw [hwidth]
        simp
      · exact BitVec.toInt_signExtend_of_le (by omega)
    · intro c g ctx params code gas provided l h
      change (plain (Prog.when (decide (a.toNat < 32)) do
        let number ← Local.pop_back
        Local.push (Word.signextend a number))).run ({ l with stack := b :: l.stack }, h) = _
      rw [decide_eq_true hbit]
      rfl
  · refine ⟨b, ?_, ?_⟩
    · beta_reduce
      rw [if_pos (by omega)]
    · intro c g ctx params code gas provided l h
      change (plain (Prog.when (decide (a.toNat < 32)) do
        let number ← Local.pop_back
        Local.push (Word.signextend a number))).run ({ l with stack := b :: l.stack }, h) = _
      rw [decide_eq_false hbit]
      rfl

/-- The arithmetic of words. The quotients and remainders of `SDIV` and `SMOD` are rounded towards
    zero; `/` rounds the signed value of `SAR` down. -/
theorem word_arithmetic_is_exact (a b m : U256) :
    Computes .DIV [a, b] (fun r => r.toNat = a.toNat / b.toNat) ∧
    Computes .SDIV [a, b] (fun r => r = BitVec.ofInt 256 (a.toInt.tdiv b.toInt)) ∧
    Computes .SMOD [a, b] (fun r => r.toInt = if b = 0 then 0 else a.toInt.tmod b.toInt) ∧
    Computes .SLT [a, b] (fun r => r = if a.toInt < b.toInt then 1 else 0) ∧
    Computes .SGT [a, b] (fun r => r = if b.toInt < a.toInt then 1 else 0) ∧
    Computes .SAR [a, b] (fun r => r.toInt = b.toInt / 2 ^ a.toNat) ∧
    Computes .SIGNEXTEND [a, b] (fun r =>
      if 31 ≤ a.toNat then r = b else r.toInt = (b.setWidth (8 * (a.toNat + 1))).toInt) ∧
    Computes .BYTE [a, b] (fun r => r.toNat = (b.to_big_endian[a.toNat]?.getD 0).toNat) ∧
    Computes .ADDMOD [a, b, m]
      (fun r => r.toNat = if m = 0 then 0 else (a.toNat + b.toNat) % m.toNat) ∧
    Computes .MULMOD [a, b, m]
      (fun r => r.toNat = if m = 0 then 0 else a.toNat * b.toNat % m.toNat) := by
  refine ⟨?_, ?_, ?_, ?_, ?_, ?_, ?_, ?_, ?_, ?_⟩
  · exact computes_binary (fun _ _ _ _ _ _ _ => rfl) (Word.toNat_div a b)
  · refine computes_binary (fun _ _ _ _ _ _ _ => rfl) (BitVec.eq_of_toInt_eq ?_)
    rw [Word.sdiv_eq_sdiv, BitVec.toInt_sdiv, BitVec.toInt_ofInt]
  · refine computes_binary (fun _ _ _ _ _ _ _ => rfl) ?_
    rw [Word.smod_eq_srem]
    split
    · rfl
    · exact BitVec.toInt_srem a b
  · refine computes_binary (fun _ _ _ _ _ _ _ => rfl) ?_
    rw [Word.slt_eq]
    simp [Word.bool_to_u256]
  · refine computes_binary (fun _ _ _ _ _ _ _ => rfl) ?_
    rw [Word.sgt_eq]
    simp [Word.bool_to_u256]
  · exact computes_binary (fun _ _ _ _ _ _ _ => rfl) (Word.toInt_sar a b)
  · exact computes_signextend a b
  · exact computes_binary (fun _ _ _ _ _ _ _ => rfl) (Word.toNat_byte a b)
  · refine computes_ternary (fun _ _ _ _ _ _ _ => rfl) (Word.addmod_eq a b m) ?_
    split
    · rfl
    · exact Word.toNat_of_mod ‹_›
  · refine computes_ternary (fun _ _ _ _ _ _ _ => rfl) (Word.mulmod_eq a b m) ?_
    split
    · rfl
    · exact Word.toNat_of_mod ‹_›

end Interpreter

end CfxEvm
