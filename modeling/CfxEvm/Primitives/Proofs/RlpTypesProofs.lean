import CfxEvm.Primitives.RlpTypes
import CfxEvm.State.Proofs.EncodingProofs

/-!
# Proofs: primitive types on the wire

What the values of the primitive types are written as, and that they are read from that and from
nothing else.
-/

open Lib
open Lib.Rlp (Item DecoderError Writes Whole bytesOf numberOf encodeData writes_data)

namespace CfxEvm

/-! ## Writing -/

theorem writes_u64 (v : UInt64) : Writes v (.data (bytesOf v.toNat)) := writes_data fun _ => rfl

theorem writes_u32 (v : UInt32) : Writes v (.data (bytesOf v.toNat)) := writes_data fun _ => rfl

theorem writes_u8 (v : UInt8) : Writes v (.data (bytesOf v.toNat)) := writes_data fun _ => rfl

theorem writes_address (a : Address) : Writes a (.data a.to_bytes) := writes_data fun _ => rfl

theorem writes_bool (v : Bool) : Writes v (.data (bytesOf (if v then (1 : UInt8) else 0).toNat)) :=
  writes_data fun _ => rfl

/-! ## Reading -/

theorem length_u64 (v : UInt64) : (bytesOf v.toNat).length ≤ 8 := Rlp.length_bytesOf_le v.toNat_lt

theorem decode_uint_eq_ok {size n : Nat} {bytes : Bytes} (h : decode_uint size bytes = .ok n) :
    bytes = bytesOf n ∧ n < 256 ^ size := by
  unfold decode_uint at h
  split at h
  · rename_i hlen
    split at h
    · cases h
    · rename_i hhead
      cases h
      refine ⟨(Rlp.bytesOf_numberOf hhead).symm, ?_⟩
      exact (Rlp.numberOf_lt bytes).trans_le (Nat.pow_le_pow_right (by decide) hlen)
  · cases h

theorem decode_uint_bytesOf {size n : Nat} (hn : n < 256 ^ size) :
    decode_uint size (bytesOf n) = .ok n := by
  unfold decode_uint
  rw [if_pos (Rlp.length_bytesOf_le hn), if_neg fun h => Rlp.head_bytesOf_ne_zero h rfl,
    Rlp.numberOf_bytesOf]

theorem decode_u64 (v : UInt64) : Rlp.Decodable.decode (Item.data (bytesOf v.toNat)) = .ok v := by
  show (decode_uint 8 (bytesOf v.toNat) >>= fun n => pure (UInt64.ofNat n)) = _
  rw [decode_uint_bytesOf v.toNat_lt]
  exact congrArg Except.ok UInt64.ofNat_toNat

theorem decode_address (a : Address) : Rlp.Decodable.decode (Item.data a.to_bytes) = .ok a := by
  have hlen : a.to_bytes.length = 20 := length_bigEndian 20 _
  have hvalue : ofBigEndian a.to_bytes = a.toNat := by
    rw [Address.to_bytes, ofBigEndian_bigEndian]
    exact Nat.mod_eq_of_lt a.isLt
  show (if a.to_bytes.length < 20 then Except.error DecoderError.RlpIsTooShort
    else if 20 < a.to_bytes.length then Except.error DecoderError.RlpIsTooBig
    else Except.ok (BitVec.ofNat 160 (ofBigEndian a.to_bytes))) = _
  rw [if_neg (by omega), if_neg (by omega), hvalue, BitVec.ofNat_toNat, BitVec.setWidth_eq]

theorem decode_u32 (v : UInt32) : Rlp.Decodable.decode (Item.data (bytesOf v.toNat)) = .ok v := by
  show (decode_uint 4 (bytesOf v.toNat) >>= fun n => pure (UInt32.ofNat n)) = _
  rw [decode_uint_bytesOf v.toNat_lt]
  exact congrArg Except.ok UInt32.ofNat_toNat

theorem decode_u8 (v : UInt8) : Rlp.Decodable.decode (Item.data (bytesOf v.toNat)) = .ok v := by
  show (decode_uint 1 (bytesOf v.toNat) >>= fun n => pure (UInt8.ofNat n)) = _
  rw [decode_uint_bytesOf v.toNat_lt]
  exact congrArg Except.ok UInt8.ofNat_toNat

theorem read_u64 (v : UInt64) : Rlp.readData ⟨Rlp.encode (.data (bytesOf v.toNat))⟩ = .ok v := by
  rw [Rlp.encode]
  exact Rlp.readData_encodeData ((length_u64 v).trans_lt (by decide)) (decode_u64 v)

theorem read_u32 (v : UInt32) : Rlp.readData ⟨Rlp.encode (.data (bytesOf v.toNat))⟩ = .ok v := by
  have hlen : (bytesOf v.toNat).length ≤ 4 := Rlp.length_bytesOf_le v.toNat_lt
  rw [Rlp.encode]
  exact Rlp.readData_encodeData (by omega) (decode_u32 v)

theorem read_u8 (v : UInt8) : Rlp.readData ⟨Rlp.encode (.data (bytesOf v.toNat))⟩ = .ok v := by
  have hlen : (bytesOf v.toNat).length ≤ 1 := Rlp.length_bytesOf_le v.toNat_lt
  rw [Rlp.encode]
  exact Rlp.readData_encodeData (by omega) (decode_u8 v)

theorem read_number (v : U256) : Rlp.readData ⟨Rlp.encode (.data (bytesOf v.toNat))⟩ = .ok v := by
  have hlen := length_bytesOf_word v
  rw [Rlp.encode]
  exact Rlp.readData_encodeData (by omega) (decode_number v)

theorem read_address (a : Address) : Rlp.readData ⟨Rlp.encode (.data a.to_bytes)⟩ = .ok a := by
  have hlen : a.to_bytes.length = 20 := length_bigEndian 20 _
  rw [Rlp.encode]
  exact Rlp.readData_encodeData (by omega) (decode_address a)

theorem read_bytes {b : Bytes} (hsize : (Rlp.encode (.data b)).length < 2 ^ 64) :
    Rlp.readData ⟨Rlp.encode (.data b)⟩ = .ok b := by
  rw [Rlp.encode] at hsize ⊢
  exact Rlp.readData_encodeData ((Rlp.length_le_encodeData b).trans_lt hsize) rfl

theorem read_bool (v : Bool) :
    Rlp.Readable.read ⟨Rlp.encode (.data (bytesOf (if v then (1 : UInt8) else 0).toNat))⟩ =
      .ok v := by
  refine bind_eq_ok.mpr ⟨_, read_u8 _, ?_⟩
  cases v <;> rfl

/-! ## Spelling -/

section
variable {α : Type} [Rlp.Decodable α]

/-- A value of a primitive type is read from the bytes it is written with, and from no others. -/
def Spelled (bytes : α → Bytes) : Prop :=
  ∀ b v, Rlp.Decodable.decode (Item.data b) = .ok v ↔ b = bytes v

theorem Spelled.readData {bytes : α → Bytes} (hspelled : Spelled bytes) {v : α}
    (hsize : (bytes v).length < 2 ^ 64) : Rlp.readData ⟨encodeData (bytes v)⟩ = .ok v := by
  unfold Rlp.readData
  rw [Rlp.decode_value_encodeData _ hsize]
  exact (hspelled _ v).mpr rfl

theorem Spelled.eq_encodeData {bytes : α → Bytes} (hspelled : Spelled bytes) {raw : Bytes} {v : α}
    (hwhole : Whole raw) (hread : Rlp.readData ⟨raw⟩ = .ok v) : raw = encodeData (bytes v) := by
  obtain ⟨b, -, hraw, hdecode⟩ := Rlp.eq_encodeData_of_decode_value hwhole hread
  rw [hraw, (hspelled b v).mp hdecode]

end

theorem spelled_u256 : Spelled fun v : U256 => bytesOf v.toNat := by
  intro b v
  constructor
  · intro h
    change (if b.head? = some 0 then Except.error DecoderError.RlpInvalidIndirection
      else if b.length ≤ 32 then Except.ok (BitVec.ofNat 256 (numberOf b))
      else Except.error DecoderError.RlpIsTooBig) = _ at h
    split at h
    · cases h
    rename_i hhead
    split at h
    · rename_i hlen
      cases h
      have hlt : numberOf b < 2 ^ 256 :=
        (Rlp.numberOf_lt b).trans_le ((Nat.pow_le_pow_right (by decide) hlen).trans_eq rfl)
      show b = bytesOf (BitVec.ofNat 256 (numberOf b)).toNat
      rw [BitVec.toNat_ofNat, Nat.mod_eq_of_lt hlt, Rlp.bytesOf_numberOf hhead]
    · cases h
  · rintro rfl
    exact decode_number v

theorem spelled_u64 : Spelled fun v : UInt64 => bytesOf v.toNat := by
  intro b v
  constructor
  · intro h
    change (decode_uint 8 b >>= fun n => pure (UInt64.ofNat n)) = _ at h
    rcases hnumber : decode_uint 8 b with e | n
    · rw [hnumber] at h
      cases h
    rw [hnumber] at h
    cases h
    obtain ⟨hb, hlt⟩ := decode_uint_eq_ok hnumber
    show b = bytesOf (UInt64.ofNat n).toNat
    rw [UInt64.toNat_ofNat_of_lt' hlt, hb]
  · rintro rfl
    exact decode_u64 v

theorem spelled_address : Spelled Address.to_bytes := by
  intro b v
  constructor
  · intro h
    change (if b.length < 20 then Except.error DecoderError.RlpIsTooShort
      else if 20 < b.length then Except.error DecoderError.RlpIsTooBig
      else Except.ok (BitVec.ofNat 160 (ofBigEndian b))) = _ at h
    split at h
    · cases h
    split at h
    · cases h
    cases h
    have hlen : b.length = 20 := by omega
    have hlt : ofBigEndian b < 2 ^ 160 := (ofBigEndian_lt b).trans_eq (by rw [hlen]; rfl)
    have hbytes := bigEndian_ofBigEndian b
    rw [hlen] at hbytes
    show b = bigEndian 20 (BitVec.ofNat 160 (ofBigEndian b)).toNat
    rw [BitVec.toNat_ofNat, Nat.mod_eq_of_lt hlt, hbytes]
  · rintro rfl
    exact decode_address v

theorem spelled_bytes : Spelled fun v : Bytes => v := by
  intro b v
  constructor
  · intro h
    cases h
    rfl
  · rintro rfl
    rfl

end CfxEvm
