import CfxEvm.Lib.RlpView
import CfxEvm.State.Records

/-!
# Primitive types on the wire

Numbers are written without leading zeros and read only so. Addresses and hashes take all their
bytes.
-/

open Lib
open Lib.Rlp (DecoderError View bytesOf numberOf readData)

namespace CfxEvm

/-- A number of so many bytes is read without leading zeros. -/
def decode_uint (size : Nat) (bytes : Bytes) : Except DecoderError Nat :=
  if bytes.length ≤ size then
    if bytes.head? = some 0 then .error .RlpInvalidIndirection else .ok (numberOf bytes)
  else .error .RlpIsTooBig

instance : Rlp.Encodable UInt64 where
  rlp_append v s := .ok (s.encode_value (bytesOf v.toNat))

instance : Rlp.Decodable UInt64 where
  decode rlp := rlp.decode_value fun bytes => do return UInt64.ofNat (← decode_uint 8 bytes)

instance : Rlp.Encodable UInt32 where
  rlp_append v s := .ok (s.encode_value (bytesOf v.toNat))

instance : Rlp.Decodable UInt32 where
  decode rlp := rlp.decode_value fun bytes => do return UInt32.ofNat (← decode_uint 4 bytes)

instance : Rlp.Encodable UInt8 where
  rlp_append v s := .ok (s.encode_value (bytesOf v.toNat))

instance : Rlp.Decodable UInt8 where
  decode rlp := rlp.decode_value fun bytes => do return UInt8.ofNat (← decode_uint 1 bytes)

instance : Rlp.Encodable Address where
  rlp_append v s := .ok (s.encode_value v.to_bytes)

instance : Rlp.Decodable Address where
  decode rlp := rlp.decode_value fun bytes =>
    if bytes.length < 20 then .error .RlpIsTooShort
    else if 20 < bytes.length then .error .RlpIsTooBig
    else .ok (BitVec.ofNat 160 (ofBigEndian bytes))

/-- A boolean is written as a number. -/
instance : Rlp.Encodable Bool where
  rlp_append v s := Rlp.Encodable.rlp_append (if v then (1 : UInt8) else 0) s

instance : Rlp.Readable U256 := ⟨readData⟩

instance : Rlp.Readable UInt64 := ⟨readData⟩

instance : Rlp.Readable Address := ⟨readData⟩

instance : Rlp.Readable Bytes := ⟨readData⟩

instance : Rlp.Readable UInt32 := ⟨readData⟩

instance : Rlp.Readable UInt8 := ⟨readData⟩

instance : Rlp.Readable FixedHash := ⟨readData⟩

instance : Rlp.Readable Bool where
  read rlp := do
    let as_uint : UInt8 ← rlp.as_val
    match as_uint with
    | 0 => return false
    | 1 => return true
    | _ => .error (.Custom "invalid boolean value")

end CfxEvm
