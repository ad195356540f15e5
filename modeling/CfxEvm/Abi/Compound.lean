import CfxEvm.Abi.Abi

/-!
# Compound types of the ABI

The other types that can occur as parameters: hashes, unsigned integers and texts, vectors, arrays
and structures of such types, and lists of up to five parameters. `AbiType` has a name for each type
that can be built from them.
-/

open Lib

namespace CfxEvm

open Abi

/-! ## Words and texts -/

def H256.to_fixed_bytes (h : H256) : FixedBytes 32 := ⟨bigEndian 32 h.toNat, length_bigEndian 32 _⟩

/-- A hash is a byte array. It has the type of the numbers here, so this is no instance. -/
@[reducible]
def ABIVariable.h256 : ABIVariable H256 where
  BASIC_TYPE := ABIVariable.BASIC_TYPE (FixedBytes 32)
  STATIC_LENGTH := ABIVariable.STATIC_LENGTH (FixedBytes 32)
  from_abi data := do
    let bytes : FixedBytes 32 ← ABIVariable.from_abi data
    return BitVec.ofNat 256 (ofBigEndian bytes.1)
  to_abi h := ABIVariable.to_abi (H256.to_fixed_bytes h)
  to_packed_abi h := ABIVariable.to_packed_abi (H256.to_fixed_bytes h)

/-- An unsigned integer of so many bytes. -/
@[reducible]
def ABIVariable.primitive (bytes : Nat) : ABIVariable (BitVec (8 * bytes)) where
  BASIC_TYPE := true
  STATIC_LENGTH := some 32
  from_abi data := do
    abi_require (data.length == 32) "Invalid call data length"
    return BitVec.ofNat (8 * bytes) (ofBigEndian (data.drop (32 - bytes)))
  to_abi v := .ok (List.replicate (32 - bytes) 0 ++ bigEndian bytes v.toNat)
  to_packed_abi v := bigEndian bytes v.toNat

instance : ABIVariable String where
  BASIC_TYPE := false
  STATIC_LENGTH := none
  from_abi data := do
    let byte_array : Bytes ← ABIVariable.from_abi data
    match String.fromUTF8? ⟨byte_array.toArray⟩ with
    | some s => return s
    | none => throw "Utf8 decoding error"
  to_abi s := ABIVariable.to_abi s.toUTF8.data.toList
  to_packed_abi s := ABIVariable.to_packed_abi s.toUTF8.data.toList

/-! ## Vectors and arrays -/

/-- An array `[T; n]`. -/
def FixedArray (α : Type) (n : Nat) := { items : List α // items.length = n }

namespace Abi

variable (α : Type) [ABIVariable α]

/-- Reads so many values of a list. -/
def read_items (data : Bytes) : (n : Nat) → Bytes → Except String (FixedArray α n × Bytes)
  | 0, pointer => .ok (⟨[], rfl⟩, pointer)
  | n + 1, pointer => do
    let (item, pointer) ← read_abi_list α data pointer
    let (items, pointer) ← read_items data n pointer
    return (⟨item :: items.1, congrArg Nat.succ items.2⟩, pointer)

end Abi

section
variable {α : Type} [ABIVariable α]

/-- `Vec<T>`. -/
@[reducible]
def ABIVariable.vec : ABIVariable (List α) where
  BASIC_TYPE := false
  STATIC_LENGTH := none
  from_abi data := do
    let (head, data_without_length) ← pull_slice data 32
      "Incomplete length for dynamic input parameter"
    let expected_length := ofBigEndian head
    let (results, _) ← read_items α data_without_length expected_length data_without_length
    return results.1
  to_abi items := do
    let recorder := ABIListWriter.with_heads_length (head_length α * items.length)
    let recorder ← items.foldlM ABIListWriter.write_down recorder
    return padded_big_endian items.length ++ (← recorder.into_linked_bytes)
  to_packed_abi items := items.flatMap ABIVariable.to_packed_abi

/-- `[T; n]`. -/
@[reducible]
def ABIVariable.array (n : Nat) : ABIVariable (FixedArray α n) where
  BASIC_TYPE := false
  STATIC_LENGTH := (ABIVariable.STATIC_LENGTH α).map fun length => length * n
  from_abi data := do
    let (results, _) ← read_items α data n data
    return results
  to_abi items := do
    let recorder := ABIListWriter.with_heads_length (head_length α * n)
    let recorder ← items.1.foldlM ABIListWriter.write_down recorder
    recorder.into_linked_bytes
  to_packed_abi items := items.1.flatMap ABIVariable.to_packed_abi

end

/-! ## Structures -/

/-- The fields of a derived structure, in order. -/
class ABIFields (α : Type) where
  /-- The static length of the fields before, and of these. -/
  static_length : Option Nat → Option Nat
  heads_length : Nat
  read_fields : Bytes → Bytes → Except String (α × Bytes)
  write_fields : ABIListWriter → α → Except Panic ABIListWriter
  to_packed_abi : α → Bytes

/-- The static length with one more field. -/
def Abi.add_static_length (answer length : Option Nat) : Option Nat :=
  match answer, length with
  | some x, some y => some (x + y)
  | _, _ => none

section
variable {α β : Type} [ABIVariable α]

/-- The last field. -/
instance ABIFields.last : ABIFields α where
  static_length answer := add_static_length answer (ABIVariable.STATIC_LENGTH α)
  heads_length := head_length α
  read_fields data pointer := read_abi_list α data pointer
  write_fields recorder x := recorder.write_down x
  to_packed_abi x := ABIVariable.to_packed_abi x

/-- A field before others. -/
instance ABIFields.cons [ABIFields β] : ABIFields (α × β) where
  static_length answer :=
    ABIFields.static_length β (add_static_length answer (ABIVariable.STATIC_LENGTH α))
  heads_length := head_length α + ABIFields.heads_length β
  read_fields data pointer := do
    let (x, pointer) ← read_abi_list α data pointer
    let (rest, pointer) ← ABIFields.read_fields data pointer
    return ((x, rest), pointer)
  write_fields recorder x := do
    let recorder ← recorder.write_down x.1
    ABIFields.write_fields recorder x.2
  to_packed_abi x := ABIVariable.to_packed_abi x.1 ++ ABIFields.to_packed_abi x.2

end

/-- A structure with the given fields. -/
structure Struct (α : Type) where
  fields : α

/-- What is derived for a structure. -/
instance ABIVariable.struct {α : Type} [ABIFields α] : ABIVariable (Struct α) where
  BASIC_TYPE := false
  STATIC_LENGTH := ABIFields.static_length α (some 0)
  from_abi data := do
    let (fields, _) ← ABIFields.read_fields data data
    return ⟨fields⟩
  to_abi x := do
    let recorder := ABIListWriter.with_heads_length (ABIFields.heads_length α)
    let recorder ← ABIFields.write_fields recorder x.fields
    recorder.into_linked_bytes
  to_packed_abi x := ABIFields.to_packed_abi x.fields

/-! ## Lists of parameters -/

section
variable {α β γ δ ε : Type} [ABIVariable α] [ABIVariable β] [ABIVariable γ] [ABIVariable δ]
  [ABIVariable ε]

instance : ABIDecodable (α × β × γ) where
  abi_decode data := do
    let (a, pointer) ← read_abi_list α data data
    let (b, pointer) ← read_abi_list β data pointer
    let (c, _) ← read_abi_list γ data pointer
    return (a, b, c)

instance : ABIDecodable (α × β × γ × δ) where
  abi_decode data := do
    let (a, pointer) ← read_abi_list α data data
    let (b, pointer) ← read_abi_list β data pointer
    let (c, pointer) ← read_abi_list γ data pointer
    let (d, _) ← read_abi_list δ data pointer
    return (a, b, c, d)

instance : ABIEncodable (α × β × γ × δ) where
  abi_encode x := do
    let recorder := ABIListWriter.with_heads_length
      (head_length α + head_length β + head_length γ + head_length δ)
    let recorder ← recorder.write_down x.1
    let recorder ← recorder.write_down x.2.1
    let recorder ← recorder.write_down x.2.2.1
    let recorder ← recorder.write_down x.2.2.2
    recorder.into_linked_bytes

instance : ABIDecodable (α × β × γ × δ × ε) where
  abi_decode data := do
    let (a, pointer) ← read_abi_list α data data
    let (b, pointer) ← read_abi_list β data pointer
    let (c, pointer) ← read_abi_list γ data pointer
    let (d, pointer) ← read_abi_list δ data pointer
    let (e, _) ← read_abi_list ε data pointer
    return (a, b, c, d, e)

instance : ABIEncodable (α × β × γ × δ × ε) where
  abi_encode x := do
    let recorder := ABIListWriter.with_heads_length
      (head_length α + head_length β + head_length γ + head_length δ + head_length ε)
    let recorder ← recorder.write_down x.1
    let recorder ← recorder.write_down x.2.1
    let recorder ← recorder.write_down x.2.2.1
    let recorder ← recorder.write_down x.2.2.2.1
    let recorder ← recorder.write_down x.2.2.2.2
    recorder.into_linked_bytes

end

/-! ## All types -/

mutual

/-- The types that are built from the implementations. -/
inductive AbiType
  | address
  | u256
  | h256
  | bool
  /-- `U8`, `u16`, `u32`, `u64` and `u128`, by their bytes. -/
  | primitive (bytes : Nat) (h : bytes ∈ [1, 2, 4, 8, 16])
  | fixed_bytes (n : Nat) (h : 2 ≤ n ∧ n ≤ 32)
  | bytes
  | string
  | vec (item : AbiType)
  | array (item : AbiType) (n : Nat) (h : 1 ≤ n)
  | struct (fields : AbiFields)

/-- The fields of a structure, of which there is at least one. -/
inductive AbiFields
  | last (field : AbiType)
  | cons (field : AbiType) (rest : AbiFields)

end

mutual

/-- The values of a type. -/
def AbiType.type : AbiType → Type
  | .address => Address
  | .u256 => U256
  | .h256 => H256
  | .bool => Bool
  | .primitive bytes _ => BitVec (8 * bytes)
  | .fixed_bytes n _ => FixedBytes n
  | .bytes => Bytes
  | .string => String
  | .vec item => List item.type
  | .array item n _ => FixedArray item.type n
  | .struct fields => Struct fields.type

def AbiFields.type : AbiFields → Type
  | .last field => field.type
  | .cons field rest => field.type × rest.type

end

mutual

/-- The implementation for a type. -/
@[reducible]
def AbiType.variable : (t : AbiType) → ABIVariable t.type
  | .address => inferInstanceAs (ABIVariable Address)
  | .u256 => inferInstanceAs (ABIVariable U256)
  | .h256 => ABIVariable.h256
  | .bool => inferInstanceAs (ABIVariable Bool)
  | .primitive bytes _ => ABIVariable.primitive bytes
  | .fixed_bytes n _ => inferInstanceAs (ABIVariable (FixedBytes n))
  | .bytes => inferInstanceAs (ABIVariable Bytes)
  | .string => inferInstanceAs (ABIVariable String)
  | .vec item => @ABIVariable.vec item.type item.variable
  | .array item n _ => @ABIVariable.array item.type item.variable n
  | .struct fields => @ABIVariable.struct fields.type fields.fields

@[reducible]
def AbiFields.fields : (fields : AbiFields) → ABIFields fields.type
  | .last field => @ABIFields.last field.type field.variable
  | .cons field rest => @ABIFields.cons field.type rest.type field.variable rest.fields

end

instance (t : AbiType) : ABIVariable t.type := t.variable

end CfxEvm
