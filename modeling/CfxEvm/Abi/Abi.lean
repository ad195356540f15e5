import CfxEvm.Types.Words

/-!
# Solidity ABI

Encoding and decoding of the values that internal contracts take and return. A value with a static
length is written in place; of any other one the place holds the location of its encoding behind
all the places.
-/

open Lib

namespace CfxEvm

/-- A byte array `[u8; n]`. -/
def FixedBytes (n : Nat) := { bytes : Bytes // bytes.length = n }

/-- A type that can occur as a parameter. Errors of decoding are texts. -/
class ABIVariable (α : Type) where
  BASIC_TYPE : Bool
  STATIC_LENGTH : Option Nat
  from_abi : Bytes → Except String α
  to_abi : α → Except Panic Bytes
  to_packed_abi : α → Bytes

namespace Abi

def padded_big_endian (length : Nat) : Bytes := bigEndian 32 (length % 2 ^ 256)

def abi_require (claim : Bool) (desc : String) : Except String Unit :=
  if claim then .ok () else .error desc

/-- The first `n` bytes, and the rest. -/
def pull_slice (iter : Bytes) (n : Nat) (err_desc : String) : Except String (Bytes × Bytes) :=
  if n ≤ iter.length then .ok (iter.take n, iter.drop n) else .error err_desc

/-- Reads the next value of a list; `pointer` is what is left of the places. -/
def read_abi_list (α : Type) [ABIVariable α] (data pointer : Bytes) :
    Except String (α × Bytes) := do
  match ABIVariable.STATIC_LENGTH α with
  | some len =>
    let (res, pointer) ← pull_slice pointer len "Incomplete static input parameter"
    return (← ABIVariable.from_abi res, pointer)
  | none =>
    let (head, pointer) ← pull_slice pointer 32 "Incomplete location for dynamic input parameter"
    let location := ofBigEndian head
    abi_require (location < data.length) "Location out of bounds"
    return (← ABIVariable.from_abi (data.drop location), pointer)

structure ABIListWriter where
  heads_length : Nat
  heads : Bytes
  tails : Bytes

namespace ABIListWriter

def with_heads_length (heads_length : Nat) : ABIListWriter := ⟨heads_length, [], []⟩

def write_down {α : Type} [ABIVariable α] (w : ABIListWriter) (input : α) :
    Except Panic ABIListWriter := do
  let encoded ← ABIVariable.to_abi input
  match ABIVariable.STATIC_LENGTH α with
  | some len =>
    if encoded.length = len then return { w with heads := w.heads ++ encoded }
    else throw .abi_heads_length
  | none =>
    let location := padded_big_endian (w.tails.length + w.heads_length)
    return { w with heads := w.heads ++ location, tails := w.tails ++ encoded }

def into_linked_bytes (w : ABIListWriter) : Except Panic Bytes :=
  if w.heads.length = w.heads_length then .ok (w.heads ++ w.tails) else .error .abi_heads_length

end ABIListWriter

/-- The length of the place of a value. -/
def head_length (α : Type) [ABIVariable α] : Nat := (ABIVariable.STATIC_LENGTH α).getD 32

/-- How a value is indexed in an event. -/
def index_encode [Keccak] {α : Type} [ABIVariable α] (x : α) : Except Panic H256 := do
  if ABIVariable.BASIC_TYPE α then return U256.from_big_endian (← ABIVariable.to_abi x)
  else return keccak (ABIVariable.to_packed_abi x)

end Abi

open Abi

/-! ## Types of parameters -/

def Address.to_fixed_bytes (a : Address) : FixedBytes 20 := ⟨a.to_bytes, length_bigEndian 20 _⟩

/-- `H160(bytes)`. -/
def FixedBytes.to_address (b : FixedBytes 20) : Address := BitVec.ofNat 160 (ofBigEndian b.1)

instance : ABIVariable Address where
  BASIC_TYPE := true
  STATIC_LENGTH := some 32
  from_abi data := do
    abi_require (data.length == 32) "Invalid call data length"
    return BitVec.ofNat 160 (ofBigEndian (data.drop 12))
  to_abi a := .ok (List.replicate 12 0 ++ a.to_bytes)
  to_packed_abi a := a.to_bytes

instance : ABIVariable U256 where
  BASIC_TYPE := true
  STATIC_LENGTH := some 32
  from_abi data := do
    abi_require (data.length == 32) "Invalid call data length"
    return U256.from_big_endian data
  to_abi v := .ok v.to_big_endian
  to_packed_abi v := v.to_big_endian

instance : ABIVariable Bool where
  BASIC_TYPE := true
  STATIC_LENGTH := some 32
  from_abi data := do
    abi_require (data.length == 32) "Invalid call data length"
    return data.getLastD 0 != 0
  to_abi b := .ok (List.replicate 31 0 ++ [if b then 1 else 0])
  to_packed_abi b := [if b then 1 else 0]

instance : ABIVariable Bytes where
  BASIC_TYPE := false
  STATIC_LENGTH := none
  from_abi data := do
    let (head, data_without_length) ← pull_slice data 32 "Incomplete length for byte array"
    let expected_length := ofBigEndian head
    if data_without_length.length < expected_length then throw "Invalid length in byte array"
    else return data_without_length.take expected_length
  to_abi b := .ok (padded_big_endian b.length ++ b ++
    List.replicate (31 - (b.length + 31) % 32) 0)
  to_packed_abi b := b

instance (n : Nat) : ABIVariable (FixedBytes n) where
  BASIC_TYPE := true
  STATIC_LENGTH := some 32
  from_abi data :=
    if h : n ≤ data.length then .ok ⟨data.take n, List.length_take_of_le h⟩
    else .error "Invalid length in byte array"
  to_abi b := .ok (b.1 ++ List.replicate (32 - n) 0)
  to_packed_abi b := b.1

/-! ## Lists of parameters -/

class ABIDecodable (α : Type) where
  abi_decode : Bytes → Except String α

class ABIEncodable (α : Type) where
  abi_encode : α → Except Panic Bytes

class EventIndexEncodable (α : Type) where
  indexed_event_encode : [Keccak] → α → Except Panic (List H256)

export ABIDecodable (abi_decode)
export ABIEncodable (abi_encode)
export EventIndexEncodable (indexed_event_encode)

instance : ABIDecodable Unit := ⟨fun _ => .ok ()⟩

instance : ABIEncodable Unit := ⟨fun _ => .ok []⟩

instance : EventIndexEncodable Unit := ⟨fun _ => .ok []⟩

section
variable {α β γ : Type} [ABIVariable α] [ABIVariable β] [ABIVariable γ]

instance : ABIDecodable α := ⟨fun data => (read_abi_list α data data).map Prod.fst⟩

instance : ABIEncodable α where
  abi_encode x := do
    let recorder := ABIListWriter.with_heads_length (head_length α)
    (← recorder.write_down x).into_linked_bytes

instance : ABIDecodable (α × β) where
  abi_decode data := do
    let (a, pointer) ← read_abi_list α data data
    let (b, _) ← read_abi_list β data pointer
    return (a, b)

instance : ABIEncodable (α × β) where
  abi_encode x := do
    let recorder := ABIListWriter.with_heads_length (head_length α + head_length β)
    (← (← recorder.write_down x.1).write_down x.2).into_linked_bytes

instance : ABIEncodable (α × β × γ) where
  abi_encode x := do
    let recorder :=
      ABIListWriter.with_heads_length (head_length α + head_length β + head_length γ)
    (← (← (← recorder.write_down x.1).write_down x.2.1).write_down x.2.2).into_linked_bytes

instance : EventIndexEncodable (α × β) where
  indexed_event_encode x := do return [← index_encode x.1, ← index_encode x.2]

end

end CfxEvm
