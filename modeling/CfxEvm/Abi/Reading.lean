import CfxEvm.Abi.Compound
import CfxEvm.Lib.Loop

/-!
# Decoding with its checks

What the types decode to, once more with all that can panic on the way: the slices that are taken of
the data, the conversions of words and of slices, and the count of the values of a vector. The state
is the pointer that is moved through the data.
-/

open Lib

namespace CfxEvm

/-- Where decoding can panic. -/
inductive DecodePanic
  | slice_out_of_range
  | index_out_of_range
  | slice_length
  | word_length
  | integer_overflow
  deriving DecidableEq, Repr

/-- A program that moves a pointer: its state is what the pointer has not passed yet. -/
abbrev Reading (α : Type) := Prog DecodePanic Bytes String α

/-- How a type is decoded. -/
class ABIReader (α : Type) where
  from_abi : Bytes → Except DecodePanic (Except String α)

namespace Reading

/-- Reads the data with a pointer to its first byte. -/
def of {α : Type} (data : Bytes) (x : Reading α) : Except DecodePanic (Except String α) :=
  x.value data

/-! ## Slices and words -/

/-- `data[start..stop]`. -/
def slice (data : Bytes) (start stop : Nat) : Reading Bytes := do
  Prog.assert (start ≤ stop && stop ≤ data.length) .slice_out_of_range
  return (data.take stop).drop start

/-- `data[i]`. -/
def index (data : Bytes) (i : Nat) : Reading UInt8 := Prog.expect .index_out_of_range data[i]?

/-- `from_slice`, `copy_from_slice` and `try_into`: the slice has to have the length of the
    array. -/
def try_into (bytes : Bytes) (n : Nat) : Reading (FixedBytes n) :=
  if h : bytes.length = n then pure ⟨bytes, h⟩ else Prog.abort .slice_length

/-- `try_from`: the same of a vector. -/
def try_from {α : Type} (results : List α) (n : Nat) : Reading (FixedArray α n) :=
  if h : results.length = n then pure ⟨results, h⟩ else Prog.abort .slice_length

def from_big_endian (bytes : Bytes) : Reading U256 := do
  Prog.assert (bytes.length ≤ 32) .word_length
  return U256.from_big_endian bytes

/-- `as_u64` and `as_usize`. -/
def as_usize (v : U256) : Reading Nat := do
  Prog.assert (v.toNat < 2 ^ 64) .integer_overflow
  return v.toNat

/-- What the pointer has not passed. -/
def as_slice : Reading Bytes := Prog.gets id

def abi_require (claim : Bool) (desc : String) : Reading Unit :=
  Prog.ofExcept (Abi.abi_require claim desc)

def pull_slice (n : Nat) (err_desc : String) : Reading Bytes := do
  let iter ← as_slice
  abi_require (n ≤ iter.length) err_desc
  let result ← slice iter 0 n
  let rest ← slice iter n iter.length
  Prog.update fun _ => rest
  return result

/-- What another type is decoded to. -/
def call {α : Type} (r : Except DecodePanic (Except String α)) : Reading α := do
  let r ← Prog.ofPanic r
  Prog.ofExcept r

/-! ## Lists of values -/

section
variable (α : Type) [ABIVariable α] [ABIReader α]

def read_abi_list (data : Bytes) : Reading α := do
  let res ← match ABIVariable.STATIC_LENGTH α with
    | some len => pull_slice len "Incomplete static input parameter"
    | none => do
      let location ← from_big_endian
        (← pull_slice 32 "Incomplete location for dynamic input parameter")
      abi_require (location < BitVec.ofNat 256 data.length) "Location out of bounds"
      let loc ← as_usize location
      slice data loc data.length
  call (ABIReader.from_abi res)

/-- Reads so many more values. -/
def read_times (data : Bytes) : (n : Nat) → (results : List α) → Reading (List α)
  | 0, results => pure results
  | n + 1, results => do
    let item ← read_abi_list α data
    read_times data n (results ++ [item])

end

/-- The values of a vector that have been read, and their count. -/
structure VecReading (α : Type) where
  i : U256
  results : List α

namespace VecReading

def start {α : Type} : VecReading α := ⟨0, []⟩

end VecReading

section
variable (α : Type) [ABIVariable α] [ABIReader α]

/-- One round of the loop that reads a vector. -/
def vec_round (data_without_length : Bytes) (expected_length : U256) :
    Prog DecodePanic (VecReading α × Bytes) String (Option Unit) := do
  let i ← Prog.gets fun s => s.1.i
  if i < expected_length then
    let item ← Prog.zoom Prod.snd (fun pointer s =>
      (s.1, pointer)) (read_abi_list α data_without_length)
    Prog.assert (i.toNat + 1 < 2 ^ 256) .integer_overflow
    Prog.update fun s => (⟨i + 1, s.1.results ++ [item]⟩, s.2)
    return none
  else return some ()

end

end Reading

open Reading

/-! ## Types of parameters -/

namespace ABIReader

instance : ABIReader Address where
  from_abi data := Reading.of data do
    abi_require (data.length == 32) "Invalid call data length"
    let bytes ← try_into (← slice data 12 32) 20
    return bytes.to_address

instance : ABIReader U256 where
  from_abi data := Reading.of data do
    abi_require (data.length == 32) "Invalid call data length"
    from_big_endian data

instance : ABIReader Bool where
  from_abi data := Reading.of data do
    abi_require (data.length == 32) "Invalid call data length"
    return (← index data 31) != 0

/-- An unsigned integer of so many bytes. -/
@[reducible]
def primitive (BYTES : Nat) : ABIReader (BitVec (8 * BYTES)) where
  from_abi data := Reading.of data do
    abi_require (data.length == 32) "Invalid call data length"
    let bytes ← try_into (← slice data (32 - BYTES) data.length) BYTES
    return BitVec.ofNat (8 * BYTES) (ofBigEndian bytes.1)

instance : ABIReader Bytes where
  from_abi data := Reading.of data do
    let expected_length ← from_big_endian (← pull_slice 32 "Incomplete length for byte array")
    let data_without_length ← as_slice
    if BitVec.ofNat 256 data_without_length.length < expected_length then
      Prog.fail "Invalid length in byte array"
    else
      let length ← as_usize expected_length
      slice data_without_length 0 length

instance (n : Nat) : ABIReader (FixedBytes n) where
  from_abi data := Reading.of data do
    let data_without_length ← as_slice
    if data_without_length.length < n then Prog.fail "Invalid length in byte array"
    else try_into (← slice data_without_length 0 n) n

/-- A hash is a byte array. -/
@[reducible]
def h256 : ABIReader H256 where
  from_abi data := Reading.of data do
    let bytes : FixedBytes 32 ← call (from_abi data)
    return BitVec.ofNat 256 (ofBigEndian bytes.1)

instance : ABIReader String where
  from_abi data := Reading.of data do
    let byte_array : Bytes ← call (from_abi data)
    match String.fromUTF8? ⟨byte_array.toArray⟩ with
    | some s => return s
    | none => Prog.fail "Utf8 decoding error"

section
variable {α : Type} [ABIVariable α] [ABIReader α]

/-- `Vec<T>`. The count of the values bounds the number of rounds. -/
@[reducible]
def vec : ABIReader (List α) where
  from_abi data := Reading.of data do
    let expected_length ←
      from_big_endian (← pull_slice 32 "Incomplete length for dynamic input parameter")
    let data_without_length ← as_slice
    let (r, reading) ← Prog.withPart .start
      (Prog.loop (vec_round α data_without_length expected_length) (expected_length.toNat + 1))
    let _ ← Prog.ofExcept r
    return reading.results

/-- `[T; n]`. -/
@[reducible]
def array (n : Nat) : ABIReader (FixedArray α n) where
  from_abi data := Reading.of data do
    let results ← read_times α data n []
    try_from results n

end

end ABIReader

/-! ## Structures -/

/-- How the fields of a derived structure are read, in order. -/
class ABIFieldsReader (α : Type) where
  read_fields : Bytes → Reading α

/-- A structure without fields. -/
instance ABIFields.empty : ABIFields Unit where
  static_length answer := answer
  heads_length := 0
  read_fields _ pointer := .ok ((), pointer)
  write_fields recorder _ := .ok recorder
  to_packed_abi _ := []

namespace ABIFieldsReader

instance empty : ABIFieldsReader Unit := ⟨fun _ => pure ()⟩

section
variable {α β : Type} [ABIVariable α] [ABIReader α]

/-- The last field. -/
instance last : ABIFieldsReader α := ⟨fun data => read_abi_list α data⟩

/-- A field before others. -/
instance cons [ABIFieldsReader β] : ABIFieldsReader (α × β) where
  read_fields data := do
    let x ← read_abi_list α data
    let rest ← read_fields data
    return (x, rest)

end

end ABIFieldsReader

instance ABIReader.struct {α : Type} [ABIFieldsReader α] : ABIReader (Struct α) where
  from_abi data := Reading.of data do
    let fields ← ABIFieldsReader.read_fields data
    return ⟨fields⟩

/-! ## Lists of parameters -/

/-- How a list of parameters is decoded. -/
class DecodableReader (α : Type) where
  abi_decode : Bytes → Except DecodePanic (Except String α)

namespace DecodableReader

instance : DecodableReader Unit := ⟨fun _ => .ok (.ok ())⟩

section
variable {α β γ δ ε : Type} [ABIVariable α] [ABIReader α] [ABIVariable β] [ABIReader β]
  [ABIVariable γ] [ABIReader γ] [ABIVariable δ] [ABIReader δ] [ABIVariable ε] [ABIReader ε]

instance one : DecodableReader α := ⟨fun data => Reading.of data (read_abi_list α data)⟩

instance : DecodableReader (α × β) where
  abi_decode data := Reading.of data do
    return (← read_abi_list α data, ← read_abi_list β data)

instance : DecodableReader (α × β × γ) where
  abi_decode data := Reading.of data do
    return (← read_abi_list α data, ← read_abi_list β data, ← read_abi_list γ data)

instance : DecodableReader (α × β × γ × δ) where
  abi_decode data := Reading.of data do
    return (← read_abi_list α data, ← read_abi_list β data, ← read_abi_list γ data,
      ← read_abi_list δ data)

instance : DecodableReader (α × β × γ × δ × ε) where
  abi_decode data := Reading.of data do
    return (← read_abi_list α data, ← read_abi_list β data, ← read_abi_list γ data,
      ← read_abi_list δ data, ← read_abi_list ε data)

end

end DecodableReader

/-! ## All types -/

mutual

/-- The types that are built from the implementations, where no vector is one of values of the
    static length zero. -/
inductive Built : (α : Type) → ABIVariable α → ABIReader α → Prop
  | address : Built Address inferInstance inferInstance
  | u256 : Built U256 inferInstance inferInstance
  | h256 : Built H256 .h256 .h256
  | bool : Built Bool inferInstance inferInstance
  /-- `U8`, `u16`, `u32`, `u64` and `u128`, by their bytes. -/
  | primitive {bytes : Nat} (h : bytes ∈ [1, 2, 4, 8, 16]) :
    Built (BitVec (8 * bytes)) (.primitive bytes) (.primitive bytes)
  | fixed_bytes {n : Nat} (h : 2 ≤ n ∧ n ≤ 32) : Built (FixedBytes n) inferInstance inferInstance
  | bytes : Built Bytes inferInstance inferInstance
  | string : Built String inferInstance inferInstance
  | vec {α : Type} {v : ABIVariable α} {r : ABIReader α} (item : Built α v r)
    (h : ABIVariable.STATIC_LENGTH α ≠ some 0) : Built (List α) .vec .vec
  | array {α : Type} {v : ABIVariable α} {r : ABIReader α} (item : Built α v r) (n : Nat) :
    Built (FixedArray α n) (.array n) (.array n)
  | struct {α : Type} {f : ABIFields α} {r : ABIFieldsReader α} (fields : BuiltFields α f r) :
    Built (Struct α) inferInstance inferInstance

/-- The fields of a structure. -/
inductive BuiltFields : (α : Type) → ABIFields α → ABIFieldsReader α → Prop
  | empty : BuiltFields Unit .empty .empty
  | last {α : Type} {v : ABIVariable α} {r : ABIReader α} (field : Built α v r) :
    BuiltFields α .last .last
  | cons {α β : Type} {v : ABIVariable α} {r : ABIReader α} {f : ABIFields β}
    {g : ABIFieldsReader β}
    (field : Built α v r) (rest : BuiltFields β f g) : BuiltFields (α × β) .cons .cons

end

/-- The lists of parameters: none, one type, or up to five types. -/
inductive BuiltList : (α : Type) → ABIDecodable α → DecodableReader α → Prop
  | unit : BuiltList Unit inferInstance inferInstance
  | one {α : Type} {v : ABIVariable α} {r : ABIReader α} (a : Built α v r) :
    BuiltList α inferInstance .one
  | two {α β : Type} {v : ABIVariable α} {r : ABIReader α} {v' : ABIVariable β} {r' : ABIReader β}
    (a : Built α v r) (b : Built β v' r') : BuiltList (α × β) inferInstance inferInstance
  | three {α β γ : Type} {v : ABIVariable α} {r : ABIReader α} {v' : ABIVariable β}
    {r' : ABIReader β}
    {w : ABIVariable γ} {q : ABIReader γ} (a : Built α v r) (b : Built β v' r') (c : Built γ w q) :
    BuiltList (α × β × γ) inferInstance inferInstance
  | four {α β γ δ : Type} {v : ABIVariable α} {r : ABIReader α} {v' : ABIVariable β}
    {r' : ABIReader β}
    {w : ABIVariable γ} {q : ABIReader γ} {w' : ABIVariable δ} {q' : ABIReader δ} (a : Built α v r)
    (b : Built β v' r') (c : Built γ w q) (d : Built δ w' q') :
    BuiltList (α × β × γ × δ) inferInstance inferInstance
  | five {α β γ δ ε : Type} {v : ABIVariable α} {r : ABIReader α} {v' : ABIVariable β}
    {r' : ABIReader β}
    {w : ABIVariable γ} {q : ABIReader γ} {w' : ABIVariable δ} {q' : ABIReader δ}
    {u : ABIVariable ε}
    {p : ABIReader ε} (a : Built α v r) (b : Built β v' r') (c : Built γ w q) (d : Built δ w' q')
    (e : Built ε u p) : BuiltList (α × β × γ × δ × ε) inferInstance inferInstance

end CfxEvm
