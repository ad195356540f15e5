import CfxEvm.Lib.BinarySearch
import CfxEvm.Types.Basic

/-!
# Chain ids

The chain id of an epoch is that of the last height, of those in the configuration, that the epoch
has reached.
-/

open Lib

namespace CfxEvm

/-- A value of a configuration file. -/
inductive TomlValue
  | String (value : String)
  | Integer (value : Int64)
  | Float (bits : UInt64)
  | Boolean (value : Bool)
  | Datetime (value : String)
  | Array (elements : List TomlValue)
  | Table (entries : List (String × TomlValue))

/-- Reads a configuration file. -/
class TomlParser where
  parse : String → Except String TomlValue

/-- Where the code about chain ids can panic. -/
inductive ChainIdPanic
  | index_out_of_range
  | sub_underflow
  deriving DecidableEq, Repr

structure ChainIdParamsInnerGeneric (T : Type) where
  heights : List UInt64
  chain_ids : List T
  deriving DecidableEq

abbrev ChainIdParamsOneChainInner := ChainIdParamsInnerGeneric UInt32

namespace ChainIdParamsInnerGeneric

variable {T : Type}

/-- `v[index]`. -/
def index {α : Type} (v : List α) (i : Nat) : Except ChainIdPanic α :=
  match v[i]? with
  | some x => .ok x
  | none => .error .index_out_of_range

/-- The function return the chain_id with given parameters. -/
def get_chain_id (self : ChainIdParamsInnerGeneric T) (epoch_number : UInt64) :
    Except ChainIdPanic T := do
  let i ← match binary_search self.heights epoch_number with
    | .ok i => .ok i
    | .error x => if x = 0 then .error .sub_underflow else .ok (x - 1)
  index self.chain_ids i

/-- `v[0..len]`. -/
def take_slice {α : Type} (v : List α) (len : Nat) : Except ChainIdPanic (List α) :=
  if len ≤ v.length then .ok (v.take len) else .error .index_out_of_range

/-- Whether the first `len` entries of two vectors are the same. -/
def same_slice {α : Type} [DecidableEq α] (v w : List α) (len : Nat) :
    Except ChainIdPanic Bool := do
  return decide ((← take_slice v len) = (← take_slice w len))

/-- Whether a peer at the given epoch, with the other parameters, has the same chain id. -/
def «matches» [DecidableEq T] (self other : ChainIdParamsInnerGeneric T)
    (peer_epoch_number : UInt64) :
    Except ChainIdPanic Bool := do
  -- One height to epoch id map must be a sub-array of another.
  let min_len := min self.heights.length other.heights.length
  let same_heights ← same_slice other.heights self.heights min_len
  let sub_array_check ←
    if same_heights then same_slice other.chain_ids self.chain_ids min_len else pure false
  if sub_array_check then
    -- The peer may have a high epoch number but a shorter map.
    let i ← match binary_search self.heights peer_epoch_number with
      | .ok i => .ok i
      | .error x => if x = 0 then .error .sub_underflow else .ok (x - 1)
    return decide (i < min_len)
  else return false

end ChainIdParamsInnerGeneric

namespace ChainIdParamsOneChainInner

open ChainIdParamsInnerGeneric (index)

/-- The parameters read so far, and the ids that they use. -/
structure Parsing where
  parsed : ChainIdParamsOneChainInner
  used_chain_ids : List Int64

namespace Parsing

/-- Nothing has been read. -/
def start : Parsing := ⟨⟨[], []⟩, []⟩

def push (s : Parsing) (height chain_id : Int64) : Parsing :=
  ⟨⟨s.parsed.heights ++ [height.toUInt64], s.parsed.chain_ids ++ [chain_id.toUInt64.toUInt32]⟩,
    chain_id :: s.used_chain_ids⟩

/-- One element of the table. One of two values that are not both integers is passed over. -/
def element (s : Parsing) : TomlValue → Except String Parsing
  | .Array pair =>
    if pair.length ≠ 2 then
      .error ("Invalid ChainIdParams config format: " ++
        "height_to_chain_ids elements is not [height, chain_id]")
    else
      match pair with
      | [.Integer height, .Integer chain_id] =>
        if height < 0 then .error "Invalid ChainIdParams config format: height must be positive"
        else if chain_id ∈ s.used_chain_ids then
          .error "Invalid ChainIdParams config format: chain_id must be pairwise different"
        else if chain_id < 0 ∨ 4294967295 < chain_id then
          .error "Invalid ChainIdParams config format: chain_id out of range for u32"
        else .ok (s.push height chain_id)
      | _ => .ok s
  | _ =>
    .error ("Invalid ChainIdParams config format: " ++
      "height_to_chain_ids elements is not [height, chain_id]")

/-- The first height is checked when all have been read. -/
def finish (s : Parsing) : Except ChainIdPanic (Except String ChainIdParamsOneChainInner) := do
  let first ← index s.parsed.heights 0
  if first ≠ 0 then return .error "Invalid ChainIdParams config format: height must start from 0"
  else return .ok s.parsed

end Parsing

/-- The parameters of a configuration, or what is wrong with it. -/
def parse_config_str [TomlParser] (config : String) :
    Except ChainIdPanic (Except String ChainIdParamsOneChainInner) :=
  match TomlParser.parse config with
  | .error e => .ok (.error e)
  | .ok (.Table table) =>
    match table.lookup "height_to_chain_ids" with
    | some (.Array array) =>
      if array.length = 0 then
        .ok (.error "Invalid ChainIdParams config format: height_to_chain_ids is empty")
      else
        match array.foldlM Parsing.element Parsing.start with
        | .error e => .ok (.error e)
        | .ok s => s.finish
    | some _ =>
      .ok (.error "Invalid ChainIdParams config format: height_to_chain_ids is not an array")
    | none => .ok (.error "Invalid ChainIdParams config format: height_to_chain_ids not found")
  | .ok _ => .ok (.error "Invalid ChainIdParams config format: not a table")

end ChainIdParamsOneChainInner

end CfxEvm
