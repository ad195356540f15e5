import CfxEvm.State.Substate
import CfxEvm.Types.Words

/-!
# Log filters

A filter for logs is read in two ways. `matches` checks a log against it, and `bloom_possibilities`
gives the blooms that tell which blocks can have a log that matches.
-/

open Lib

namespace CfxEvm

abbrev Bloom := BitVec 2048

/-- The bits that a byte string sets in a bloom. -/
class BloomInput where
  bits : Bytes → Bloom

namespace Bloom

variable [BloomInput]

def accrue (b : Bloom) (raw : Bytes) : Bloom := b ||| BloomInput.bits raw

/-- The bloom of one input. -/
def of (raw : Bytes) : Bloom := accrue 0 raw

/-- All bits of the bloom are set in the other one. -/
def Within (b b' : Bloom) : Prop := ∀ i, b.getLsbD i = true → b'.getLsbD i = true

end Bloom

/-- Calculates the bloom of this log entry. -/
def LogEntry.bloom [BloomInput] (log : LogEntry) : Bloom :=
  log.topics.foldl (fun b t => b.accrue (U256.to_big_endian t)) (Bloom.of log.address.to_bytes)

/-- The search addresses, and for each position the search topics. `none` matches all. -/
structure LogFilterParams where
  address : Option (List Address)
  topics : List (Option (List H256))

namespace LogFilterParams

/-- Returns combinations of each address and topic. -/
def bloom_possibilities [BloomInput] (self : LogFilterParams) : List Bloom :=
  let blooms :=
    match self.address with
    | some addresses =>
      if !addresses.isEmpty then addresses.map fun address => Bloom.of address.to_bytes else [0]
    | none => [0]
  self.topics.foldl (fun bs topic =>
    match topic with
    | none => bs
    | some topics =>
      bs.flatMap fun bloom => topics.map fun topic => bloom.accrue (U256.to_big_endian topic))
    blooms

/-- The address is one of the search addresses, if there are any. -/
def matches_address (self : LogFilterParams) (log : LogEntry) : Bool :=
  match self.address with
  | some addresses => if !addresses.isEmpty then addresses.any (log.address == ·) else true
  | none => true

/-- The topic at the position is one of the search topics there, if there are any. -/
def matches_topic (log : LogEntry) (topic : Option (List H256)) (i : Nat) : Bool :=
  match topic with
  | some topics =>
    if !topics.isEmpty then topics.any fun topic => log.topics[i]? == some topic else true
  | none => true

/-- Returns true if given log entry matches filter. There is only one space. -/
def «matches» (self : LogFilterParams) (log : LogEntry) : Bool :=
  self.matches_address log && self.topics.zipIdx.all fun (topic, i) => matches_topic log topic i

end LogFilterParams

end CfxEvm
