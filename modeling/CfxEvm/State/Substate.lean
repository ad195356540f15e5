import CfxEvm.State.State
import CfxEvm.Types.Spec

/-!
# What a frame collects beside the state

A `Substate` belongs to one frame: the logs it emitted, the contracts it destroyed and created. It
is merged into the one of its parent when the frame is applied. `FrameStackInfo` lists the
recipients of the live frames.
-/

open Lib

namespace CfxEvm

structure LogEntry where
  address : Address
  topics : List H256
  data : Bytes
  deriving DecidableEq, Repr

/-- State changes which should be applied after the transaction is fully executed. The two hash
    sets are lists without repetitions. -/
structure Substate where
  suicides : List Address
  touched : List Address
  logs : List LogEntry
  contracts_created : List Address
  deriving DecidableEq, Repr

namespace Substate

def new : Substate := ⟨[], [], [], []⟩

/-- `set.extend(items)` of a hash set. -/
def extendSet (set items : List Address) : List Address := items.foldl (fun s a => s.insert a) set

def accrue (self s : Substate) : Substate where
  suicides := extendSet self.suicides s.suicides
  touched := extendSet self.touched s.touched
  logs := self.logs ++ s.logs
  contracts_created := self.contracts_created ++ s.contracts_created

end Substate

/-- The cleanup mode; `TrackTouched` borrows the touched set of the substate. -/
def cleanup_mode (substate : Substate) (spec : Spec) : CleanupMode :=
  match spec.kill_dust != .Off, spec.no_empty, spec.kill_empty with
  | false, false, _ => .ForceCreate
  | false, true, false => .NoEmpty
  | _, _, _ => .TrackTouched substate.touched

/-- Puts a borrowed touched set back. -/
def Substate.set_touched (substate : Substate) (cleanup_mode : CleanupMode) : Substate :=
  match cleanup_mode with
  | .TrackTouched touched => { substate with touched := touched }
  | _ => substate

/-! ## The call stack -/

/-- The recipients of the live frames, with the last one at the head, and how often each occurs. The
    counters are of the type `u32`. -/
structure FrameStackInfo where
  call_stack_recipient_addresses : List (Address × Bool)
  address_counter : HashMap Address Nat

namespace FrameStackInfo

def new : FrameStackInfo := ⟨[], ∅⟩

def push (c : FrameStackInfo) (address : Address) (is_create : Bool) :
    Except Panic FrameStackInfo :=
  let cnt := (c.address_counter.lookup address).getD 0 + 1
  if cnt < 2 ^ 32 then
    .ok ⟨(address, is_create) :: c.call_stack_recipient_addresses,
      c.address_counter.insert address cnt⟩
  else .error .callstack_counter

/-- The last address, and the stack without it. -/
def pop (c : FrameStackInfo) : Except Panic (Option (Address × Bool) × FrameStackInfo) :=
  match c.call_stack_recipient_addresses with
  | [] => .ok (none, c)
  | top :: rest =>
    match c.address_counter.lookup top.1 with
    | none => .error .callstack_counter
    | some 0 => .error .callstack_counter
    | some (cnt + 1) =>
      let counter := c.address_counter.insert top.1 cnt
      let counter := if cnt = 0 then counter.erase top.1 else counter
      .ok (some top, ⟨rest, counter⟩)

def last (c : FrameStackInfo) : Option Address :=
  c.call_stack_recipient_addresses.head?.map Prod.fst

def contains_key (c : FrameStackInfo) (key : Address) : Bool :=
  (c.address_counter.lookup key).isSome

end FrameStackInfo

end CfxEvm
