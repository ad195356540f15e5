import CfxEvm.Frame.Stack
import CfxEvm.State.Creation

/-!
# Runs of the stack of frames

The stacks that the executor starts, those reached from them, and the part of a run that belongs to
one frame: from the round in which it is entered to the one after which its result is there.
-/

open Lib

namespace CfxEvm

/-- Whether a frame with this result has its state changes applied. -/
def frame_applied (result : Except VmError FrameReturn) : Bool :=
  match result with
  | .ok r => r.apply_state
  | .error _ => false

namespace FrameStack

variable [Keccak] [HashOrder] (g : Globals)

/-- A stack about to execute the top frame of a transaction. -/
inductive Initial : FrameStack → Prop
  | call (state : State) (shared_cache : SharedCache) (top_substate : Substate)
      (observer : MultiObservers) (base_gas_required : Nat) (params : ActionParams)
      (hstate : state.Reachable) (htype : params.call_type = .Call) :
      Initial (new state shared_cache top_substate observer base_gas_required
        (.new_call_raw g params 0 false))
  | create (state : State) (shared_cache : SharedCache) (top_substate : Substate)
      (observer : MultiObservers) (base_gas_required : Nat) (params : ActionParams)
      (hstate : state.Reachable) :
      Initial (new state shared_cache top_substate observer base_gas_required
        (.new_create_raw params 0 false))

/-- A stack reached in the execution of a transaction. -/
def Reachable (s : FrameStack) : Prop := ∃ s₀, Initial g s₀ ∧ Prog.Rounds (step g) s₀ s

/-- A frame called when `depth` frames were waiting has its result. -/
def Returned (depth : Nat) (s : FrameStack) : Prop :=
  s.frame_stack.length = depth ∧ ∃ r, s.phase = .LastRes (.Return r)

/-- The rounds of a frame called when `depth` frames were waiting, until it has its result. -/
abbrev Inside (depth : Nat) : FrameStack → FrameStack → Prop :=
  Relation.ReflTransGen fun s s' => ¬Returned depth s ∧ Prog.Next (step g) s s'

/-- The whole run of the frame that `s` is about to execute, with the result `r`. -/
def FrameRun (s : FrameStack) (r : Except VmError FrameReturn) (s' : FrameStack) : Prop :=
  Inside g s.frame_stack.length s s' ∧ s'.frame_stack.length = s.frame_stack.length ∧
    s'.phase = .LastRes (.Return r)

/-- The stack after so many rounds, unless the execution ends or panics before. -/
def after : Nat → FrameStack → Option FrameStack
  | 0, s => some s
  | n + 1, s =>
    match (step g).run s with
    | .ok (.ok none, s') => after n s'
    | _ => none

/-- The result of a frame called when `depth` frames were waiting, once it is there. -/
def returned (depth : Nat) (s : FrameStack) : Option (Except VmError FrameReturn) :=
  match s.phase with
  | .LastRes (.Return r) => if s.frame_stack.length = depth then some r else none
  | _ => none

/-- Runs a frame called when `depth` frames were waiting until its result is there, in at most
    `fuel` rounds. -/
def run_frame (depth : Nat) : (fuel : Nat) → FrameStack →
    Option (Except VmError FrameReturn × FrameStack)
  | 0, s => (s.returned depth).map (·, s)
  | fuel + 1, s =>
    match s.returned depth with
    | some r => some (r, s)
    | none =>
      match (step g).run s with
      | .ok (.ok none, s') => run_frame depth fuel s'
      | _ => none

/-- Whether the execution ends within so many rounds, with stacks only that pass the test. -/
def always (test : FrameStack → Bool) : (fuel : Nat) → FrameStack → Bool
  | 0, _ => false
  | fuel + 1, s =>
    test s && match (step g).run s with
      | .ok (.ok none, s') => always test fuel s'
      | _ => true

end FrameStack

end CfxEvm
