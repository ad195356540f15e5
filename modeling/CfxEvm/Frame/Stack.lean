import CfxEvm.Frame.Frame
import CfxEvm.Lib.Loop

/-!
# The stack of frames

`FrameStack::exec` as a loop: a round begins a frame, does one step of what runs in it, or hands
the outcome over, to a new frame or to the one that waits for it.
-/

open Lib

namespace CfxEvm

/-- Where the execution stands. -/
inductive Phase
  /-- The frame is about to be executed. -/
  | Enter (frame : CallCreateFrame)
  /-- `exec` runs in the frame. -/
  | Execute (frame : CallCreateFrame) (exec : Exec)
  /-- A frame came to an end, or traps into another one. -/
  | LastRes (last_res : TrapResult FrameReturn CallCreateFrame)

structure FrameStackOutput where
  result : Except VmError FinalizationResult
  substate : Substate
  observer : MultiObservers
  base_gas_required : Nat

/-- The frames of a transaction. The frames that wait for a result are in `frame_stack`, the last
    one at the head; the substate in the host is the one of the running frame. -/
structure FrameStack where
  host : Host State
  frame_stack : List CallCreateFrame
  tx_substate : Substate
  base_gas_required : Nat
  phase : Phase

abbrev StackM (α : Type) := Prog Panic FrameStack DbError α

namespace FrameStack

/-- `FrameStack::new`, about to execute the top frame. -/
def new (state : State) (shared_cache : SharedCache) (top_substate : Substate)
    (observer : MultiObservers) (base_gas_required : Nat) (top_frame : CallCreateFrame) :
    FrameStack where
  host := ⟨state, .new, .new, observer, shared_cache⟩
  frame_stack := []
  tx_substate := top_substate
  base_gas_required := base_gas_required
  phase := .Enter top_frame

/-- Runs a program of the current frame. -/
def onHost {α : Type} (x : DbM α) : StackM α :=
  Prog.zoom host (fun h s => { s with host := h }) x

/-- Makes `substate` the one of the running frame. -/
def activate (substate : Substate) (s : FrameStack) : FrameStack :=
  { s with host := { s.host with substate := substate } }

def goto (phase : Phase) : StackM Unit := Prog.update fun s => { s with phase := phase }

/-- The end of the execution. -/
def process_return (s : FrameStack) (result : Except VmError FrameReturn) : FrameStackOutput where
  result := result.map FrameReturn.into_finalization_result
  substate := accrue_substate s.tx_substate result
  observer := s.host.observer
  base_gas_required := s.base_gas_required

variable [Keccak] [HashOrder] (g : Globals)

/-- The beginning of a frame. -/
def enter (frame : CallCreateFrame) : StackM Unit := do
  Prog.update (activate frame.substate)
  let (frame, exec) ← onHost (frame.exec g)
  goto (.Execute frame exec)

/-- One step of what runs in the frame. -/
def execute (frame : CallCreateFrame) (exec : Exec) : StackM Unit := do
  match ← onHost (exec.step g frame.context) with
  | .Continue exec => goto (.Execute frame exec)
  | .Output output => do
    let last_res ← onHost (frame.process_output g output)
    goto (.LastRes last_res)

/-- The parent takes up the result. -/
def resume (parent : CallCreateFrame) (rest : List CallCreateFrame)
    (result : Except VmError FrameReturn) : StackM Unit := do
  let (parent, exec) ← Prog.ofPanic (parent.resume result)
  Prog.update fun s =>
    { s.activate parent.substate with frame_stack := rest, phase := .Execute parent exec }

/-- The frame that the trap asks for is to be executed, the caller waits. -/
def trap (kind : TrapKind) (caller : CallCreateFrame) (s : FrameStack) : FrameStack :=
  { s with
    frame_stack := caller :: s.frame_stack
    phase := .Enter (.from_trap_error g kind caller) }

/-- One round. -/
def step : StackM (Option FrameStackOutput) := do
  let self ← Prog.gets id
  match self.phase with
  | .Enter frame => do
    enter g frame
    return none
  | .Execute frame exec => do
    execute g frame exec
    return none
  | .LastRes (.SubCallCreate kind caller) => do
    Prog.update (trap g kind caller)
    return none
  | .LastRes (.Return result) =>
    match self.frame_stack with
    | [] => return some (self.process_return result)
    | parent :: rest => do
      resume parent rest result
      return none

/-- `FrameStack::exec`, in at most `fuel` rounds. -/
def exec (fuel : Nat) : StackM (Option FrameStackOutput) := Prog.loop (step g) fuel

end FrameStack

end CfxEvm
