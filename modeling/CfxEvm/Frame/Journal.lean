import CfxEvm.Frame.Runs
import CfxEvm.Lib.Journal

/-!
# The journal of a run

What the frames of a run leave in their substates: logs, destroyed contracts, new contracts. The
frames are calls within each other, and the rounds of the run list what happens in them.
-/

open Lib Lib.Journal

namespace CfxEvm

/-- A log is emitted, a contract is destroyed, or one is listed as created. -/
inductive Happening
  | log (entry : LogEntry)
  | suicide (a : Address)
  | created (a : Address)
  deriving DecidableEq, Repr

namespace Happening

def log? : Happening → Option LogEntry
  | .log entry => some entry
  | _ => none

def created? : Happening → Option Address
  | .created a => some a
  | _ => none

end Happening

namespace Substate

/-- What is in the later substate only. -/
def since (t t' : Substate) : List Happening :=
  (t'.logs.drop t.logs.length).map .log ++
    (t'.suicides.filter fun a => !t.suicides.contains a).map .suicide ++
    (t'.contracts_created.drop t.contracts_created.length).map .created

/-- The substate holds what is listed: the logs and the new contracts in this order, the destroyed
    contracts in any. -/
structure Lists (t : Substate) (l : List Happening) : Prop where
  logs : t.logs = l.filterMap Happening.log?
  contracts_created : t.contracts_created = l.filterMap Happening.created?
  suicides : ∀ a, a ∈ t.suicides ↔ .suicide a ∈ l

end Substate

/-- What a step of the code can leave in the substate of its frame. Interpreted code acts in the
    name of the frame, if that is not static; internal contracts emit logs, and one of them makes a
    contract. -/
def Exec.Leaves (g : Globals) (ctx : FrameContext) : Exec → Happening → Prop
  | .Interpreter _ _, .log entry => ctx.static_flag = false ∧ entry.address = ctx.origin.address
  | .Interpreter _ _, .suicide a => ctx.static_flag = false ∧ a = ctx.origin.address
  | .InternalContractExec _ _, .log _ => True
  | .InternalContractExec internal params, .created a =>
    internal.Deploys g params ∧ a = eip_1820.ADDRESS
  | .PassResult _, .log _ => True
  | _, _ => False

namespace FrameStack

/-- What a round does: a frame is opened, its code leaves something in its substate, it is
    closed. -/
def marks (s s' : FrameStack) : List (Mark Happening) :=
  match s.phase with
  | .Enter _ => [.opened]
  | .Execute _ _ => (s.host.substate.since s'.host.substate).map .event ++
      match s'.phase with
      | .LastRes (.Return r) => [.closed (frame_applied r)]
      | _ => []
  | .LastRes _ => []

/-- What happens in a round is what the code of the frame can leave; and the address of a new
    contract is listed when its frame is closed and applied. -/
structure RoundLeaves (g : Globals) (s s' : FrameStack) : Prop where
  left : ∀ {frame exec e}, s.phase = .Execute frame exec → .event e ∈ s.marks s' →
    exec.Leaves g frame.context e ∨ ∃ r a, s'.phase = .LastRes (.Return r) ∧
      frame_applied r = true ∧
      frame.create_address = some a ∧ e = .created a
  created : ∀ {frame exec r}, s.phase = .Execute frame exec →
    (∀ a, ¬exec.Leaves g frame.context (.created a)) → s'.phase = .LastRes (.Return r) →
    (s.host.substate.since s'.host.substate).filterMap Happening.created? =
      if frame_applied r then frame.create_address.toList else []

variable [Keccak] [HashOrder] (g : Globals)

/-- The rounds from `s₀`, with all that happened in them. -/
inductive Chronicle (s₀ : FrameStack) : List (Mark Happening) → FrameStack → Prop
  | start : Chronicle s₀ [] s₀
  | next {l : List (Mark Happening)} {s s' : FrameStack} (h : Chronicle s₀ l s)
      (hnext : Prog.Next (step g) s s') : Chronicle s₀ (l ++ s.marks s') s'

end FrameStack

end CfxEvm
