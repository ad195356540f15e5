import CfxEvm.Execution.RevertReason
import CfxEvm.Observer.Observer

/-!
# Unwinding of errors

One pass over the traces of a transaction that keeps the errors which have been propagated so far.
The call stack has its top at the head.
-/

open Lib

namespace CfxEvm

/-- An executive tracer only records errors during EVM unwind. If it met a successful result or a
    sub-call/create, it regards the errors so far as caught and clears the list. -/
structure ErrorUnwind where
  callstack : List Address
  errors : List (Address × String)
  deriving DecidableEq, Repr

namespace ErrorUnwind

def default : ErrorUnwind := ⟨[], []⟩

abbrev UnwindM (α : Type) := Prog UnwindPanic ErrorUnwind Empty α

def error_message (outcome : Outcome) (return_data : Bytes) : Except UnwindPanic (Option String) :=
  match outcome with
  | .Success => .ok none
  | .Reverted =>
    (revert_reason_decode return_data).map fun reason => some ("Vm reverted. " ++ reason)
  | .Fail =>
    match from_utf8 return_data with
    | some message => .ok (some message)
    | none => .error .invalid_utf8

def accept_call (to_ : Address) : UnwindM Unit :=
  Prog.update fun self => { self with callstack := to_ :: self.callstack, errors := [] }

def accept_create : UnwindM Unit := Prog.update fun self => { self with errors := [] }

/-- An error is propagated, a success catches those before it. -/
def accept_message (address : Address) (message : Option String) : UnwindM Unit :=
  match message with
  | some message =>
    Prog.update fun self => { self with errors := self.errors ++ [(address, message)] }
  | none => Prog.update fun self => { self with errors := [] }

/-- `self.callstack.pop().expect(..)`. -/
def pop_callstack : UnwindM Address := do
  let self ← Prog.gets id
  match self.callstack with
  | [] => Prog.abort .callstack_empty
  | address :: rest =>
    Prog.update fun self => { self with callstack := rest }
    return address

def accept_call_result (outcome : Outcome) (return_data : Bytes) : UnwindM Unit := do
  let address ← pop_callstack
  accept_message address (← Prog.ofPanic (error_message outcome return_data))

def accept_create_result (outcome : Outcome) (addr : Address) (return_data : Bytes) :
    UnwindM Unit := do
  accept_message addr (← Prog.ofPanic (error_message outcome return_data))

def accept (trace : ExecTrace) : UnwindM Unit :=
  match trace.action with
  | .Call _ to_ _ _ _ _ => accept_call to_
  | .Create .. => accept_create
  | .CallResult outcome _ return_data => accept_call_result outcome return_data
  | .CreateResult outcome addr _ return_data => accept_create_result outcome addr return_data
  | .InternalTransferAction .. => return ()

def from_traces (traces : List ExecTrace) : Except UnwindPanic ErrorUnwind :=
  (traces.forM accept).final .default

end ErrorUnwind

end CfxEvm
