import CfxEvm.Observer.Observer

/-!
# Filters of traces

Two passes over the traces of a transaction: one keeps the actions that match a filter together with
their results, the other one pairs each of them with its result and counts its children. The vectors
that are used as stacks are lists with their top at the head.
-/

open Lib

namespace CfxEvm

inductive Space
  | Ethereum
  deriving DecidableEq, Repr

inductive ActionType
  | Call
  | Create
  | CallResult
  | CreateResult
  | InternalTransferAction
  deriving DecidableEq, Repr

structure ListFilter (α : Type) where
  list : List α
  deriving DecidableEq, Repr

namespace ListFilter

variable {α : Type} [DecidableEq α]

/-- Returns true if this filter matches everything. -/
def matches_all (f : ListFilter α) : Bool := f.list.isEmpty

/-- Returns true if the item matches one of the searched ones. -/
def «matches» (f : ListFilter α) (item : α) : Bool := f.matches_all || f.list.contains item

end ListFilter

/-- The fields of the filter that apply to the traces of one transaction. -/
structure TraceFilter where
  from_address : ListFilter Address
  to_address : ListFilter Address
  action_types : ListFilter ActionType
  space : Space
  deriving DecidableEq, Repr

/-- The space of a call or creation. -/
def Action.space (_ : Action) : Space := .Ethereum

/-- The condition on a call or creation to be kept. -/
def TraceFilter.keeps (filter : TraceFilter) (action : Action) : Bool :=
  match action with
  | .Call from_ to_ _ _ _ _ =>
    action.space == filter.space && filter.from_address.matches from_
      && filter.to_address.matches to_ && filter.action_types.matches .Call
  | .Create from_ _ _ _ _ =>
    action.space == filter.space && filter.from_address.matches from_
      && filter.action_types.matches .Create
  | _ => false

/-- Where the filters can panic. -/
inductive FilterPanic
  /-- `trace_pairs[index]`. -/
  | index_out_of_range
  /-- `expect("stack_index matches")`. -/
  | stack_index_matches
  /-- `expect("all actions matched")`. -/
  | all_actions_matched
  deriving DecidableEq, Repr

namespace TransactionExecTraces

/-! ## Pairs of actions and results -/

/-- The variables of `filter_trace_pairs`. -/
structure PairState where
  trace_pairs : List (ExecTrace × Option ExecTrace × Nat)
  stack_index : List (Option Nat)
  sublen_stack : List Nat
  deriving DecidableEq, Repr

abbrev PairM (α : Type) := Prog FilterPanic PairState String α

/-- Counts a child of the action on top of the stack. -/
def count_subtrace (sublen_stack : List Nat) : List Nat :=
  match sublen_stack with
  | [] => []
  | parent_subtraces :: rest => (parent_subtraces + 1) :: rest

/-- `Action::Call` and `Action::Create`. -/
def pair_action (filter : TraceFilter) (trace : ExecTrace) : PairM Unit := do
  Prog.when (trace.action.space == filter.space)
    (Prog.update fun s => { s with sublen_stack := count_subtrace s.sublen_stack })
  Prog.update fun s => { s with sublen_stack := 0 :: s.sublen_stack }
  if filter.keeps trace.action then
    Prog.update fun s =>
      { s with
        stack_index := some s.trace_pairs.length :: s.stack_index
        trace_pairs := s.trace_pairs ++ [(trace, none, 0)] }
  else
    -- The corresponding result should be ignored.
    Prog.update fun s => { s with stack_index := none :: s.stack_index }

/-- Changes the pair at an index. -/
def set_pair (index : Nat)
    (f : ExecTrace × Option ExecTrace × Nat → ExecTrace × Option ExecTrace × Nat) : PairM Unit := do
  let s ← Prog.gets id
  let pair ← Prog.expect .index_out_of_range s.trace_pairs[index]?
  Prog.update fun s => { s with trace_pairs := s.trace_pairs.set index (f pair) }

/-- `sublen_stack.pop()`. -/
def pop_sublen : PairM (Option Nat) := do
  let s ← Prog.gets id
  Prog.update fun s => { s with sublen_stack := s.sublen_stack.tail }
  return s.sublen_stack.head?

/-- `Action::CallResult` and `Action::CreateResult`. -/
def pair_result (trace : ExecTrace) : PairM Unit := do
  let s ← Prog.gets id
  match s.stack_index with
  | [] => Prog.fail "result left unmatched!"
  | top :: rest =>
    Prog.update fun s => { s with stack_index := rest }
    match top with
    | some index =>
      set_pair index fun pair => (pair.1, some trace, pair.2.2)
      let subtraces ← Prog.expect .stack_index_matches (← pop_sublen)
      set_pair index fun pair => (pair.1, pair.2.1, subtraces)
    | none =>
      let _ ← pop_sublen
      return ()

def pair_trace (filter : TraceFilter) (trace : ExecTrace) : PairM Unit :=
  match trace.action with
  | .Call .. | .Create .. => pair_action filter trace
  | .CallResult .. | .CreateResult .. => pair_result trace
  | .InternalTransferAction .. => return ()

/-- The pairs with the results that have been found. -/
def matched_pairs : List (ExecTrace × Option ExecTrace × Nat) →
    Except FilterPanic (List (ExecTrace × ExecTrace × Nat))
  | [] => .ok []
  | (action, some result, sublen) :: pairs =>
    (matched_pairs pairs).map fun rest => (action, result, sublen) :: rest
  | (_, none, _) :: _ => .error .all_actions_matched

/-- Return pairs of (action, result, subtrace_len). Return `Err` if actions and results do not
    match. -/
def filter_trace_pairs (traces : List ExecTrace) (filter : TraceFilter) :
    Except FilterPanic (Except String (List (ExecTrace × ExecTrace × Nat))) :=
  match (traces.forM (pair_trace filter)).run ⟨[], [], []⟩ with
  | .error p => .error p
  | .ok (.error e, _) => .ok (.error e)
  | .ok (.ok (), s) =>
    if !s.stack_index.isEmpty then .ok (.error "actions left unmatched!")
    else (matched_pairs s.trace_pairs).map .ok

/-! ## Filtered traces -/

/-- The variables of `filter_traces`. -/
structure FilterState where
  traces : List ExecTrace
  stack : List Bool
  deriving DecidableEq, Repr

abbrev FilterM (α : Type) := Prog FilterPanic FilterState String α

/-- `Action::Call` and `Action::Create`. -/
def filter_action (filter : TraceFilter) (trace : ExecTrace) : FilterM Unit :=
  if filter.keeps trace.action then
    Prog.update fun s => { s with stack := true :: s.stack, traces := s.traces ++ [trace] }
  else
    -- The corresponding result should be ignored.
    Prog.update fun s => { s with stack := false :: s.stack }

/-- `Action::CallResult` and `Action::CreateResult`. -/
def filter_result (trace : ExecTrace) : FilterM Unit := do
  let s ← Prog.gets id
  match s.stack with
  | [] => Prog.fail "result left unmatched!"
  | kept :: rest =>
    Prog.update fun s => { s with stack := rest }
    Prog.when kept (Prog.update fun s => { s with traces := s.traces ++ [trace] })

def filter_trace (filter : TraceFilter) (trace : ExecTrace) : FilterM Unit :=
  match trace.action with
  | .Call .. | .Create .. => filter_action filter trace
  | .CallResult .. | .CreateResult .. => filter_result trace
  | .InternalTransferAction .. => Prog.update fun s => { s with traces := s.traces ++ [trace] }

/-- Return filtered actions with their orders kept. -/
def filter_traces (traces : List ExecTrace) (filter : TraceFilter) :
    Except FilterPanic (Except String (List ExecTrace)) :=
  match (traces.forM (filter_trace filter)).run ⟨[], []⟩ with
  | .error p => .error p
  | .ok (.error e, _) => .ok (.error e)
  | .ok (.ok (), s) =>
    if !s.stack.isEmpty then .ok (.error "actions left unmatched!") else .ok (.ok s.traces)

end TransactionExecTraces

end CfxEvm
