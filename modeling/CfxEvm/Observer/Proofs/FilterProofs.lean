import CfxEvm.Lib.Bracket
import CfxEvm.Observer.TraceFilter

/-!
# Proofs: the filters of traces

Calls and creations open a bracket, and results close one. On traces that are balanced both filters
follow the forest of the brackets; on others both of them return an error.
-/

open Lib Lib.Prog Lib.Bracket

namespace CfxEvm

namespace TransactionExecTraces

/-- Calls and creations are closed by results. -/
def bracket (trace : ExecTrace) : Bracket :=
  match trace.action with
  | .Call .. | .Create .. => .opening
  | .CallResult .. | .CreateResult .. => .closing
  | .InternalTransferAction .. => .neutral

/-- The traces that are kept: all transfers, and both ends of the frames that match the filter. -/
def kept (filter : TraceFilter) : Forest bracket → List ExecTrace
  | .nil => []
  | .leaf trace _ rest => trace :: kept filter rest
  | .node action _ inner result _ rest =>
    if filter.keeps action.action
    then action :: (kept filter inner ++ result :: kept filter rest)
    else kept filter inner ++ kept filter rest

/-- The number of outermost frames in the space of the filter. -/
def children (filter : TraceFilter) : Forest bracket → Nat
  | .nil => 0
  | .leaf _ _ rest => children filter rest
  | .node action _ _ _ _ rest =>
    children filter rest + if action.action.space = filter.space then 1 else 0

/-- The frames that match the filter: the action, the result that closes it, and the number of its
    children. -/
def pairs (filter : TraceFilter) : Forest bracket → List (ExecTrace × ExecTrace × Nat)
  | .nil => []
  | .leaf _ _ rest => pairs filter rest
  | .node action _ inner result _ rest =>
    if filter.keeps action.action
    then (action, result, children filter inner) :: (pairs filter inner ++ pairs filter rest)
    else pairs filter inner ++ pairs filter rest

section
variable {filter : TraceFilter} {trace : ExecTrace}

/-! ## Filtered traces -/

theorem filter_trace_opening (h : bracket trace = .opening) :
    filter_trace filter trace = filter_action filter trace := by
  obtain ⟨action, valid⟩ := trace
  cases action <;> first | rfl | cases h

theorem filter_trace_closing (h : bracket trace = .closing) :
    filter_trace filter trace = filter_result trace := by
  obtain ⟨action, valid⟩ := trace
  cases action <;> first | rfl | cases h

theorem filter_trace_neutral (h : bracket trace = .neutral) : filter_trace filter trace =
    Prog.update fun s => { s with traces := s.traces ++ [trace] } := by
  obtain ⟨action, valid⟩ := trace
  cases action <;> first | rfl | cases h

/-- On a forest the filter keeps what it should, and leaves its stack alone. -/
theorem run_filter_forest (f : Forest bracket) (s : FilterState) :
    (f.flatten.forM (filter_trace filter)).run s =
      .ok (.ok (), { s with traces := s.traces ++ kept filter f }) := by
  induction f generalizing s with
  | nil =>
    rw [kept, List.append_nil]
    rfl
  | leaf a ha rest ih =>
    rw [Forest.flatten, run_forM_cons, filter_trace_neutral ha]
    refine run_bind_eq_ok.mpr ⟨(), _, rfl, ?_⟩
    rw [ih]
    simp [kept]
  | node a ha inner b hb rest ihinner ihrest =>
    rw [Forest.flatten, run_forM_cons, filter_trace_opening ha]
    unfold filter_action
    by_cases hkeeps : filter.keeps a.action
    · rw [if_pos hkeeps]
      refine run_bind_eq_ok.mpr ⟨(), _, rfl, ?_⟩
      rw [run_forM_append]
      refine run_bind_eq_ok.mpr ⟨(), _, ihinner _, ?_⟩
      rw [run_forM_cons, filter_trace_closing hb]
      refine run_bind_eq_ok.mpr ⟨(), _, rfl, ?_⟩
      rw [ihrest]
      simp [kept, hkeeps]
    · rw [if_neg hkeeps]
      refine run_bind_eq_ok.mpr ⟨(), _, rfl, ?_⟩
      rw [run_forM_append]
      refine run_bind_eq_ok.mpr ⟨(), _, ihinner _, ?_⟩
      rw [run_forM_cons, filter_trace_closing hb]
      refine run_bind_eq_ok.mpr ⟨(), _, rfl, ?_⟩
      rw [ihrest]
      simp [kept, hkeeps]

/-- The stack of the filter holds one entry for each open bracket. -/
theorem run_filter_depth (filter : TraceFilter) (traces : List ExecTrace) (s : FilterState) :
    match depth bracket traces s.stack.length with
    | some e => ∃ s', (traces.forM (filter_trace filter)).run s = .ok (.ok (), s') ∧
        s'.stack.length = e
    | none => ∃ e s', (traces.forM (filter_trace filter)).run s = .ok (.error e, s') := by
  induction traces generalizing s with
  | nil => exact ⟨s, rfl, rfl⟩
  | cons trace traces ih =>
    rw [run_forM_cons, run_bind]
    rcases hk : bracket trace with _ | _ | _
    · rw [depth_opening hk, filter_trace_opening hk]
      unfold filter_action
      by_cases hkeeps : filter.keeps trace.action
      · rw [if_pos hkeeps]
        exact ih { s with stack := true :: s.stack, traces := s.traces ++ [trace] }
      · rw [if_neg hkeeps]
        exact ih { s with stack := false :: s.stack }
    · rw [filter_trace_closing hk]
      obtain ⟨kept, stack⟩ := s
      cases stack with
      | nil =>
        rw [show (⟨kept, []⟩ : FilterState).stack.length = 0 from rfl, depth_closing_zero hk]
        exact ⟨_, _, rfl⟩
      | cons top rest =>
        rw [show (⟨kept, top :: rest⟩ : FilterState).stack.length = rest.length + 1 from rfl,
          depth_closing hk]
        cases top with
        | true => exact ih ⟨kept ++ [trace], rest⟩
        | false => exact ih ⟨kept, rest⟩
    · rw [depth_neutral hk, filter_trace_neutral hk]
      exact ih { s with traces := s.traces ++ [trace] }

/-! ## Pairs -/

theorem pair_trace_opening (h : bracket trace = .opening) :
    pair_trace filter trace = pair_action filter trace := by
  obtain ⟨action, valid⟩ := trace
  cases action <;> first | rfl | cases h

theorem pair_trace_closing (h : bracket trace = .closing) :
    pair_trace filter trace = pair_result trace := by
  obtain ⟨action, valid⟩ := trace
  cases action <;> first | rfl | cases h

theorem pair_trace_neutral (h : bracket trace = .neutral) :
    pair_trace filter trace = pure () := by
  obtain ⟨action, valid⟩ := trace
  cases action <;> first | rfl | cases h

/-- Adds to the number of children of the innermost open action. -/
def addChildren (n : Nat) : List Nat → List Nat
  | [] => []
  | m :: rest => (m + n) :: rest

theorem addChildren_zero (l : List Nat) : addChildren 0 l = l := by
  cases l <;> rfl

theorem addChildren_add (m n : Nat) (l : List Nat) :
    addChildren n (addChildren m l) = addChildren (m + n) l := by
  cases l <;> simp [addChildren, Nat.add_assoc]

/-- After an action: it is a child of the one around it, and has no children yet. -/
def PairState.opened (filter : TraceFilter) (trace : ExecTrace) (s : PairState) : PairState where
  trace_pairs := if filter.keeps trace.action then s.trace_pairs ++ [(trace, none, 0)]
    else s.trace_pairs
  stack_index := (if filter.keeps trace.action then some s.trace_pairs.length else none) ::
    s.stack_index
  sublen_stack := 0 :: addChildren (if trace.action.space = filter.space then 1 else 0)
    s.sublen_stack

theorem run_pair_action (filter : TraceFilter) (trace : ExecTrace) (s : PairState) :
    (pair_action filter trace).run s = .ok (.ok (), s.opened filter trace) := by
  have hcount : ∀ l, count_subtrace l = addChildren 1 l := fun l => by cases l <;> rfl
  have hsame : ∀ l, l = addChildren 0 l := fun l => (addChildren_zero l).symm
  unfold pair_action PairState.opened
  by_cases hspace : trace.action.space = filter.space
  · rw [beq_iff_eq.mpr hspace, if_pos hspace, ← hcount]
    refine run_bind_eq_ok.mpr ⟨(), _, rfl, run_bind_eq_ok.mpr ⟨(), _, rfl, ?_⟩⟩
    by_cases hkeeps : filter.keeps trace.action
    · rw [if_pos hkeeps, if_pos hkeeps, if_pos hkeeps]
      rfl
    · rw [if_neg hkeeps, if_neg hkeeps, if_neg hkeeps]
      rfl
  · rw [beq_eq_false_iff_ne.mpr hspace, if_neg hspace, ← hsame]
    refine run_bind_eq_ok.mpr ⟨(), _, rfl, run_bind_eq_ok.mpr ⟨(), _, rfl, ?_⟩⟩
    by_cases hkeeps : filter.keeps trace.action
    · rw [if_pos hkeeps, if_pos hkeeps, if_pos hkeeps]
      rfl
    · rw [if_neg hkeeps, if_neg hkeeps, if_neg hkeeps]
      rfl

/-- The result of an action that was not kept. -/
theorem run_pair_result_none (trace : ExecTrace) {s : PairState} {rest : List (Option Nat)}
    (hstack : s.stack_index = none :: rest) : (pair_result trace).run s = .ok (.ok (),
      { s with stack_index := rest, sublen_stack := s.sublen_stack.tail }) := by
  obtain ⟨trace_pairs, stack_index, sublen_stack⟩ := s
  obtain rfl : stack_index = _ := hstack
  rfl

theorem run_set_pair {s : PairState} {index : Nat} {pair : ExecTrace × Option ExecTrace × Nat}
    (f : ExecTrace × Option ExecTrace × Nat → ExecTrace × Option ExecTrace × Nat)
    (hpair : s.trace_pairs[index]? = some pair) : (set_pair index f).run s = .ok (.ok (),
      { s with trace_pairs := s.trace_pairs.set index (f pair) }) := by
  refine run_bind_eq_ok.mpr ⟨s, s, rfl, ?_⟩
  rw [hpair]
  rfl

/-- The result of an action that was kept completes its pair. -/
theorem run_pair_result_some (trace : ExecTrace) {s : PairState} {rest : List (Option Nat)}
    {index n : Nat} {sublens : List Nat} {pair : ExecTrace × Option ExecTrace × Nat}
    (hstack : s.stack_index = some index :: rest) (hsublens : s.sublen_stack = n :: sublens)
    (hpair : s.trace_pairs[index]? = some pair) : (pair_result trace).run s = .ok (.ok (),
      ⟨s.trace_pairs.set index (pair.1, some trace, n), rest, sublens⟩) := by
  obtain ⟨trace_pairs, stack_index, sublen_stack⟩ := s
  obtain rfl : stack_index = _ := hstack
  obtain rfl : sublen_stack = _ := hsublens
  have hlt : index < trace_pairs.length := (List.getElem?_eq_some_iff.mp hpair).1
  refine run_bind_eq_ok.mpr ⟨_, _, rfl, run_bind_eq_ok.mpr ⟨(), _, rfl, ?_⟩⟩
  refine run_bind_eq_ok.mpr ⟨(), _, run_set_pair _ hpair, ?_⟩
  refine run_bind_eq_ok.mpr ⟨some n, _, rfl, run_bind_eq_ok.mpr ⟨n, _, rfl, ?_⟩⟩
  have hset : (trace_pairs.set index (pair.1, some trace, pair.2.2))[index]? =
      some (pair.1, some trace, pair.2.2) := List.getElem?_set_self hlt
  refine (run_set_pair _ hset).trans ?_
  simp

/-- The pairs of a forest, as the filter keeps them. -/
def complete (pairs : List (ExecTrace × ExecTrace × Nat)) :
    List (ExecTrace × Option ExecTrace × Nat) :=
  pairs.map fun pair => (pair.1, some pair.2.1, pair.2.2)

theorem matched_pairs_complete (pairs : List (ExecTrace × ExecTrace × Nat)) :
    matched_pairs (complete pairs) = .ok pairs := by
  induction pairs with
  | nil => rfl
  | cons pair pairs ih =>
    show (matched_pairs (complete pairs)).map _ = _
    rw [ih]
    rfl

/-- On a forest the filter finds the pairs, counts the outermost frames, and leaves its stack of
    indices alone. -/
theorem run_pair_forest (filter : TraceFilter) (f : Forest bracket) (s : PairState) :
    (f.flatten.forM (pair_trace filter)).run s = .ok (.ok (),
      { s with
        trace_pairs := s.trace_pairs ++ complete (pairs filter f)
        sublen_stack := addChildren (children filter f) s.sublen_stack }) := by
  induction f generalizing s with
  | nil =>
    simp only [pairs, complete, children, List.map_nil, List.append_nil, addChildren_zero]
    rfl
  | leaf a ha rest ih =>
    rw [Forest.flatten, run_forM_cons, pair_trace_neutral ha]
    exact run_bind_eq_ok.mpr ⟨(), s, rfl, ih s⟩
  | node a ha inner b hb rest ihinner ihrest =>
    rw [Forest.flatten, run_forM_cons, pair_trace_opening ha]
    refine run_bind_eq_ok.mpr ⟨(), _, run_pair_action filter a s, ?_⟩
    rw [run_forM_append]
    refine run_bind_eq_ok.mpr ⟨(), _, ihinner _, ?_⟩
    rw [run_forM_cons, pair_trace_closing hb]
    unfold PairState.opened
    by_cases hkeeps : filter.keeps a.action
    · simp only [if_pos hkeeps]
      -- the pair of the action stands behind those of the frames before it
      have hpair : (s.trace_pairs ++ [(a, none, 0)] ++ complete (pairs filter inner))[
          s.trace_pairs.length]? = some (a, none, 0) := by simp
      refine run_bind_eq_ok.mpr ⟨(), _, run_pair_result_some b rfl rfl hpair, ?_⟩
      rw [ihrest, addChildren_add]
      simp [pairs, hkeeps, children, complete, Nat.add_comm]
    · simp only [if_neg hkeeps]
      refine run_bind_eq_ok.mpr ⟨(), _, run_pair_result_none b rfl, ?_⟩
      rw [ihrest]
      show Except.ok (_, PairState.mk _ _ (addChildren _ (addChildren _ _))) = _
      rw [addChildren_add]
      simp [pairs, hkeeps, children, complete, Nat.add_comm]

/-- Every open bracket has an entry on both stacks, and the indices are those of pairs. -/
structure PairState.Sound (s : PairState) : Prop where
  sublens : s.sublen_stack.length = s.stack_index.length
  indices : ∀ index, some index ∈ s.stack_index → index < s.trace_pairs.length

theorem length_addChildren (n : Nat) (l : List Nat) : (addChildren n l).length = l.length := by
  cases l <;> rfl

theorem PairState.Sound.opened {s : PairState} (hs : s.Sound) (filter : TraceFilter)
    (trace : ExecTrace) : (s.opened filter trace).Sound where
  sublens := by simp [PairState.opened, length_addChildren, hs.sublens]
  indices index hindex := by
    unfold PairState.opened at hindex ⊢
    by_cases hkeeps : filter.keeps trace.action
    · simp only [if_pos hkeeps, List.mem_cons, Option.some_inj] at hindex ⊢
      rw [List.length_append, List.length_singleton]
      rcases hindex with rfl | hindex
      · omega
      · have := hs.indices index hindex
        omega
    · simp only [if_neg hkeeps, List.mem_cons, reduceCtorEq, false_or] at hindex ⊢
      exact hs.indices index hindex

theorem run_pair_depth (filter : TraceFilter) (traces : List ExecTrace) {s : PairState}
    (hs : s.Sound) :
    match depth bracket traces s.stack_index.length with
    | some e => ∃ s', (traces.forM (pair_trace filter)).run s = .ok (.ok (), s') ∧
        s'.stack_index.length = e
    | none => ∃ e s', (traces.forM (pair_trace filter)).run s = .ok (.error e, s') := by
  induction traces generalizing s with
  | nil => exact ⟨s, rfl, rfl⟩
  | cons trace traces ih =>
    rw [run_forM_cons, run_bind]
    rcases hk : bracket trace with _ | _ | _
    · rw [depth_opening hk, pair_trace_opening hk, run_pair_action]
      exact ih (hs.opened filter trace)
    · rw [pair_trace_closing hk]
      obtain ⟨trace_pairs, stack_index, sublen_stack⟩ := s
      have hlen : sublen_stack.length = stack_index.length := hs.sublens
      cases stack_index with
      | nil =>
        rw [show (⟨trace_pairs, [], sublen_stack⟩ : PairState).stack_index.length = 0 from rfl,
          depth_closing_zero hk]
        exact ⟨_, _, rfl⟩
      | cons top rest =>
        rw [show (⟨trace_pairs, top :: rest, sublen_stack⟩ : PairState).stack_index.length =
          rest.length + 1 from rfl, depth_closing hk]
        have hrest : ∀ index, some index ∈ rest → index < trace_pairs.length :=
          fun index hindex => hs.indices index (List.mem_cons_of_mem _ hindex)
        cases top with
        | none =>
          rw [run_pair_result_none trace rfl]
          have hsound : (⟨trace_pairs, rest, sublen_stack.tail⟩ : PairState).Sound :=
            ⟨by simp [hlen], hrest⟩
          exact ih hsound
        | some index =>
          have hlt : index < trace_pairs.length := hs.indices index List.mem_cons_self
          cases sublen_stack with
          | nil => cases hlen
          | cons n sublens =>
            rw [run_pair_result_some trace rfl rfl (List.getElem?_eq_getElem hlt)]
            have hsound : (⟨trace_pairs.set index (trace_pairs[index].1, some trace, n), rest,
                sublens⟩ : PairState).Sound := by
              refine ⟨Nat.succ.inj hlen, fun index hindex => ?_⟩
              rw [List.length_set]
              exact hrest index hindex
            exact ih hsound
    · rw [depth_neutral hk, pair_trace_neutral hk]
      exact ih hs

end

/-! ## Both filters -/

section
variable {filter : TraceFilter}

/-- Whether a trace is a call or a creation. -/
def isAction (trace : ExecTrace) : Bool := bracket trace = .opening

theorem filter_traces_forest (filter : TraceFilter) (f : Forest bracket) :
    filter_traces f.flatten filter = .ok (.ok (kept filter f)) := by
  unfold filter_traces
  rw [run_filter_forest]
  rfl

theorem filter_trace_pairs_forest (filter : TraceFilter) (f : Forest bracket) :
    filter_trace_pairs f.flatten filter = .ok (.ok (pairs filter f)) := by
  unfold filter_trace_pairs
  rw [run_pair_forest]
  show (matched_pairs ([] ++ complete (pairs filter f))).map Except.ok = _
  rw [List.nil_append, matched_pairs_complete]
  rfl

/-- Traces that are not balanced are refused by both. -/
theorem refused_of_not_balanced (filter : TraceFilter) {traces : List ExecTrace}
    (h : ¬Balanced bracket traces) :
    (∃ e, filter_traces traces filter = .ok (.error e)) ∧
      ∃ e, filter_trace_pairs traces filter = .ok (.error e) := by
  rw [balanced_iff_depth] at h
  have hfilter := run_filter_depth filter traces ⟨[], []⟩
  have hpairs := run_pair_depth filter traces (s := ⟨[], [], []⟩) ⟨rfl, fun _ hindex =>
    (nomatch hindex)⟩
  unfold filter_traces filter_trace_pairs
  change match depth bracket traces 0 with | some e => _ | none => _ at hfilter hpairs
  rcases hdepth : depth bracket traces 0 with _ | e <;> rw [hdepth] at hfilter hpairs
  · obtain ⟨e, s', hrun⟩ := hfilter
    obtain ⟨e', s'', hrun'⟩ := hpairs
    rw [hrun, hrun']
    exact ⟨⟨e, rfl⟩, ⟨e', rfl⟩⟩
  · obtain ⟨⟨kept, stack⟩, hrun, hlen⟩ := hfilter
    obtain ⟨⟨found, stack_index, sublens⟩, hrun', hlen'⟩ := hpairs
    rw [hrun, hrun']
    cases stack with
    | nil => exact absurd (hdepth.trans (congrArg some hlen.symm)) h
    | cons top rest =>
      cases stack_index with
      | nil => exact absurd (hdepth.trans (congrArg some hlen'.symm)) h
      | cons top' rest' => exact ⟨⟨_, rfl⟩, ⟨_, rfl⟩⟩

theorem isAction_kept (filter : TraceFilter) (f : Forest bracket) :
    (kept filter f).filter isAction = (pairs filter f).map (·.1) := by
  induction f with
  | nil => rfl
  | leaf a ha rest ih =>
    rw [kept, List.filter_cons_of_neg (by simp [isAction, ha]), ih]
    rfl
  | node a ha inner b hb rest ihinner ihrest =>
    have hopen : isAction a = true := by simp [isAction, ha]
    have hclose : ¬isAction b = true := by simp [isAction, hb]
    unfold kept pairs
    split
    · rw [List.filter_cons_of_pos hopen, List.filter_append, List.filter_cons_of_neg hclose,
        ihinner, ihrest]
      simp
    · rw [List.filter_append, ihinner, ihrest, List.map_append]

theorem result_mem_kept {f : Forest bracket} {pair : ExecTrace × ExecTrace × Nat}
    (h : pair ∈ pairs filter f) : pair.2.1 ∈ kept filter f := by
  induction f with
  | nil => cases h
  | leaf a ha rest ih => exact List.mem_cons_of_mem _ (ih h)
  | node a ha inner b hb rest ihinner ihrest =>
    unfold pairs at h
    unfold kept
    split at h
    · rw [if_pos ‹_›]
      rcases List.mem_cons.mp h with rfl | h
      · simp
      · rcases List.mem_append.mp h with h | h
        · simp [ihinner h]
        · simp [ihrest h]
    · rw [if_neg ‹_›]
      rcases List.mem_append.mp h with h | h
      · exact List.mem_append_left _ (ihinner h)
      · exact List.mem_append_right _ (ihrest h)

/-- The two filters agree. Neither of them panics, and both return `Ok` just on balanced traces. On
    the traces of a forest they return what is kept of it and the pairs of it: the actions that are
    kept, each with the result that closes it and the number of its children. -/
theorem trace_filters_agree (traces : List ExecTrace) (filter : TraceFilter) :
    (∃ r, filter_traces traces filter = .ok r) ∧
    (∃ r, filter_trace_pairs traces filter = .ok r) ∧
    ((∃ found, filter_traces traces filter = .ok (.ok found)) ↔ Balanced bracket traces) ∧
    ((∃ found, filter_trace_pairs traces filter = .ok (.ok found)) ↔ Balanced bracket traces) ∧
    (Balanced bracket traces ↔ ∃ f : Forest bracket, f.flatten = traces) ∧
    ∀ f : Forest bracket, f.flatten = traces →
      filter_traces traces filter = .ok (.ok (kept filter f)) ∧
      filter_trace_pairs traces filter = .ok (.ok (pairs filter f)) ∧
      (pairs filter f).map (·.1) = (kept filter f).filter isAction ∧
      ∀ pair ∈ pairs filter f, pair.2.1 ∈ kept filter f := by
  by_cases hbalanced : Balanced bracket traces
  · obtain ⟨f, rfl⟩ := balanced_iff_exists_forest.mp hbalanced
    refine ⟨⟨_, filter_traces_forest filter f⟩, ⟨_, filter_trace_pairs_forest filter f⟩,
      iff_of_true ⟨_, filter_traces_forest filter f⟩ hbalanced,
      iff_of_true ⟨_, filter_trace_pairs_forest filter f⟩ hbalanced, balanced_iff_exists_forest, ?_⟩
    intro f' hf'
    rw [← hf']
    exact ⟨filter_traces_forest filter f', filter_trace_pairs_forest filter f',
      (isAction_kept filter f').symm, fun pair hpair => result_mem_kept hpair⟩
  · obtain ⟨⟨e, he⟩, ⟨e', he'⟩⟩ := refused_of_not_balanced filter hbalanced
    refine ⟨⟨_, he⟩, ⟨_, he'⟩, iff_of_false ?_ hbalanced, iff_of_false ?_ hbalanced,
      balanced_iff_exists_forest, ?_⟩
    · rintro ⟨found, hfound⟩
      rw [he] at hfound
      cases hfound
    · rintro ⟨found, hfound⟩
      rw [he'] at hfound
      cases hfound
    · intro f hf
      exact absurd (balanced_iff_exists_forest.mpr ⟨f, hf⟩) hbalanced

end

/-- A call in which a contract is created. -/
def creationInCall : Forest bracket :=
  .node ⟨.Call 7 1 0 100 [] .Call, true⟩ rfl
    (.node ⟨.Create 1 0 50 [] .CREATE, true⟩ rfl .nil ⟨.CreateResult .Success 2 0 [],
      true⟩ rfl .nil)
    ⟨.CallResult .Success 10 [], true⟩ rfl .nil

/-- With a filter for creations, the creation is kept and has no children. -/
theorem creation_in_call_is_paired :
    filter_traces creationInCall.flatten ⟨⟨[]⟩, ⟨[]⟩, ⟨[.Create]⟩, .Ethereum⟩ =
      .ok (.ok [⟨.Create 1 0 50 [] .CREATE, true⟩, ⟨.CreateResult .Success 2 0 [], true⟩]) ∧
    filter_trace_pairs creationInCall.flatten ⟨⟨[]⟩, ⟨[]⟩, ⟨[.Call]⟩, .Ethereum⟩ =
      .ok (.ok [(⟨.Call 7 1 0 100 [] .Call, true⟩, ⟨.CallResult .Success 10 [], true⟩, 1)]) := by
  obtain ⟨-, -, -, -, -, hcreations⟩ :=
    trace_filters_agree creationInCall.flatten ⟨⟨[]⟩, ⟨[]⟩, ⟨[.Create]⟩, .Ethereum⟩
  obtain ⟨-, -, -, -, -, hcalls⟩ :=
    trace_filters_agree creationInCall.flatten ⟨⟨[]⟩, ⟨[]⟩, ⟨[.Call]⟩, .Ethereum⟩
  exact ⟨(hcreations creationInCall rfl).1, (hcalls creationInCall rfl).2.1⟩

end TransactionExecTraces

end CfxEvm
