import CfxEvm.Observer.ErrorUnwind
import CfxEvm.Observer.Proofs.FilterProofs
import Mathlib.Data.List.DropRight

/-!
# Proofs: unwinding of errors

The errors that are left are those of the last results of the trace, back to the last call, creation
or success. Their addresses come from a stack of the calls alone, which is balanced because results
are of the kind of their actions.
-/

open Lib Lib.Prog Lib.Bracket

namespace CfxEvm

namespace ErrorUnwind

open TransactionExecTraces (bracket)

/-- A call is closed by the result of a call, a creation by that of a creation. -/
def SameKind (action result : ExecTrace) : Prop :=
  match action.action, result.action with
  | .Call .., .CallResult .. => True
  | .Create .., .CreateResult .. => True
  | _, _ => False

def Matching : Forest bracket → Prop
  | .nil => True
  | .leaf _ _ rest => Matching rest
  | .node action _ inner result _ rest => SameKind action result ∧ Matching inner ∧ Matching rest

/-- The actions and results of the outermost frames. -/
def outermost : Forest bracket → List (ExecTrace × ExecTrace)
  | .nil => []
  | .leaf _ _ rest => outermost rest
  | .node action _ _ result _ rest => (action, result) :: outermost rest

/-- The address that a frame is reported with. -/
def calledAddress (action result : ExecTrace) : Address :=
  match action.action, result.action with
  | .Call _ to_ _ _ _ _, _ => to_
  | _, .CreateResult _ addr _ _ => addr
  | _, _ => 0

/-- The traces of a forest, each with the address of its frame. -/
def addressed : Forest bracket → List (ExecTrace × Address)
  | .nil => []
  | .leaf trace _ rest => (trace, 0) :: addressed rest
  | .node action _ inner result _ rest =>
    (action, calledAddress action result) ::
      (addressed inner ++ (result, calledAddress action result) :: addressed rest)

/-- The outcome and the return data of a result. -/
def outcome (trace : ExecTrace) : Option (Outcome × Bytes) :=
  match trace.action with
  | .CallResult outcome _ return_data => some (outcome, return_data)
  | .CreateResult outcome _ _ return_data => some (outcome, return_data)
  | _ => none

/-- A result that is no success. -/
def failing (trace : ExecTrace) : Bool :=
  match outcome trace with
  | some (.Success, _) => false
  | some _ => true
  | none => false

/-- The longest end of the trace, without transfers, that has no call, creation or success. -/
def propagated (f : Forest bracket) : List (ExecTrace × Address) :=
  ((addressed f).filter fun p => bracket p.1 ≠ .neutral).rtakeWhile fun p => failing p.1

/-- The message of a result, or the panic of computing it. -/
def messageOf (trace : ExecTrace) : Except UnwindPanic (Option String) :=
  match outcome trace with
  | some (outcome, return_data) => error_message outcome return_data
  | none => .ok none

/-- The entry of the list of errors. -/
def entry (p : ExecTrace × Address) : Address × String :=
  match messageOf p.1 with
  | .ok (some message) => (p.2, message)
  | _ => (p.2, "")

/-- The reason is cut inside a character. -/
def CutsCharacter (output : Bytes) : Prop :=
  ∃ reason, decode_reason output = .ok reason ∧ MAX_LENGTH ≤ reason.utf8ByteSize ∧
    from_utf8 (reason.toUTF8.data.toList.take MAX_LENGTH) = none

/-! ## Messages -/

theorem revert_reason_decode_panics {output : Bytes} {p : UnwindPanic} :
    revert_reason_decode output = .error p ↔ p = .char_boundary ∧ CutsCharacter output := by
  unfold revert_reason_decode CutsCharacter
  rcases hreason : decode_reason output with e | reason
  · simp
  · simp only [Except.ok.injEq, exists_eq_left']
    split
    · rename_i hshort
      simp only [reduceCtorEq, false_iff, not_and]
      intro _ hle
      omega
    · rename_i hlong
      unfold slice_to
      rcases hcut : from_utf8 (reason.toUTF8.data.toList.take MAX_LENGTH) with _ | part
      · simp only [Except.map, Except.error.injEq]
        exact ⟨fun h => ⟨h.symm, by omega, trivial⟩, fun h => h.1.symm⟩
      · simp [Except.map]

/-- Computing the message panics only on a reason that is cut inside a character. -/
theorem error_message_panics {o : Outcome} {data : Bytes} {p : UnwindPanic}
    (hutf8 : o = .Fail → (from_utf8 data).isSome) :
    error_message o data = .error p ↔
      p = .char_boundary ∧ o = .Reverted ∧ CutsCharacter data := by
  cases o with
  | Success => simp [error_message]
  | Reverted =>
    rw [← and_assoc, and_comm (a := p = _), and_assoc, ← revert_reason_decode_panics]
    unfold error_message
    rcases revert_reason_decode data with p' | reason
    · simp [Except.map]
    · simp [Except.map]
  | Fail =>
    obtain ⟨message, hmessage⟩ := Option.isSome_iff_exists.mp (hutf8 rfl)
    simp [error_message, hmessage]

/-- The message is missing just for a success. -/
theorem failing_eq {trace : ExecTrace} {o : Outcome} {data : Bytes} {message : Option String}
    (houtcome : outcome trace = some (o, data)) (h : error_message o data = .ok message) :
    failing trace = message.isSome := by
  unfold failing
  rw [houtcome]
  cases o with
  | Success =>
    obtain rfl := Except.ok.inj h
    rfl
  | Reverted =>
    unfold error_message at h
    rcases hreason : revert_reason_decode data with p | reason <;> rw [hreason] at h
    · cases h
    · obtain rfl := Except.ok.inj h
      rfl
  | Fail =>
    rcases hutf8 : from_utf8 data with _ | text <;> simp only [error_message, hutf8] at h
    · cases h
    · obtain rfl := Except.ok.inj h
      rfl

/-! ## The pass over the traces -/

/-- What one trace makes of the errors so far. -/
def unwind (errors : List (Address × String)) (p : ExecTrace × Address) : List (Address × String) :=
  match bracket p.1 with
  | .opening => []
  | .neutral => errors
  | .closing => if failing p.1 then errors ++ [entry p] else []

/-- A result is added to the errors, or clears them. -/
theorem wp_accept_message {trace : ExecTrace} {address : Address} {o : Outcome} {data : Bytes}
    {self : ErrorUnwind} (hclosing : bracket trace = .closing)
    (houtcome : outcome trace = some (o, data)) {E : UnwindPanic → Prop}
    {Q : Except Empty Unit → ErrorUnwind → Prop}
    (hpanic : ∀ p, messageOf trace = .error p → E p)
    (hq : (∃ message, messageOf trace = .ok message) →
      Q (.ok ()) { self with errors := unwind self.errors (trace, address) }) :
    wp (do accept_message address (← Prog.ofPanic (error_message o data))) E Q self := by
  have hmessage : messageOf trace = error_message o data := by
    unfold messageOf
    rw [houtcome]
  rcases herror : error_message o data with p | message
  · exact hpanic p (hmessage.trans herror)
  · have hq := hq ⟨message, hmessage.trans herror⟩
    have hfailing := failing_eq houtcome herror
    cases message with
    | none =>
      have hunwind : unwind self.errors (trace, address) = [] := by
        unfold unwind
        simp only [hclosing, hfailing]
        rfl
      rw [hunwind] at hq
      exact hq
    | some message =>
      have hentry : entry (trace, address) = (address, message) := by
        unfold entry
        rw [show messageOf (trace, address).1 = _ from hmessage.trans herror]
      have hunwind : unwind self.errors (trace, address) = self.errors ++ [(address, message)] := by
        unfold unwind
        simp only [hclosing, hfailing, hentry]
        rfl
      rw [hunwind] at hq
      exact hq

theorem messageOf_opening {trace : ExecTrace} (h : bracket trace = .opening) :
    messageOf trace = .ok none := by
  obtain ⟨action, valid⟩ := trace
  cases action <;> first | rfl | cases h

/-- What the pass over a forest leaves: the call stack as it was. It panics only on a message. -/
theorem wp_accept_forest {f : Forest bracket} (hf : Matching f) (self : ErrorUnwind) :
    wp (f.flatten.forM accept) (fun p => ∃ trace ∈ f.flatten, messageOf trace = .error p)
      (fun r self' => r = .ok () ∧ (∀ trace ∈ f.flatten, ∃ message, messageOf trace = .ok message) ∧
        self' = ⟨self.callstack, (addressed f).foldl unwind self.errors⟩) self := by
  induction f generalizing self with
  | nil => exact ⟨rfl, fun _ h => (nomatch h), rfl⟩
  | leaf a ha rest ih =>
    obtain ⟨action, valid⟩ := a
    cases action with
    | InternalTransferAction from_ to_ value =>
      refine wp_bind.mpr (wp_pure.mpr (wp_mono (ih hf self) ?_ ?_))
      · rintro p ⟨trace, htrace, hp⟩
        exact ⟨trace, List.mem_cons_of_mem _ htrace, hp⟩
      · rintro r _ ⟨rfl, hspeak, rfl⟩
        refine ⟨rfl, fun trace htrace => ?_, rfl⟩
        rcases List.mem_cons.mp htrace with rfl | htrace
        · exact ⟨none, rfl⟩
        · exact hspeak trace htrace
    | _ => cases ha
  | node a ha inner b hb rest ihinner ihrest =>
    obtain ⟨hkind, hinner, hrest⟩ := hf
    have hleft : ∀ trace ∈ inner.flatten, trace ∈ (Forest.node a ha inner b hb rest).flatten :=
      fun trace h => List.mem_cons_of_mem _ (List.mem_append_left _ h)
    have hmid : b ∈ (Forest.node a ha inner b hb rest).flatten :=
      List.mem_cons_of_mem _ (List.mem_append_right _ List.mem_cons_self)
    have hright : ∀ trace ∈ rest.flatten, trace ∈ (Forest.node a ha inner b hb rest).flatten :=
      fun trace h => List.mem_cons_of_mem _ (List.mem_append_right _ (List.mem_cons_of_mem _ h))
    -- the frames after this one, once its result has been taken
    have hfinish : ∀ errors, (∀ trace ∈ inner.flatten, ∃ message, messageOf trace = .ok message) →
        (∃ message, messageOf b = .ok message) →
        errors = (addressed inner).foldl unwind [] →
        wp (rest.flatten.forM accept)
          (fun p => ∃ trace ∈ (Forest.node a ha inner b hb rest).flatten,
            messageOf trace = .error p)
          (fun r self' => r = .ok () ∧
            (∀ trace ∈ (Forest.node a ha inner b hb rest).flatten, ∃ message,
              messageOf trace = .ok message) ∧
            self' = ⟨self.callstack,
              (addressed (Forest.node a ha inner b hb rest)).foldl unwind self.errors⟩)
          ⟨self.callstack, unwind errors (b, calledAddress a b)⟩ := by
      rintro _ hspeak hb' rfl
      refine wp_mono (ihrest hrest _) ?_ ?_
      · rintro p ⟨trace, htrace, hp⟩
        exact ⟨trace, hright trace htrace, hp⟩
      · rintro r _ ⟨rfl, hspeak', rfl⟩
        refine ⟨rfl, ?_, ?_⟩
        · intro trace htrace
          rcases List.mem_cons.mp htrace with rfl | htrace
          · exact ⟨none, messageOf_opening ha⟩
          · rcases List.mem_append.mp htrace with htrace | htrace
            · exact hspeak trace htrace
            · rcases List.mem_cons.mp htrace with rfl | htrace
              · exact hb'
              · exact hspeak' trace htrace
        · have hclear : unwind self.errors (a, calledAddress a b) = [] := by
            unfold unwind
            rw [ha]
          rw [addressed, List.foldl_cons, List.foldl_append, List.foldl_cons, hclear]
    have hinner' : ∀ self₁ : ErrorUnwind, wp (inner.flatten.forM accept)
        (fun p => ∃ trace ∈ (Forest.node a ha inner b hb rest).flatten, messageOf trace = .error p)
        (fun r self' => r = .ok () ∧
          (∀ trace ∈ inner.flatten, ∃ message, messageOf trace = .ok message) ∧
          self' = ⟨self₁.callstack, (addressed inner).foldl unwind self₁.errors⟩) self₁ := by
      intro self₁
      refine wp_mono (ihinner hinner self₁) ?_ fun _ _ h => h
      rintro p ⟨trace, htrace, hp⟩
      exact ⟨trace, hleft trace htrace, hp⟩
    obtain ⟨action, valid⟩ := a
    obtain ⟨result, valid'⟩ := b
    cases action with
    | Call from_ to_ value gas input call_type =>
      cases result with
      | CallResult o gas_left data =>
        refine wp_bind.mpr (wp_update.mpr (wp_forM_append (wp_bind.mpr (wp_post (hinner' _) ?_))))
        rintro r _ ⟨rfl, hspeak, rfl⟩
        refine wp_bind.mpr (wp_bind.mpr ?_)
        show wp (do accept_message to_ (← Prog.ofPanic (error_message o data))) _ _
          (⟨self.callstack, (addressed inner).foldl unwind []⟩ : ErrorUnwind)
        refine wp_accept_message hb rfl (fun p hp => ⟨_, hmid, hp⟩) fun hmessage => ?_
        exact hfinish _ hspeak hmessage rfl
      | _ => cases hkind
    | Create from_ value gas init create_type =>
      cases result with
      | CreateResult o addr gas_left data =>
        refine wp_bind.mpr (wp_update.mpr (wp_forM_append (wp_bind.mpr (wp_post (hinner' _) ?_))))
        rintro r _ ⟨rfl, hspeak, rfl⟩
        refine wp_bind.mpr ?_
        show wp (do accept_message addr (← Prog.ofPanic (error_message o data))) _ _
          (⟨self.callstack, (addressed inner).foldl unwind []⟩ : ErrorUnwind)
        refine wp_accept_message hb rfl (fun p hp => ⟨_, hmid, hp⟩) fun hmessage => ?_
        exact hfinish _ hspeak hmessage rfl
      | _ => cases hkind
    | _ => cases ha

/-! ## The errors that are left -/

theorem failing_of_opening {trace : ExecTrace} (h : bracket trace = .opening) :
    failing trace = false := by
  obtain ⟨action, valid⟩ := trace
  cases action <;> first | rfl | cases h

/-- The pass keeps the last failing results. -/
theorem foldl_unwind (l : List (ExecTrace × Address)) : l.foldl unwind [] =
    ((l.filter fun p => bracket p.1 ≠ .neutral).rtakeWhile fun p => failing p.1).map entry := by
  induction l using List.reverseRecOn with
  | nil => rfl
  | append_singleton l p ih =>
    rw [List.foldl_append, List.foldl_cons, List.foldl_nil, List.filter_append, ih]
    rcases hk : bracket p.1 with _ | _ | _
    · rw [List.filter_cons_of_pos (by simp [hk]), List.filter_nil,
        List.rtakeWhile_concat_neg _ _ _ (by simp [failing_of_opening hk])]
      simp [unwind, hk]
    · rw [List.filter_cons_of_pos (by simp [hk]), List.filter_nil, List.rtakeWhile_concat]
      by_cases hfailing : failing p.1
      · simp [unwind, hk, hfailing]
      · simp [unwind, hk, hfailing]
    · rw [List.filter_cons_of_neg (by simp [hk]), List.filter_nil, List.append_nil]
      simp [unwind, hk]

theorem filter_of_no_frame {f : Forest bracket} (h : outermost f = []) :
    ((addressed f).filter fun p => bracket p.1 ≠ .neutral) = [] := by
  induction f with
  | nil => rfl
  | leaf a ha rest ih =>
    rw [addressed, List.filter_cons_of_neg (by simp [ha])]
    exact ih h
  | node => cases h

/-- But for transfers, the trace of one frame ends with its result. -/
theorem last_of_one_frame {f : Forest bracket} {a b : ExecTrace} (h : outermost f = [(a, b)]) :
    bracket b = .closing ∧ ∃ l address,
      ((addressed f).filter fun p => bracket p.1 ≠ .neutral) = l ++ [(b, address)] := by
  induction f with
  | nil => cases h
  | leaf t ht rest ih =>
    rw [addressed, List.filter_cons_of_neg (by simp [ht])]
    exact ih h
  | node a' ha inner b' hb rest =>
    obtain ⟨hfirst, hrest⟩ := List.cons.inj h
    obtain ⟨rfl, rfl⟩ := Prod.mk.inj hfirst
    refine ⟨hb, (a', calledAddress a' b') ::
      (addressed inner).filter (fun p => bracket p.1 ≠ .neutral), calledAddress a' b', ?_⟩
    rw [addressed, List.filter_cons_of_pos (by simp [ha]), List.filter_append,
      List.filter_cons_of_pos (by simp [hb]), filter_of_no_frame hrest, List.cons_append]

/-- The frame ended with a success. -/
def Succeeded (result : ExecTrace) : Prop := ∃ data, outcome result = some (.Success, data)

theorem failing_iff {result : ExecTrace} (h : bracket result = .closing) :
    failing result = false ↔ Succeeded result := by
  obtain ⟨action, valid⟩ := result
  cases action with
  | CallResult o gas_left data => cases o <;> simp [failing, Succeeded, outcome]
  | CreateResult o addr gas_left data => cases o <;> simp [failing, Succeeded, outcome]
  | _ => cases h

theorem propagated_eq_nil_iff {f : Forest bracket} {a b : ExecTrace} (h : outermost f = [(a, b)]) :
    (propagated f).map entry = [] ↔ Succeeded b := by
  obtain ⟨hclosing, l, address, hlast⟩ := last_of_one_frame h
  unfold propagated
  rw [hlast, List.rtakeWhile_concat, List.map_eq_nil_iff, ← failing_iff hclosing]
  by_cases hfailing : failing b
  · simp [hfailing]
  · simp [hfailing]

/-- The result was reverted with a reason that is cut inside a character. -/
def ReasonIsCut (trace : ExecTrace) : Prop :=
  ∃ data, outcome trace = some (.Reverted, data) ∧ CutsCharacter data

/-- What a failed result says is valid UTF-8. -/
def FailsInUtf8 (trace : ExecTrace) : Prop :=
  ∀ data, outcome trace = some (.Fail, data) → (from_utf8 data).isSome

theorem messageOf_panics {trace : ExecTrace} {p : UnwindPanic} (hutf8 : FailsInUtf8 trace) :
    messageOf trace = .error p ↔ p = .char_boundary ∧ ReasonIsCut trace := by
  unfold messageOf ReasonIsCut
  rcases houtcome : outcome trace with _ | ⟨o, data⟩
  · simp
  · simp only [Option.some_inj, Prod.mk.injEq]
    rw [error_message_panics fun ho => hutf8 data (ho ▸ houtcome)]
    constructor
    · rintro ⟨rfl, rfl, hcuts⟩
      exact ⟨rfl, data, ⟨rfl, rfl⟩, hcuts⟩
    · rintro ⟨rfl, _, ⟨rfl, rfl⟩, hcuts⟩
      exact ⟨rfl, rfl, hcuts⟩

/-- Unwinding never panics on the call stack. It reports the failures that were propagated to the
    outermost frame just if no reverted result has a reason that is cut inside a character: there it
    panics. -/
theorem unwinding_reports_propagated_failures {f : Forest bracket} {a b : ExecTrace}
    (hmatching : Matching f) (hframe : outermost f = [(a, b)])
    (hutf8 : ∀ trace ∈ f.flatten, FailsInUtf8 trace) :
    from_traces f.flatten ≠ .error .callstack_empty ∧
    ((∃ self, from_traces f.flatten = .ok self ∧ (self.errors = [] ↔ Succeeded b) ∧
        self.errors = (propagated f).map entry) ↔
      ∀ trace ∈ f.flatten, ¬ReasonIsCut trace) := by
  have hpass := wp_accept_forest hmatching .default
  unfold from_traces Prog.final
  rcases hrun : (f.flatten.forM accept).run default with p | ⟨r, self⟩
  · obtain ⟨trace, htrace, hpanic⟩ := wp_of_panic hpass hrun
    obtain ⟨rfl, hcut⟩ := (messageOf_panics (hutf8 trace htrace)).mp hpanic
    refine ⟨by simp [Except.map], iff_of_false ?_ fun hnone => hnone trace htrace hcut⟩
    rintro ⟨self, hok, -⟩
    cases hok
  · obtain ⟨rfl, hspeak, rfl⟩ := wp_of_run hpass hrun
    have herrors : (addressed f).foldl unwind [] = (propagated f).map entry := foldl_unwind _
    refine ⟨by simp [Except.map], iff_of_true ⟨_, rfl, ?_, herrors⟩ fun trace htrace hcut => ?_⟩
    · show (addressed f).foldl unwind [] = [] ↔ _
      rw [herrors]
      exact propagated_eq_nil_iff hframe
    · obtain ⟨message, hmessage⟩ := hspeak trace htrace
      have hpanic := (messageOf_panics (hutf8 trace htrace)).mpr ⟨rfl, hcut⟩
      rw [hmessage] at hpanic
      cases hpanic

/-- A call that fails inside a call that reverts without a reason. -/
def failureInCall : Forest bracket :=
  .node ⟨.Call 7 1 0 90 [] .Call, true⟩ rfl
    (.node ⟨.Call 1 2 0 50 [] .Call, true⟩ rfl .nil
      ⟨.CallResult .Fail 0 "OutOfGas".toUTF8.data.toList, false⟩ rfl .nil)
    ⟨.CallResult .Reverted 10 [], false⟩ rfl .nil

/-- Both failures are reported, the inner one first. -/
theorem failure_in_call_is_reported :
    ∃ self, from_traces failureInCall.flatten = .ok self ∧
      self.errors = [(2, "OutOfGas"), (1, "Vm reverted. ")] := by
  have hmatching : Matching failureInCall := ⟨trivial, ⟨trivial, trivial, trivial⟩, trivial⟩
  have hutf8 : ∀ trace ∈ failureInCall.flatten, FailsInUtf8 trace := by
    simp only [failureInCall, Forest.flatten, List.nil_append, List.cons_append, List.mem_cons]
    rintro trace (rfl | rfl | rfl | rfl | h) data hdata <;> first | cases hdata | cases h
    decide +kernel
  have hcut : ∀ trace ∈ failureInCall.flatten, ¬ReasonIsCut trace := by
    simp only [failureInCall, Forest.flatten, List.nil_append, List.cons_append, List.mem_cons]
    rintro trace (rfl | rfl | rfl | rfl | h) ⟨data, hdata, reason, hreason, -⟩ <;>
      first | cases h | cases hdata
    cases hreason
  obtain ⟨self, hself, -, herrors⟩ :=
    (unwinding_reports_propagated_failures hmatching rfl hutf8).2.mpr hcut
  refine ⟨self, hself, herrors.trans ?_⟩
  decide +kernel

/-- A call that reverts with a reason of 51 bytes, the last two of which are one character. -/
def cutReason : Forest bracket :=
  .node ⟨.Call 7 1 0 80 [] .Call, true⟩ rfl .nil
    ⟨.CallResult .Reverted 10 ([8, 195, 121, 160] ++ bigEndian 32 32 ++ bigEndian 32 51 ++
      List.replicate 49 97 ++ [0xc3, 0xa9] ++ List.replicate 13 0), false⟩ rfl .nil

/-- There is no list of errors: the reason is cut inside its last character. -/
theorem cut_reason_panics :
    Matching cutReason ∧ (∃ a b, outermost cutReason = [(a, b)]) ∧
      (∀ trace ∈ cutReason.flatten, FailsInUtf8 trace) ∧
      ¬∃ self, from_traces cutReason.flatten = .ok self := by
  refine ⟨⟨trivial, trivial, trivial⟩, ⟨_, _, rfl⟩, ?_, ?_⟩
  · simp only [cutReason, Forest.flatten, List.nil_append, List.mem_cons]
    rintro trace (rfl | rfl | h) data hdata <;> first | cases hdata | cases h
  · rintro ⟨self, hself⟩
    have hpanics : (from_traces cutReason.flatten).isOk = false := by decide +kernel
    rw [hself] at hpanics
    cases hpanics

end ErrorUnwind

end CfxEvm
