import CfxEvm.Observer.Observer
import Mathlib.Data.List.Basic

/-!
# Proofs: the marks of a trace

The tracer keeps the indices of the entries that are valid so far, and for each checkpoint how many
there were when it was made. This is a list of marked entries in parts, one for each open
checkpoint: an action is recorded in the last part, and when a checkpoint is closed, its part is
joined to the one before, after its entries were marked as not valid if it was reverted.
-/

open Lib

namespace CfxEvm

/-! ## Entries with marks -/

namespace ExecTrace

def recorded (action : Action) : ExecTrace := ⟨action, true⟩

def invalid (e : ExecTrace) : ExecTrace := { e with valid := false }

/-- The part of a closed checkpoint. -/
def settled (success : Bool) (l : List ExecTrace) : List ExecTrace :=
  if success then l else l.map invalid

theorem length_settled (success : Bool) (l : List ExecTrace) :
    (settled success l).length = l.length := by
  cases success
  · exact List.length_map _
  · rfl

theorem action_settled (success : Bool) (l : List ExecTrace) :
    (settled success l).map action = l.map action := by
  cases success
  · exact List.map_map
  · rfl

/-- The indices of the valid entries of a list that begins at the index `n`. -/
def indicesFrom (n : ℕ) : List ExecTrace → List ℕ
  | [] => []
  | e :: l => if e.valid then n :: indicesFrom (n + 1) l else indicesFrom (n + 1) l

theorem indicesFrom_append (n : ℕ) (l m : List ExecTrace) :
    indicesFrom n (l ++ m) = indicesFrom n l ++ indicesFrom (n + l.length) m := by
  induction l generalizing n with
  | nil => rfl
  | cons e l ih =>
    have hlen : n + (e :: l).length = n + 1 + l.length := by
      rw [List.length_cons]
      omega
    rw [List.cons_append, indicesFrom, indicesFrom, ih, hlen]
    split <;> rfl

theorem indicesFrom_invalid (n : ℕ) (l : List ExecTrace) : indicesFrom n (l.map invalid) = [] := by
  induction l generalizing n with
  | nil => rfl
  | cons e l ih => exact ih (n + 1)

theorem mem_indicesFrom {n i : ℕ} {l : List ExecTrace} :
    i ∈ indicesFrom n l ↔ ∃ e, n ≤ i ∧ l[i - n]? = some e ∧ e.valid = true := by
  induction l generalizing n with
  | nil => simp [indicesFrom]
  | cons e l ih =>
    have htail : i ∈ indicesFrom (n + 1) l ↔
        ∃ e', n + 1 ≤ i ∧ (e :: l)[i - n]? = some e' ∧ e'.valid = true := by
      rw [ih]
      refine exists_congr fun e' => and_congr_right fun hle => ?_
      rw [show i - n = i - (n + 1) + 1 by omega, List.getElem?_cons_succ]
    have hhead : ∀ e', n ≤ i ∧ (e :: l)[i - n]? = some e' ∧ e'.valid = true ↔
        (i = n ∧ e = e' ∧ e'.valid = true) ∨
          (n + 1 ≤ i ∧ (e :: l)[i - n]? = some e' ∧ e'.valid = true) := by
      intro e'
      constructor
      · rintro ⟨hle, hget, hvalid⟩
        by_cases hi : i = n
        · subst hi
          rw [Nat.sub_self, List.getElem?_cons_zero, Option.some_inj] at hget
          exact .inl ⟨rfl, hget, hvalid⟩
        · exact .inr ⟨by omega, hget, hvalid⟩
      · rintro (⟨rfl, rfl, hvalid⟩ | ⟨hle, hget, hvalid⟩)
        · exact ⟨le_rfl, by rw [Nat.sub_self, List.getElem?_cons_zero], hvalid⟩
        · exact ⟨by omega, hget, hvalid⟩
    simp only [hhead, exists_or, ← htail]
    rw [indicesFrom]
    by_cases hvalid : e.valid = true
    · rw [if_pos hvalid, List.mem_cons]
      refine or_congr_left ?_
      exact ⟨fun hi => ⟨e, hi, rfl, hvalid⟩, fun ⟨_, hi, _⟩ => hi⟩
    · rw [if_neg hvalid]
      refine ⟨.inr, fun h => h.resolve_left ?_⟩
      rintro ⟨_, -, rfl, h⟩
      exact hvalid h

end ExecTrace

open ExecTrace

/-! ## The log of a tracer -/

/-- The entries that were recorded before any checkpoint, and those of the open checkpoints, of
    which the last one is at the head. -/
def flat (base : List ExecTrace) : List (List ExecTrace) → List ExecTrace
  | [] => base
  | part :: parts => flat base parts ++ part

/-- The number of valid entries before each part. -/
def counts (base : List ExecTrace) : List (List ExecTrace) → List ℕ
  | [] => []
  | _ :: parts => (indicesFrom 0 (flat base parts)).length :: counts base parts

/-- Joins a closed part to what is before it. -/
def joined (base : List ExecTrace) (parts : List (List ExecTrace)) (closed : List ExecTrace) :
    List ExecTrace × List (List ExecTrace) :=
  match parts with
  | [] => (base ++ closed, [])
  | part :: parts => (base, (part ++ closed) :: parts)

/-- The tracer has recorded these parts. -/
structure ExecutiveTracer.Log (t : ExecutiveTracer) (base : List ExecTrace)
    (parts : List (List ExecTrace)) : Prop where
  traces : t.traces = (flat base parts).map action
  valid_indices : t.valid_indices = indicesFrom 0 (flat base parts)
  checkpoints : t.checkpoints = counts base parts

theorem flat_joined (base : List ExecTrace) (parts : List (List ExecTrace))
    (closed : List ExecTrace) :
    flat (joined base parts closed).1 (joined base parts closed).2 = flat base parts ++ closed := by
  cases parts with
  | nil => rfl
  | cons part parts => exact (List.append_assoc _ _ _).symm

theorem counts_joined (base : List ExecTrace) (parts : List (List ExecTrace))
    (closed : List ExecTrace) :
    counts (joined base parts closed).1 (joined base parts closed).2 = counts base parts := by
  cases parts <;> rfl

namespace ExecutiveTracer.Log

variable {t : ExecutiveTracer} {base part : List ExecTrace} {parts : List (List ExecTrace)}

theorem default : ExecutiveTracer.default.Log [] [] := ⟨rfl, rfl, rfl⟩

theorem length_traces (h : t.Log base parts) : t.traces.length = (flat base parts).length := by
  rw [h.traces, List.length_map]

/-- An action is recorded in the last part. -/
theorem record (h : t.Log base parts) (action : Action) :
    (t.record action).Log (joined base parts [recorded action]).1
      (joined base parts [recorded action]).2 where
  traces := by
    rw [flat_joined, List.map_append, ← h.traces]
    rfl
  valid_indices := by
    rw [flat_joined, indicesFrom_append, ← h.valid_indices, Nat.zero_add, ← h.length_traces]
    rfl
  checkpoints := by
    rw [counts_joined, ← h.checkpoints]
    rfl

theorem checkpoint (h : t.Log base parts) : t.checkpoint.Log base ([] :: parts) where
  traces := by
    rw [flat, List.append_nil]
    exact h.traces
  valid_indices := by
    rw [flat, List.append_nil]
    exact h.valid_indices
  checkpoints := by
    rw [counts, ← h.checkpoints, ← h.valid_indices]
    rfl

/-- The result of a frame closes its part. -/
theorem record_result (h : t.Log base (part :: parts)) (action : Action) (success : Bool) :
    ∃ t', t.record_result action success = .ok t' ∧
      t'.Log (joined base parts (settled success (part ++ [recorded action]))).1
        (joined base parts (settled success (part ++ [recorded action]))).2 := by
  have hrecord := h.record action
  have hflat : flat base ((part ++ [recorded action]) :: parts) =
      flat base parts ++ (part ++ [recorded action]) := rfl
  refine ⟨{ t.record action with
    checkpoints := counts base parts
    valid_indices := if success then (t.record action).valid_indices else
      (t.record action).valid_indices.take (indicesFrom 0 (flat base parts)).length },
        ?_, ?_, ?_, ?_⟩
  · unfold ExecutiveTracer.record_result
    rw [h.checkpoints]
    rfl
  · rw [flat_joined, List.map_append, action_settled, ← List.map_append]
    exact hrecord.traces
  · rw [flat_joined, indicesFrom_append]
    show (if success then (t.record action).valid_indices else _) = _
    rw [hrecord.valid_indices]
    show (if success then indicesFrom 0 (flat base ((part ++ [recorded action]) :: parts)) else
      (indicesFrom 0 (flat base ((part ++ [recorded action]) :: parts))).take _) = _
    rw [hflat, indicesFrom_append]
    cases success with
    | true => rfl
    | false =>
      rw [if_neg (by decide), List.take_left, settled, if_neg (by decide), indicesFrom_invalid,
        List.append_nil]
  · rw [counts_joined]

/-- What is drained are the entries with their marks. -/
theorem drain (h : t.Log base parts) : t.drain = flat base parts := by
  unfold ExecutiveTracer.drain
  refine List.ext_getElem? fun i => ?_
  rw [List.getElem?_map, List.getElem?_zipIdx, h.traces, List.getElem?_map, h.valid_indices]
  rcases hget : (flat base parts)[i]? with _ | e
  · rfl
  · have hmem : (indicesFrom 0 (flat base parts)).contains i = e.valid := by
      rw [Bool.eq_iff_iff, List.contains_iff_mem, mem_indicesFrom]
      refine ⟨?_, fun hvalid => ⟨e, Nat.zero_le _, hget, hvalid⟩⟩
      rintro ⟨e', -, hget', hvalid⟩
      rw [Nat.sub_zero, hget, Option.some_inj] at hget'
      exact hget' ▸ hvalid
    simp only [Option.map_some, Nat.zero_add, hmem]

end ExecutiveTracer.Log

/-! ## Transfers -/

/-- An internal transfer, and what it moves. -/
structure InternalTransfer where
  from_ : AddressPocket
  to_ : AddressPocket
  value : U256

/-- The observers after they were shown some transfers. -/
def MultiObservers.shown (o : MultiObservers) (l : List InternalTransfer) : MultiObservers :=
  l.foldl (fun o x => o.trace_internal_transfer x.from_ x.to_ x.value) o

def InternalTransfer.entry (x : InternalTransfer) : ExecTrace :=
  recorded (.InternalTransferAction x.from_ x.to_ x.value)

theorem joined_joined (base : List ExecTrace) (parts : List (List ExecTrace))
    (l m : List ExecTrace) :
    joined (joined base parts l).1 (joined base parts l).2 m = joined base parts (l ++ m) := by
  cases parts with
  | nil => exact congrArg (·, []) (List.append_assoc base l m)
  | cons part parts => exact congrArg (fun p => (base, p :: parts)) (List.append_assoc part l m)

theorem joined_nil (base : List ExecTrace) (parts : List (List ExecTrace)) :
    joined base parts [] = (base, parts) := by
  cases parts with
  | nil => exact congrArg (·, []) (List.append_nil base)
  | cons part parts => exact congrArg (fun p => (base, p :: parts)) (List.append_nil part)

/-- Transfers are recorded in the last part. -/
theorem MultiObservers.log_shown {o : MultiObservers} {t : ExecutiveTracer} {base : List ExecTrace}
    {parts : List (List ExecTrace)} (ht : o.tracer = some t) (hlog : t.Log base parts)
    (l : List InternalTransfer) :
    ∃ t', (o.shown l).tracer = some t' ∧
      t'.Log (joined base parts (l.map InternalTransfer.entry)).1
        (joined base parts (l.map InternalTransfer.entry)).2 := by
  induction l generalizing o t base parts with
  | nil =>
    refine ⟨t, ht, ?_⟩
    rw [List.map_nil, joined_nil]
    exact hlog
  | cons x l ih =>
    have hstep : (o.trace_internal_transfer x.from_ x.to_ x.value).tracer =
        some (t.record (.InternalTransferAction x.from_ x.to_ x.value)) := by
      rw [MultiObservers.trace_internal_transfer, ht]
      rfl
    obtain ⟨t', ht', hlog'⟩ := ih hstep (hlog.record _)
    rw [joined_joined] at hlog'
    exact ⟨t', ht', hlog'⟩

/-! ## Actions and results -/

/-- Whether the action begins a call or a creation. -/
def Action.opens : Action → Option Bool
  | .Call .. => some false
  | .Create .. => some true
  | _ => none

/-- Whether the action is the result of a call or of a creation, and whether this was applied. -/
def Action.closes : Action → Option (Bool × Bool)
  | .CallResult outcome .. => some (false, outcome = .Success)
  | .CreateResult outcome .. => some (true, outcome = .Success)
  | _ => none

/-- A part of a trace in which each frame has its action, what was recorded in it, and a result of
    its kind. If `valid` says that the frames around it are applied, an entry in it is valid just if
    all the frames around it are applied. -/
inductive Marked : (valid : Bool) → List ExecTrace → Prop
  | nil {valid : Bool} : Marked valid []
  | transfer {valid : Bool} {l : List ExecTrace} (h : Marked valid l) (from_ to_ : AddressPocket)
      (value : U256) : Marked valid (l ++ [⟨.InternalTransferAction from_ to_ value, valid⟩])
  | frame {valid is_create success : Bool} {l body : List ExecTrace} {action result : Action}
      (h : Marked valid l) (hopens : action.opens = some is_create)
      (hbody : Marked (valid && success) body) (hcloses : result.closes =
        some (is_create, success)) :
      Marked valid (l ++ (⟨action, valid && success⟩ :: body ++ [⟨result, valid && success⟩]))

namespace Marked

theorem invalid {valid : Bool} {l : List ExecTrace} (h : Marked valid l) :
    Marked false (l.map ExecTrace.invalid) := by
  induction h with
  | nil => exact .nil
  | transfer h from_ to_ value ih =>
    rw [List.map_append]
    exact .transfer ih from_ to_ value
  | @frame valid is_create success l body action result h hopens hbody hcloses ih ihBody =>
    rw [List.map_append, List.map_append, List.map_cons, List.map_cons, List.map_nil]
    have hframe := @Marked.frame false is_create success _ _ action result ih hopens ihBody hcloses
    rw [Bool.false_and] at hframe
    exact hframe

theorem transfers {l : List ExecTrace} (h : Marked true l) (m : List InternalTransfer) :
    Marked true (l ++ m.map InternalTransfer.entry) := by
  induction m generalizing l with
  | nil =>
    rw [List.map_nil, List.append_nil]
    exact h
  | cons x m ih =>
    rw [List.map_cons, List.append_cons]
    exact ih (.transfer h _ _ _)

/-- A frame that ends after the entries `l`, applied or not. -/
theorem closed {l body : List ExecTrace} {action result : Action} {is_create success : Bool}
    (h : Marked true l) (hopens : action.opens = some is_create) (hbody : Marked true body)
    (hcloses : result.closes = some (is_create, success)) :
    Marked true (l ++ settled success (recorded action :: body ++ [recorded result])) := by
  cases success with
  | true => exact .frame h hopens hbody hcloses
  | false =>
    have hframe := Marked.frame h hopens hbody.invalid hcloses
    rw [settled, if_neg (by decide), List.map_append, List.map_cons]
    exact hframe

end Marked

end CfxEvm
