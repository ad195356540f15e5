import CfxEvm.Frame.Proofs.BookkeepingProofs
import CfxEvm.Observer.Proofs.MarkProofs

/-!
# Proofs: the trace of the frames

Each frame that is entered opens a part of the log of the tracer, and closes it with its result. So
the entries that are recorded from the beginning of a frame to its end are those of the frame, and
an entry is valid so far just if all the frames around it that have ended were applied.
-/

open Lib Lib.Prog

namespace CfxEvm

open ExecTrace

section
variable {g : Globals}

/-- The actions that the tracer has recorded. -/
def MultiObservers.actions (o : MultiObservers) : List Action :=
  (o.tracer.map ExecutiveTracer.traces).getD []

/-! ## What is recorded in a round -/

/-- The observers were shown some transfers. -/
def ShowsTransfers (h h' : Host State) : Prop := ∃ l, h'.observer = h.observer.shown l

instance : IsPreorder (Host State) ShowsTransfers where
  refl _ := ⟨[], rfl⟩
  trans := by
    rintro _ _ _ ⟨l, hl⟩ ⟨m, hm⟩
    refine ⟨l ++ m, ?_⟩
    rw [hm, hl]
    exact (List.foldl_append).symm

theorem overlooks_transfers : Overlooks ShowsTransfers :=
  ⟨fun _ _ => ⟨[], rfl⟩, fun _ _ => ⟨[], rfl⟩, fun _ from_ to_ v => ⟨[⟨from_, to_, v⟩], rfl⟩⟩

theorem of_call_result_closes {r : Except VmError FrameReturn} {action : Action}
    (h : Action.of_call_result r = .ok action) : action.closes = some (false, frame_applied r) := by
  unfold Action.of_call_result at h
  split at h
  · rename_i outcome gas_left data hparts
    cases h
    cases r with
    | error e =>
      cases hparts
      rfl
    | ok r =>
      obtain ⟨data', -, hparts⟩ := Option.map_eq_some_iff.mp hparts
      cases hparts
      cases happly : r.apply_state <;> simp [Action.closes, frame_applied, happly]
  · cases h

theorem of_create_result_closes {r : Except VmError FrameReturn} {action : Action}
    (h : Action.of_create_result r = .ok action) :
    action.closes = some (true, frame_applied r) := by
  have hparts : ∀ outcome gas_left data, Action.result_parts r = some (outcome, gas_left, data) →
      decide (outcome = .Success) = frame_applied r := by
    intro outcome gas_left data hparts
    cases r with
    | error e =>
      cases hparts
      rfl
    | ok r =>
      obtain ⟨data', -, hparts⟩ := Option.map_eq_some_iff.mp hparts
      cases hparts
      cases happly : r.apply_state <;> simp [frame_applied, happly]
  unfold Action.of_create_result at h
  split at h
  · rename_i gas_left data hsome
    split at h
    · cases h
      rw [← hparts _ _ _ hsome]
      rfl
    · cases h
  · rename_i outcome gas_left data _ hsome
    cases h
    rw [← hparts _ _ _ hsome]
    rfl
  · cases h

/-- What the tracer records of a result. -/
theorem record_result_tracer {o o' : MultiObservers} {action : Except Panic Action}
    {r : Except VmError FrameReturn} {t : ExecutiveTracer} (ht : o.tracer = some t)
    (h : o.record_result action r = .ok o') :
    ∃ a t', action = .ok a ∧ t.record_result a (frame_applied r) = .ok t' ∧
      o'.tracer = some t' := by
  change (o.tracer.mapM (fun t => action >>= fun a => t.record_result a (frame_applied r)) >>=
    fun tracer => o.gas_man.mapM _ >>= fun gas_man => Except.ok ⟨tracer, gas_man⟩) = .ok o' at h
  rw [ht, Option.mapM_some] at h
  cases action with
  | error p => cases h
  | ok a =>
    change ((some <$> t.record_result a (frame_applied r)) >>= _) = _ at h
    rcases hres : t.record_result a (frame_applied r) with p | t'
    · rw [hres] at h
      cases h
    · rw [hres] at h
      change Except.bind (o.gas_man.mapM _) _ = Except.ok o' at h
      unfold Except.bind at h
      split at h
      · cases h
      · cases h
        exact ⟨a, t', rfl, hres, rfl⟩

theorem record_return_panic {m : GasMan} {gas_left : U256} {p : Panic}
    (h : m.record_return gas_left = .error p) :
    p = .gas_record_missing ∨ p = .gas_record_overflow := by
  unfold GasMan.record_return at h
  split at h
  · cases h
    exact .inl rfl
  · dsimp only at h
    split at h
    · cases h
      exact .inr rfl
    · split at h
      · cases h
      · split at h <;> cases h
        exact .inr rfl

/-- A panic of two programs after each other is one of the first or of the second. -/
theorem panic_of_bind {α β : Type} {x : Except Panic α} {f : α → Except Panic β} {p : Panic}
    (h : x >>= f = .error p) : x = .error p ∨ ∃ a, f a = .error p := by
  cases x with
  | error q =>
    cases h
    exact .inl rfl
  | ok a => exact .inr ⟨a, h⟩

theorem panic_of_mapM {α β : Type} {x : Option α} {f : α → Except Panic β} {p : Panic}
    (h : x.mapM f = .error p) : ∃ a, f a = .error p := by
  cases x with
  | none => cases h
  | some a =>
    rw [Option.mapM_some] at h
    exact ⟨a, map_panic h⟩

/-- Where the result of a frame cannot be recorded, it is an observer that panics. -/
theorem observerPanic_of_record_result {o : MultiObservers} {action : Except Panic Action}
    {r : Except VmError FrameReturn} {p : Panic} (haction : action = .error p → ObserverPanic p)
    (h : o.record_result action r = .error p) : ObserverPanic p := by
  rcases panic_of_bind h with h | ⟨tracer, h⟩
  · obtain ⟨t, h⟩ := panic_of_mapM h
    rcases panic_of_bind h with h | ⟨a, h⟩
    · exact haction h
    · unfold ExecutiveTracer.record_result at h
      split at h <;> cases h
      trivial
  · rcases panic_of_bind h with h | ⟨gas_man, h⟩
    · obtain ⟨m, h⟩ := panic_of_mapM h
      rcases record_return_panic h with rfl | rfl <;> trivial
    · cases h

theorem observerPanic_of_record_call_result {o : MultiObservers} {r : Except VmError FrameReturn}
    {p : Panic} (h : o.record_call_result r = .error p) : ObserverPanic p := by
  refine observerPanic_of_record_result (fun haction => ?_) h
  unfold Action.of_call_result at haction
  split at haction <;> cases haction
  trivial

theorem observerPanic_of_record_create_result {o : MultiObservers} {r : Except VmError FrameReturn}
    {p : Panic} (h : o.record_create_result r = .error p) : ObserverPanic p := by
  refine observerPanic_of_record_result (fun haction => ?_) h
  unfold Action.of_create_result at haction
  split at haction
  · split at haction <;> cases haction
    trivial
  · cases haction
  · cases haction
    trivial

/-- With an open checkpoint, the result of a frame can be recorded. -/
theorem record_result_open {o : MultiObservers} {t : ExecutiveTracer} {start : ℕ} {rest : List ℕ}
    (ht : o.tracer = some t) (hopen : t.checkpoints = start :: rest) {action : Except Panic Action}
    (haction : action ≠ .error .tracer_checkpoint_missing) (r : Except VmError FrameReturn) :
    o.record_result action r ≠ .error .tracer_checkpoint_missing := by
  intro h
  change (o.tracer.mapM (fun t => action >>= fun a => t.record_result a (frame_applied r)) >>=
    fun tracer => o.gas_man.mapM _ >>= fun gas_man =>
      Except.ok (MultiObservers.mk tracer gas_man)) =
    .error .tracer_checkpoint_missing at h
  rw [ht, Option.mapM_some] at h
  cases action with
  | error p =>
    cases h
    exact haction rfl
  | ok a =>
    change ((some <$> t.record_result a (frame_applied r)) >>= _) = _ at h
    rw [ExecutiveTracer.record_result, hopen] at h
    change Except.bind (o.gas_man.mapM _) _ = Except.error _ at h
    unfold Except.bind at h
    split at h
    · rename_i p hgas
      cases h
      cases hman : o.gas_man with
      | none =>
        rw [hman] at hgas
        cases hgas
      | some m =>
        rw [hman, Option.mapM_some] at hgas
        rcases record_return_panic (map_panic hgas) with hp | hp <;> cases hp
    · cases h

/-- The result of a frame can be recorded: there is a checkpoint to close. -/
def MultiObservers.CheckpointOpen (o : MultiObservers) : Prop :=
  ∀ r, o.record_call_result r ≠ .error .tracer_checkpoint_missing ∧
    o.record_create_result r ≠ .error .tracer_checkpoint_missing

theorem checkpointOpen {o : MultiObservers} {t : ExecutiveTracer} {start : ℕ} {rest : List ℕ}
    (ht : o.tracer = some t) (hopen : t.checkpoints = start :: rest) : o.CheckpointOpen := by
  intro r
  refine ⟨record_result_open ht hopen ?_ r, record_result_open ht hopen ?_ r⟩
  · unfold Action.of_call_result
    split <;> intro h <;> cases h
  · unfold Action.of_create_result
    split
    · split <;> intro h <;> cases h
    · intro h
      cases h
    · intro h
      cases h

/-! ## Nothing that was recorded is lost -/

/-- What was recorded stays, and more is recorded after it. -/
def RecordsMore (h h' : Host State) : Prop := h.observer.actions <+: h'.observer.actions

instance : IsPreorder (Host State) RecordsMore where
  refl _ := List.prefix_rfl
  trans _ _ _ := List.IsPrefix.trans

theorem overlooks_actions : Overlooks RecordsMore where
  state _ _ := List.prefix_rfl
  substate _ _ := List.prefix_rfl
  transfer h from_ to_ v := by
    show h.observer.actions <+: (h.observer.trace_internal_transfer from_ to_ v).actions
    rcases hobs : h.observer with ⟨_ | t, m⟩
    · exact List.prefix_rfl
    · exact List.prefix_append _ _

theorem record_result_actions {o o' : MultiObservers} {action : Except Panic Action}
    {r : Except VmError FrameReturn} (h : o.record_result action r = .ok o') :
    o.actions <+: o'.actions := by
  rcases ht : o.tracer with _ | t
  · rw [MultiObservers.actions, ht]
    exact List.nil_prefix
  · obtain ⟨a, t', -, hrec, ht'⟩ := record_result_tracer ht h
    unfold ExecutiveTracer.record_result at hrec
    split at hrec
    · cases hrec
    · cases hrec
      rw [MultiObservers.actions, MultiObservers.actions, ht, ht']
      exact List.prefix_append _ _

variable [Keccak] [HashOrder]

theorem recordsMore_of_round {s s' : FrameStack} (h : Round g s s') :
    RecordsMore s.host s'.host := by
  cases h with
  | @enter frame frame' exec h' hphase hrun =>
    obtain ⟨params, h₁, hbegins⟩ := frame_exec_inv hrun
    have hopen : RecordsMore s.host h₁ := by
      unfold RecordsMore
      rw [hbegins.observer]
      show s.host.observer.actions <+: (if _ then s.host.observer.record_create params
        else s.host.observer.record_call params).actions
      rcases hobs : s.host.observer with ⟨_ | t, m⟩
      · exact List.nil_prefix
      · split <;> exact List.prefix_append _ _
    have hpre : RecordsMore h₁ h' :=
      (overlooks_actions.pre_exec params g.spec _).of_run hbegins.pre_exec
    exact hopen.trans hpre
  | @go_on frame exec exec' h' hphase hrun =>
    exact (overlooks_actions.exec_step (fun _ _ => List.prefix_rfl) exec).of_run hrun
  | @returns frame exec result r h₁ h' hphase hrun hret =>
    obtain ⟨fin, h₂, substate, h₃, hends⟩ := process_return_inv hret
    have hstep : RecordsMore s.host h₁ :=
      (overlooks_actions.exec_step (fun _ _ => List.prefix_rfl) exec).of_run hrun
    have hfinal : RecordsMore h₁ h₂ := (overlooks_actions.finalize result).of_run hends.finalize
    have hclosed : RecordsMore h₂ h₃ := (overlooks_actions.close frame _).of_run hends.close
    have hresult : RecordsMore h₃ h' := by
      have hobserver := hends.observer
      split at hobserver
      · exact record_result_actions hobserver
      · exact record_result_actions hobserver
    exact ((hstep.trans hfinal).trans hclosed).trans hresult
  | @traps frame exec kind resume h' hphase hrun =>
    exact (overlooks_actions.exec_step (fun _ _ => List.prefix_rfl) exec).of_run hrun
  | @calls kind caller hphase => exact List.prefix_rfl
  | @resumes r parent parent' rest exec hphase hstack hresume => exact List.prefix_rfl

/-! ## The span of a frame -/

namespace FrameStack

/-- The actions that have been recorded. -/
def recordedActions (s : FrameStack) : List Action := s.host.observer.actions

/-- The number of actions that have been recorded. -/
def traced (s : FrameStack) : ℕ := s.recordedActions.length

/-- From the beginning of a frame above `d` others on, there are more than `d` live frames until it
    has its result. -/
theorem live_of_inside {d : ℕ} {s₁ s : FrameStack} {frame : CallCreateFrame}
    (hphase : s₁.phase = .Enter frame) (hlen : s₁.frame_stack.length = d) (h : Inside g d s₁ s) :
    s = s₁ ∨ d < s.live.length ∨ s.Returned d := by
  induction h with
  | refl => exact .inl rfl
  | @tail s s' hrun hstep ih =>
    obtain ⟨hnot, hnext⟩ := hstep
    have hcases : d < s.live.length ∨ (s = s₁ ∧ s.phase = .Enter frame) := by
      rcases ih with rfl | hlive | hret
      · exact .inr ⟨rfl, hphase⟩
      · exact .inl hlive
      · exact absurd hret hnot
    cases round_of_next hnext with
    | @enter frame' frame'' exec h' hp _ =>
      refine .inr (.inl ?_)
      show d < s.frame_stack.length + 1
      rcases hcases with hlive | ⟨rfl, -⟩
      · rw [live, hp] at hlive
        exact hlive.trans (Nat.lt_succ_self _)
      · omega
    | @go_on frame' exec exec' h' hp _ =>
      rcases hcases with hlive | ⟨-, hp'⟩
      · rw [live, hp] at hlive
        exact .inr (.inl hlive)
      · rw [hp] at hp'
        cases hp'
    | @returns frame' exec result r h₁ h' hp _ _ =>
      rcases hcases with hlive | ⟨-, hp'⟩
      · rw [live, hp] at hlive
        by_cases hd : s.frame_stack.length = d
        · exact .inr (.inr ⟨hd, r, rfl⟩)
        · refine .inr (.inl ?_)
          change d < s.frame_stack.length + 1 at hlive
          show d < s.frame_stack.length
          omega
      · rw [hp] at hp'
        cases hp'
    | @traps frame' exec kind resume h' hp _ =>
      rcases hcases with hlive | ⟨-, hp'⟩
      · rw [live, hp] at hlive
        exact .inr (.inl hlive)
      · rw [hp] at hp'
        cases hp'
    | @calls kind caller hp =>
      rcases hcases with hlive | ⟨-, hp'⟩
      · rw [live, hp] at hlive
        exact .inr (.inl hlive)
      · rw [hp] at hp'
        cases hp'
    | @resumes r parent parent' rest exec hp hstack _ =>
      rcases hcases with hlive | ⟨-, hp'⟩
      · rw [live, hp, hstack] at hlive
        exact .inr (.inl hlive)
      · rw [hp] at hp'
        cases hp'

/-- So many rounds of a frame above `d` others, before which it had no result. -/
structure Within (g : Globals) (d k : ℕ) (s s' : FrameStack) : Prop where
  steps : Steps (step g) k s s'
  before : ∀ j < k, ∀ t, Steps (step g) j s t → ¬t.Returned d

theorem Within.inside {d k : ℕ} {s s' : FrameStack} (h : Within g d k s s') : Inside g d s s' := by
  induction k generalizing s' with
  | zero => exact h.steps ▸ .refl
  | succ k ih =>
    obtain ⟨s₁, hsteps, hnext⟩ := h.steps
    have hwithin : Within g d k s s₁ := ⟨hsteps, fun j hj => h.before j (Nat.lt_succ_of_lt hj)⟩
    exact (ih hwithin).tail ⟨h.before k (Nat.lt_succ_self k) s₁ hsteps, hnext⟩

theorem Within.tail {d k : ℕ} {s s' s'' : FrameStack} (h : Within g d k s s')
    (hnot : ¬s'.Returned d)
    (hnext : Next (step g) s' s'') : Within g d (k + 1) s s'' where
  steps := ⟨s', h.steps, hnext⟩
  before j hj t ht := by
    rcases Nat.lt_succ_iff_lt_or_eq.mp hj with hlt | rfl
    · exact h.before j hlt t ht
    · exact ht.unique h.steps ▸ hnot

theorem within_of_inside {d : ℕ} {s s' : FrameStack} (h : Inside g d s s') :
    ∃ k, Within g d k s s' := by
  induction h with
  | refl => exact ⟨0, rfl, fun j hj => absurd hj (Nat.not_lt_zero j)⟩
  | tail _ hstep ih =>
    obtain ⟨k, hk⟩ := ih
    exact ⟨k + 1, hk.tail hstep.1 hstep.2⟩

/-- In the round `m` the frame above `d` others was entered, and `k` rounds later it was not
    left. -/
structure EnteredAt (g : Globals) (s₀ : FrameStack) (d m k : ℕ) (s₁ s : FrameStack) : Prop where
  reached : Steps (step g) m s₀ s₁
  phase : ∃ frame, s₁.phase = .Enter frame
  depth : s₁.frame_stack.length = d
  within : Within g d k s₁ s

/-- The frame above `d` others that is live in the round `n` was entered when `p` actions had been
    recorded. -/
structure Entered (g : Globals) (s₀ : FrameStack) (n : ℕ) (s : FrameStack) (d p : ℕ) : Prop where
  found : ∃ m k s₁, m + k = n ∧ EnteredAt g s₀ d m k s₁ s ∧ s₁.traced = p
  unique : ∀ m k s₁, m + k = n → EnteredAt g s₀ d m k s₁ s → s₁.traced = p

variable {s₀ s s' : FrameStack} {n d p : ℕ}

omit [Keccak] [HashOrder] in
theorem not_returned_of_live (h : d < s.live.length) : ¬s.Returned d := by
  rintro ⟨hlen, r, hphase⟩
  rw [live, hphase] at h
  exact absurd hlen (Nat.ne_of_gt h)

/-- A frame that was entered some rounds before the next one was entered so before this one. -/
theorem EnteredAt.prev {m k : ℕ} {s₁ : FrameStack} (hsteps : Steps (step g) n s₀ s)
    (hmk : m + (k + 1) = n + 1) (h : EnteredAt g s₀ d m (k + 1) s₁ s') :
    m + k = n ∧ EnteredAt g s₀ d m k s₁ s := by
  obtain ⟨s₂, hsteps₂, -⟩ := h.within.steps
  have hk : m + k = n := by omega
  obtain rfl : s₂ = s := (h.reached.trans hsteps₂).unique (hk ▸ hsteps)
  exact ⟨hk, h.reached, h.phase, h.depth, hsteps₂,
    fun j hj => h.within.before j (Nat.lt_succ_of_lt hj)⟩

theorem EnteredAt.now {m : ℕ} {s₁ : FrameStack} (h : EnteredAt g s₀ d m 0 s₁ s) :
    (∃ frame, s.phase = .Enter frame) ∧ s.frame_stack.length = d := by
  have hphase := h.phase
  have hdepth := h.depth
  obtain rfl := h.within.steps
  exact ⟨hphase, hdepth⟩

/-- A live frame was entered when it was, also after the next round. -/
theorem Entered.next (h : Entered g s₀ n s d p) (hsteps : Steps (step g) n s₀ s)
    (hlive : d < s.live.length) (hphase : ∀ frame, s'.phase = .Enter frame →
      d < s'.frame_stack.length)
    (hnext : Next (step g) s s') : Entered g s₀ (n + 1) s' d p where
  found := by
    obtain ⟨m, k, s₁, hmk, hentered, hp⟩ := h.found
    exact ⟨m, k + 1, s₁, congrArg Nat.succ hmk, ⟨hentered.reached, hentered.phase, hentered.depth,
      hentered.within.tail (not_returned_of_live hlive) hnext⟩, hp⟩
  unique m k s₁ hmk hentered := by
    cases k with
    | zero =>
      -- The frame is about to be entered, so that there are no more frames than `d`.
      obtain ⟨⟨frame, hframe⟩, hdepth⟩ := hentered.now
      exact absurd (hphase frame hframe) (by omega)
    | succ k =>
      obtain ⟨hk, hprev⟩ := hentered.prev hsteps hmk
      exact h.unique m k s₁ hk hprev

/-- A frame that is entered in this round is entered in no other one. -/
theorem entered_now {frame : CallCreateFrame} (hsteps : Steps (step g) n s₀ s)
    (hphase : s.phase = .Enter frame) (hnext : Next (step g) s s')
    (hphase' : ∀ frame, s'.phase ≠ .Enter frame) :
    Entered g s₀ (n + 1) s' s.frame_stack.length s.traced where
  found := by
    refine ⟨n, 1, s, rfl, ⟨hsteps, ⟨frame, hphase⟩, rfl, ?_⟩, rfl⟩
    have hstart : Within g s.frame_stack.length 0 s s :=
      ⟨rfl, fun j hj => absurd hj (Nat.not_lt_zero j)⟩
    refine hstart.tail ?_ hnext
    rintro ⟨-, r, hret⟩
    rw [hphase] at hret
    cases hret
  unique m k s₁ hmk hentered := by
    cases k with
    | zero =>
      obtain ⟨⟨frame', hframe'⟩, -⟩ := hentered.now
      exact absurd hframe' (hphase' frame')
    | succ k =>
      obtain ⟨-, hprev⟩ := hentered.prev hsteps hmk
      obtain ⟨frame₁, hframe₁⟩ := hprev.phase
      rcases live_of_inside hframe₁ hprev.depth hprev.within.inside with rfl | hlive | ⟨-, r, hret⟩
      · rfl
      · rw [live, hphase] at hlive
        exact absurd hlive (lt_irrefl _)
      · rw [hphase] at hret
        cases hret

/-- A frame with the result `r` that ended in one of the first `n` rounds has recorded the entry
    `i`, or was around it when it was recorded. -/
def Covers (g : Globals) (s₀ : FrameStack) (n i : ℕ) (r : Except VmError FrameReturn) : Prop :=
  ∃ d m k s₁ s₂, m + k ≤ n ∧ EnteredAt g s₀ d m k s₁ s₂ ∧ s₂.frame_stack.length = d ∧
    s₂.phase = .LastRes (.Return r) ∧ s₁.traced ≤ i ∧ i < s₂.traced

theorem not_covers_zero {i : ℕ} {r : Except VmError FrameReturn} : ¬Covers g s₀ 0 i r := by
  rintro ⟨d, m, k, s₁, s₂, hmk, hentered, -, hret, -⟩
  obtain rfl : k = 0 := by omega
  obtain ⟨⟨frame, hframe⟩, -⟩ := hentered.now
  rw [hframe] at hret
  cases hret

/-- The frames that cover an entry after the next round are those before it, and the one that ends
    in it. -/
theorem covers_succ {i : ℕ} {r : Except VmError FrameReturn}
    (hsteps : Steps (step g) (n + 1) s₀ s') :
    Covers g s₀ (n + 1) i r ↔ Covers g s₀ n i r ∨ (s'.phase = .LastRes (.Return r) ∧
      ∃ m k s₁, m + k = n + 1 ∧ EnteredAt g s₀ s'.frame_stack.length m k s₁ s' ∧
        s₁.traced ≤ i ∧ i < s'.traced) := by
  constructor
  · rintro ⟨d, m, k, s₁, s₂, hmk, hentered, hlen, hret, hle, hlt⟩
    by_cases hn : m + k ≤ n
    · exact .inl ⟨d, m, k, s₁, s₂, hn, hentered, hlen, hret, hle, hlt⟩
    · have hmk : m + k = n + 1 := by omega
      obtain rfl : s₂ = s' := (hentered.reached.trans hentered.within.steps).unique (hmk ▸ hsteps)
      subst hlen
      exact .inr ⟨hret, m, k, s₁, hmk, hentered, hle, hlt⟩
  · rintro (⟨d, m, k, s₁, s₂, hmk, hrest⟩ | ⟨hret, m, k, s₁, hmk, hentered, hle, hlt⟩)
    · exact ⟨d, m, k, s₁, s₂, Nat.le_succ_of_le hmk, hrest⟩
    · exact ⟨_, m, k, s₁, s', hmk.le, hentered, rfl, hret, hle, hlt⟩

theorem covers_succ_of_ne {i : ℕ} {r : Except VmError FrameReturn}
    (hsteps : Steps (step g) (n + 1) s₀ s') (hne : ∀ r, s'.phase ≠ .LastRes (.Return r)) :
    Covers g s₀ (n + 1) i r ↔ Covers g s₀ n i r := by
  rw [covers_succ hsteps]
  exact or_iff_left fun h => hne r h.1

/-- After the round in which a frame ends, that frame covers what was recorded since it was
    entered. -/
theorem covers_returned {i : ℕ} {r r₀ : Except VmError FrameReturn}
    (hsteps : Steps (step g) (n + 1) s₀ s') (hret : s'.phase = .LastRes (.Return r₀))
    (hentered : Entered g s₀ (n + 1) s' s'.frame_stack.length p) :
    Covers g s₀ (n + 1) i r ↔ Covers g s₀ n i r ∨ (r = r₀ ∧ p ≤ i ∧ i < s'.traced) := by
  rw [covers_succ hsteps]
  refine or_congr_right ?_
  constructor
  · rintro ⟨hphase, m, k, s₁, hmk, hat, hle, hlt⟩
    rw [hret] at hphase
    cases hphase
    rw [hentered.unique m k s₁ hmk hat] at hle
    exact ⟨rfl, hle, hlt⟩
  · rintro ⟨rfl, hle, hlt⟩
    obtain ⟨m, k, s₁, hmk, hat, rfl⟩ := hentered.found
    exact ⟨hret, m, k, s₁, hmk, hat, hle, hlt⟩

/-! ## Every round -/

/-- Each live frame has its part of the log, which begins with its action. `P d p` says of the frame
    above `d` others that its part begins at `p`. -/
def Parts (P : ℕ → ℕ → Prop) (base : List ExecTrace) :
    List CallCreateFrame → List (List ExecTrace) → Prop
  | [], [] => True
  | f :: fs, part :: parts => (∃ action body, part = recorded action :: body ∧
      action.opens = some f.context.is_create ∧ Marked true body) ∧
      P fs.length (flat base parts).length ∧ Parts P base fs parts
  | _, _ => False

omit [Keccak] [HashOrder] in
theorem Parts.mono {P P' : ℕ → ℕ → Prop} {base : List ExecTrace} {fs : List CallCreateFrame}
    {parts : List (List ExecTrace)} (h : Parts P base fs parts)
    (hP : ∀ d p, d < fs.length → P d p → P' d p) : Parts P' base fs parts := by
  induction fs generalizing parts with
  | nil =>
    cases parts with
    | nil => trivial
    | cons part parts => exact h.elim
  | cons f fs ih =>
    cases parts with
    | nil => exact h.elim
    | cons part parts =>
      obtain ⟨hpart, hstart, hrest⟩ := h
      exact ⟨hpart, hP _ _ (Nat.lt_succ_self _) hstart,
        ih hrest fun d p hd => hP d p (Nat.lt_succ_of_lt hd)⟩

omit [Keccak] [HashOrder] in
/-- What a frame that has ended recorded is joined to the part of the frame below it. -/
theorem Parts.joined {P : ℕ → ℕ → Prop} {base closed : List ExecTrace} {fs : List CallCreateFrame}
    {parts : List (List ExecTrace)} (h : Parts P base fs parts) (hbase : Marked true base)
    (hclosed : ∀ l, Marked true l → Marked true (l ++ closed)) :
    Marked true (joined base parts closed).1 ∧
      Parts P (joined base parts closed).1 fs (joined base parts closed).2 := by
  cases parts with
  | nil =>
    cases fs with
    | nil => exact ⟨hclosed base hbase, trivial⟩
    | cons f fs => exact h.elim
  | cons part parts =>
    cases fs with
    | nil => exact h.elim
    | cons f fs =>
      obtain ⟨⟨action, body, rfl, hopens, hbody⟩, hstart, hrest⟩ := h
      exact ⟨hbase, ⟨action, body ++ closed, rfl, hopens, hclosed body hbody⟩, hstart, hrest⟩

/-- An entry is valid just if the frames that cover it and ended in the first `n` rounds were
    applied. -/
structure Marks (g : Globals) (s₀ : FrameStack) (n : ℕ) (l : List ExecTrace) : Prop where
  valid : ∀ i e, l[i]? = some e →
    (e.valid = true ↔ ∀ r, Covers g s₀ n i r → frame_applied r = true)
  covered : ∀ i r, Covers g s₀ n i r → i < l.length

namespace Marks

variable {l m : List ExecTrace}

/-- What is recorded anew is valid so far. -/
theorem append (h : Marks g s₀ n l) (hm : ∀ e ∈ m, e.valid = true) : Marks g s₀ n (l ++ m) where
  valid i e he := by
    by_cases hi : i < l.length
    · rw [List.getElem?_append_left hi] at he
      exact h.valid i e he
    · rw [List.getElem?_append_right (not_lt.mp hi)] at he
      exact iff_of_true (hm e (List.mem_of_getElem? he)) fun r hr => absurd (h.covered i r hr) hi
  covered i r hr := by
    rw [List.length_append]
    exact (h.covered i r hr).trans_le (Nat.le_add_right _ _)

/-- In a round in which no frame ends, the entries stay as they are. -/
theorem next (h : Marks g s₀ n l) (hsteps : Steps (step g) (n + 1) s₀ s')
    (hne : ∀ r, s'.phase ≠ .LastRes (.Return r)) : Marks g s₀ (n + 1) l where
  valid i e he := by
    simp only [covers_succ_of_ne hsteps hne]
    exact h.valid i e he
  covered i r hr := h.covered i r ((covers_succ_of_ne hsteps hne).mp hr)

/-- The frame that ends in a round covers its part of the log. -/
theorem closed {r₀ : Except VmError FrameReturn} (h : Marks g s₀ n (l ++ m))
    (hcovers : ∀ i r, Covers g s₀ (n + 1) i r ↔
      Covers g s₀ n i r ∨ (r = r₀ ∧ l.length ≤ i ∧ i < (l ++ m).length)) :
    Marks g s₀ (n + 1) (l ++ settled (frame_applied r₀) m) where
  valid i e he := by
    simp only [hcovers]
    by_cases hi : i < l.length
    · -- The entry was recorded before the frame began.
      rw [List.getElem?_append_left hi] at he
      have hold : (l ++ m)[i]? = some e := by rw [List.getElem?_append_left hi, he]
      rw [h.valid i e hold]
      refine forall_congr' fun r => imp_congr_left ?_
      exact (or_iff_left fun hr => absurd hi (not_lt.mpr hr.2.1)).symm
    · have hlt : i < (l ++ m).length := by
        have hi' := (List.getElem?_eq_some_iff.mp he).1
        rw [List.length_append, length_settled] at hi'
        rw [List.length_append]
        exact hi'
      rw [List.getElem?_append_right (not_lt.mp hi)] at he
      cases happlied : frame_applied r₀ with
      | true =>
        rw [happlied] at he
        have hold : (l ++ m)[i]? = some e := by
          rw [List.getElem?_append_right (not_lt.mp hi)]
          exact he
        rw [h.valid i e hold]
        constructor
        · rintro hall r (hr | ⟨rfl, -⟩)
          · exact hall r hr
          · exact happlied
        · exact fun hall r hr => hall r (.inl hr)
      | false =>
        rw [happlied, settled, if_neg (by decide), List.getElem?_map] at he
        obtain ⟨e', -, rfl⟩ := Option.map_eq_some_iff.mp he
        refine iff_of_false (by simp [invalid]) fun hall => ?_
        have hr₀ := hall r₀ (.inr ⟨rfl, not_lt.mp hi, hlt⟩)
        rw [happlied] at hr₀
        cases hr₀
  covered i r hr := by
    rw [List.length_append, length_settled, ← List.length_append]
    rcases (hcovers i r).mp hr with hr | ⟨-, -, hlt⟩
    · exact h.covered i r hr
    · exact hlt

end Marks

/-- The log after `n` rounds: its parts belong to the live frames, and its entries are marked. -/
structure Traced (g : Globals) (s₀ : FrameStack) (n : ℕ) (base : List ExecTrace)
    (parts : List (List ExecTrace)) (s : FrameStack) : Prop where
  steps : Steps (step g) n s₀ s
  log : ∃ t, s.host.observer.tracer = some t ∧ t.Log base parts
  marked : Marked true base
  opened : Parts (Entered g s₀ n s) base s.live parts
  marks : Marks g s₀ n (flat base parts)

variable {base part : List ExecTrace} {parts : List (List ExecTrace)}

omit [Keccak] [HashOrder] in
theorem traced_eq {t : ExecutiveTracer} (ht : s.host.observer.tracer = some t)
    (hlog : t.Log base parts) :
    s.traced = (flat base parts).length := by
  rw [traced, recordedActions, MultiObservers.actions, ht, ← hlog.length_traces]
  rfl

omit [Keccak] [HashOrder] in
theorem valid_transfers (l : List InternalTransfer) :
    ∀ e ∈ l.map InternalTransfer.entry, e.valid = true := by
  intro e he
  obtain ⟨x, -, rfl⟩ := List.mem_map.mp he
  rfl

/-- The live frames were entered when they were, also after a round in which no other one is
    begun. -/
theorem Traced.opened_next (h : Traced g s₀ n base parts s) (hnext : Next (step g) s s')
    (hphase : ∀ frame, s'.phase = .Enter frame → s.live.length ≤ s'.frame_stack.length) :
    Parts (Entered g s₀ (n + 1) s') base s.live parts :=
  h.opened.mono fun _ _ hd hentered => hentered.next h.steps hd
    (fun frame hframe => hd.trans_le (hphase frame hframe)) hnext

/-- A round in which no frame begins or ends records transfers in the part of the last frame. -/
theorem Traced.stay {frame frame' : CallCreateFrame} {rest : List CallCreateFrame}
    (h : Traced g s₀ n base parts s) (hnext : Next (step g) s s')
    (hshown : ShowsTransfers s.host s'.host) (hlive : s.live = frame :: rest)
    (hlive' : s'.live = frame' :: rest) (hcontext : frame'.context = frame.context)
    (hne : ∀ r, s'.phase ≠ .LastRes (.Return r))
    (hphase : ∀ frame, s'.phase = .Enter frame → s.live.length ≤ s'.frame_stack.length) :
    ∃ parts', Traced g s₀ (n + 1) base parts' s' := by
  have hparts := h.opened_next hnext hphase
  rw [hlive] at hparts
  obtain ⟨t, ht, hlog⟩ := h.log
  obtain ⟨l, hl⟩ := hshown
  obtain ⟨t', ht', hlog'⟩ := MultiObservers.log_shown ht hlog l
  rw [← hl] at ht'
  have hsteps : Steps (step g) (n + 1) s₀ s' := ⟨s, h.steps, hnext⟩
  cases parts with
  | nil => exact hparts.elim
  | cons part parts =>
    obtain ⟨⟨action, body, rfl, hopens, hbody⟩, hstart, hrest⟩ := hparts
    refine ⟨(recorded action :: body ++ l.map InternalTransfer.entry) :: parts, hsteps,
      ⟨t', ht', hlog'⟩,
      h.marked, ?_, ?_⟩
    · rw [hlive']
      exact ⟨⟨action, _, rfl, hcontext ▸ hopens, hbody.transfers l⟩, hstart, hrest⟩
    · have hflat : flat base ((recorded action :: body ++ l.map InternalTransfer.entry) :: parts) =
          flat base ((recorded action :: body) :: parts) ++ l.map InternalTransfer.entry :=
        (List.append_assoc _ _ _).symm
      rw [hflat]
      exact (h.marks.append (valid_transfers l)).next hsteps hne

omit [HashOrder] in
/-- The action that the beginning of a frame records, in a part of its own. -/
theorem opened_tracer {frame frame' : CallCreateFrame} {params : ActionParams} {exec : Exec}
    {h h₁ h' : Host State} {t : ExecutiveTracer}
    (hbegins : Begins g frame h params h₁ frame' exec h')
    (ht : h.observer.tracer = some t) :
    ∃ action, action.opens = some frame.context.is_create ∧
      h₁.observer.tracer = some (t.checkpoint.record action) := by
  have hcreate := hbegins.is_create
  have hobserver := hbegins.observer
  rw [hcreate] at hobserver
  cases hkind : frame.context.is_create with
  | true =>
    rw [hkind, if_pos rfl] at hobserver
    refine ⟨.of_create params, rfl, ?_⟩
    rw [hobserver, MultiObservers.record_create, ht]
    rfl
  | false =>
    rw [hkind, if_neg (by decide)] at hobserver
    refine ⟨.of_call params, ?_, ?_⟩
    · unfold Action.of_call
      split <;> rfl
    · rw [hobserver, MultiObservers.record_call, ht]
      rfl

/-- A frame that is entered opens a part of the log. -/
theorem Traced.enter {frame frame' : CallCreateFrame} {exec : Exec} {h' : Host State}
    (h : Traced g s₀ n base parts s) (hphase : s.phase = .Enter frame)
    (hrun : (frame.exec g).run (s.activate frame.substate).host = .ok (.ok (frame', exec), h'))
    (hnext : Next (step g) s { s with host := h', phase := .Execute frame' exec }) :
    ∃ parts', Traced g s₀ (n + 1) base parts'
        { s with host := h', phase := .Execute frame' exec } := by
  have hparts := h.opened_next hnext fun _ hp => by cases hp
  rw [live, hphase] at hparts
  obtain ⟨params, h₁, hbegins⟩ := frame_exec_inv hrun
  obtain ⟨t, ht, hlog⟩ := h.log
  obtain ⟨action, hopens, ht₁⟩ := opened_tracer hbegins ht
  obtain ⟨l, hl⟩ := (overlooks_transfers.pre_exec params g.spec _).of_run hbegins.pre_exec
  obtain ⟨t', ht', hlog'⟩ := MultiObservers.log_shown ht₁ (hlog.checkpoint.record action) l
  rw [← hl] at ht'
  have hframe := hbegins.frame_eq
  have hsteps : Steps (step g) (n + 1) s₀ { s with host := h', phase := .Execute frame' exec } :=
    ⟨s, h.steps, hnext⟩
  have hentered := entered_now h.steps hphase hnext fun _ hp => by cases hp
  rw [traced_eq ht hlog] at hentered
  refine ⟨(recorded action :: l.map InternalTransfer.entry) :: parts, hsteps, ⟨t', ht', hlog'⟩,
    h.marked, ⟨⟨action, _, rfl, ?_, Marked.nil.transfers l⟩, hentered, hparts⟩, ?_⟩
  · rw [hframe]
    exact hopens
  · have hvalid : ∀ e ∈ recorded action :: l.map InternalTransfer.entry, e.valid = true := by
      intro e he
      rcases List.mem_cons.mp he with rfl | he
      · rfl
      · exact valid_transfers l e he
    exact (h.marks.append hvalid).next hsteps fun _ hp => by cases hp

/-- The transfers that are shown until the result of a frame is recorded. -/
theorem shown_of_return {frame : CallCreateFrame} {exec : Exec} {result : Except VmError GasLeft}
    {fin : Except VmError FinalizationResult} {substate : Option Substate} {h h₁ h₂ h₃ : Host State}
    (hrun : (exec.step g frame.context).run h = .ok (.ok (.Output (.Return result)), h₁))
    (hfin : (finalize g frame.context result).run h₁ = .ok (fin, h₂))
    (hclose : (frame.close (applied fin)).run h₂ = .ok (.ok substate, h₃)) :
    ShowsTransfers h h₃ := by
  have hstep : ShowsTransfers h h₁ :=
    (overlooks_transfers.exec_step (fun _ _ => ⟨[], rfl⟩) exec).of_run hrun
  have hfinal : ShowsTransfers h₁ h₂ := (overlooks_transfers.finalize result).of_run hfin
  have hclosed : ShowsTransfers h₂ h₃ := (overlooks_transfers.close frame _).of_run hclose
  exact IsTrans.trans _ _ _ hstep (IsTrans.trans _ _ _ hfinal hclosed)

/-- The result of a frame closes its part of the log. -/
theorem Traced.returns {frame : CallCreateFrame} {exec : Exec} {result : Except VmError GasLeft}
    {r : Except VmError FrameReturn} {h₁ h' : Host State} (h : Traced g s₀ n base parts s)
    (hphase : s.phase = .Execute frame exec)
    (hrun : (exec.step g frame.context).run s.host = .ok (.ok (.Output (.Return result)), h₁))
    (hret : (frame.process_return g result).run h₁ = .ok (.ok r, h'))
    (hnext : Next (step g) s { s with host := h', phase := .LastRes (.Return r) }) :
    ∃ base' parts',
      Traced g s₀ (n + 1) base' parts' { s with host := h', phase := .LastRes (.Return r) } := by
  have hparts := h.opened_next hnext fun _ hp => (nomatch hp)
  rw [live, hphase] at hparts
  obtain ⟨fin, h₂, substate, h₃, hends⟩ := process_return_inv hret
  obtain ⟨t, ht, hlog⟩ := h.log
  obtain ⟨l, hl⟩ := shown_of_return hrun hends.finalize hends.close
  obtain ⟨t₃, ht₃, hlog₃⟩ := MultiObservers.log_shown ht hlog l
  rw [← hl] at ht₃
  cases parts with
  | nil => exact hparts.elim
  | cons part parts =>
    obtain ⟨⟨action, body, rfl, hopens, hbody⟩, hentered, hrest⟩ := hparts
    -- The tracer records the result, of the kind of the frame.
    have hresult : ∃ a t', a.closes = some (frame.context.is_create, frame_applied r) ∧
        t₃.record_result a (frame_applied r) = .ok t' ∧ h'.observer.tracer = some t' := by
      have hobserver := hends.observer
      cases hkind : frame.context.is_create with
      | true =>
        rw [hkind, if_pos rfl] at hobserver
        obtain ⟨a, t', ha, hrec, ht'⟩ := record_result_tracer ht₃ hobserver
        exact ⟨a, t', of_create_result_closes ha, hrec, ht'⟩
      | false =>
        rw [hkind, if_neg (by decide)] at hobserver
        obtain ⟨a, t', ha, hrec, ht'⟩ := record_result_tracer ht₃ hobserver
        exact ⟨a, t', of_call_result_closes ha, hrec, ht'⟩
    obtain ⟨a, t', hcloses, hrec, ht'⟩ := hresult
    obtain ⟨t'', hrec', hlog'⟩ := hlog₃.record_result a (frame_applied r)
    rw [hrec] at hrec'
    cases hrec'
    have hsteps : Steps (step g) (n + 1) s₀ { s with host := h', phase := .LastRes (.Return r) } :=
      ⟨s, h.steps, hnext⟩
    have hbody' := hbody.transfers l
    obtain ⟨hbase', hparts'⟩ := Parts.joined hrest h.marked fun m hm =>
      hm.closed hopens hbody' hcloses
    refine ⟨_, _, hsteps, ⟨t', ht', hlog'⟩, hbase', hparts', ?_⟩
    rw [flat_joined]
    have hvalid : ∀ e ∈ l.map InternalTransfer.entry ++ [recorded a], e.valid = true := by
      intro e he
      rcases List.mem_append.mp he with he | he
      · exact valid_transfers l e he
      · rw [List.mem_singleton.mp he]
        rfl
    have hmarks := h.marks.append hvalid
    have hflat : flat base ((recorded action :: body) :: parts) ++
        (l.map InternalTransfer.entry ++ [recorded a]) = flat base parts ++
          (recorded action :: body ++ l.map InternalTransfer.entry ++ [recorded a]) := by
      rw [List.append_assoc (recorded action :: body)]
      exact List.append_assoc _ _ _
    rw [hflat] at hmarks
    have htraced := traced_eq (s := { s with host := h', phase := .LastRes (.Return r) }) ht' hlog'
    rw [flat_joined, List.length_append, length_settled, ← List.length_append] at htraced
    refine hmarks.closed fun i r' => ?_
    have hcovers := covers_returned (i := i) (r := r') hsteps rfl hentered
    rw [htraced] at hcovers
    exact hcovers

/-- Every round keeps the log. -/
theorem Traced.round (h : Traced g s₀ n base parts s) (hnext : Next (step g) s s') :
    ∃ base' parts', Traced g s₀ (n + 1) base' parts' s' := by
  cases round_of_next hnext with
  | @enter frame frame' exec h' hphase hrun => exact ⟨base, h.enter hphase hrun hnext⟩
  | @go_on frame exec exec' h' hphase hrun =>
    have hshown : ShowsTransfers s.host h' :=
      (overlooks_transfers.exec_step (fun _ _ => ⟨[], rfl⟩) exec).of_run hrun
    have hlive : s.live = frame :: s.frame_stack := by rw [live, hphase]; rfl
    exact ⟨base, h.stay hnext hshown hlive rfl rfl (fun _ hp => by cases hp)
      fun _ hp => by cases hp⟩
  | @returns frame exec result r h₁ h' hphase hrun hret => exact h.returns hphase hrun hret hnext
  | @traps frame exec kind resume h' hphase hrun =>
    have hshown : ShowsTransfers s.host h' :=
      (overlooks_transfers.exec_step (fun _ _ => ⟨[], rfl⟩) exec).of_run hrun
    have hlive : s.live = frame :: s.frame_stack := by rw [live, hphase]; rfl
    exact ⟨base, h.stay hnext hshown hlive rfl rfl (fun _ hp => by cases hp)
      fun _ hp => by cases hp⟩
  | @calls kind caller hphase =>
    have hlive : s.live = caller :: s.frame_stack := by rw [live, hphase]; rfl
    refine ⟨base, h.stay hnext ⟨[], rfl⟩ hlive rfl rfl (fun _ hp => by cases hp) fun _ _ => ?_⟩
    rw [hlive]
    exact le_rfl
  | @resumes r parent parent' rest exec hphase hstack hresume =>
    obtain ⟨-, rfl⟩ := resume_inv hresume
    have hlive : s.live = parent :: rest := by rw [live, hphase, hstack]; rfl
    exact ⟨base, h.stay hnext ⟨[], rfl⟩ hlive rfl rfl (fun _ hp => by cases hp)
      fun _ hp => by cases hp⟩

/-- While a frame runs, its checkpoint is open. -/
theorem Traced.checkpointOpen {frame : CallCreateFrame} {exec : Exec}
    {result : Except VmError GasLeft} {fin : Except VmError FinalizationResult}
    {substate : Option Substate} {h₁ h₂ h₃ : Host State} (h : Traced g s₀ n base parts s)
    (hphase : s.phase = .Execute frame exec)
    (hrun : (exec.step g frame.context).run s.host = .ok (.ok (.Output (.Return result)), h₁))
    (hfin : (finalize g frame.context result).run h₁ = .ok (fin, h₂))
    (hclose : (frame.close (applied fin)).run h₂ = .ok (.ok substate, h₃)) :
    h₃.observer.CheckpointOpen := by
  have hparts := h.opened
  rw [live, hphase] at hparts
  obtain ⟨t, ht, hlog⟩ := h.log
  obtain ⟨l, hl⟩ := shown_of_return hrun hfin hclose
  obtain ⟨t₃, ht₃, hlog₃⟩ := MultiObservers.log_shown ht hlog l
  rw [← hl] at ht₃
  cases parts with
  | nil => exact hparts.elim
  | cons part parts => exact CfxEvm.checkpointOpen ht₃ hlog₃.checkpoints

/-- The log of any stack that is reached from one whose log was valid as a whole. -/
theorem traced_of_steps {t : ExecutiveTracer} (ht : s₀.host.observer.tracer = some t)
    (hlog : t.Log base []) (hmarked : Marked true base) (hvalid : ∀ e ∈ base, e.valid = true)
    (hlive : s₀.live = []) (hsteps : Steps (step g) n s₀ s) :
    ∃ base' parts', Traced g s₀ n base' parts' s := by
  induction n generalizing s with
  | zero =>
    obtain rfl := hsteps
    refine ⟨base, [], rfl, ⟨t, ht, hlog⟩, hmarked, ?_, ?_, ?_⟩
    · rw [hlive]
      trivial
    · intro i e he
      exact iff_of_true (hvalid e (List.mem_of_getElem? he)) fun _ hr => absurd hr not_covers_zero
    · exact fun _ _ hr => absurd hr not_covers_zero
  | succ n ih =>
    obtain ⟨s₁, hsteps₁, hnext⟩ := hsteps
    obtain ⟨base₁, parts₁, htraced⟩ := ih hsteps₁
    exact htraced.round hnext

end FrameStack

end

end CfxEvm
