import CfxEvm.Frame.Proofs.StackProofs

/-!
# Proofs: the course of a run

A `Course` says what is known of the frames while they run, in terms of a value that stands for the
host (such as the ledger), and how that value may change. A frame that is entered saves the value,
one that is not applied goes back to it; so what is known of a waiting frame has to last as the
value changes, and then it is known of every stack that is reached.
-/

open Lib Lib.Prog

namespace CfxEvm

/-- What is known of the frames of a stack, where a value of `α` stands for the host. -/
structure Course (α : Type) where
  /-- The value stands for the host, below the values saved by the open frames. -/
  stands : List α → Host State → α → Prop
  grows : α → α → Prop
  entering : CallCreateFrame → α → Prop
  running : CallCreateFrame → Exec → Substate → α → Prop
  asking : TrapKind → CallCreateFrame → α → Prop
  waiting : CallCreateFrame → α → Prop
  /-- What is known of the substate that an applied frame hands over. -/
  handed : Substate → Prop

variable [Keccak] [HashOrder] {g : Globals} {α : Type}

/-- What is known of a frame is found out when it is entered, and kept by every round from a stack
    with `I`. -/
structure Course.Kept (C : Course α) (g : Globals) (I : FrameStack → Prop) : Prop where
  refl : ∀ a, C.grows a a
  trans : ∀ {a b c}, C.grows a b → C.grows b c → C.grows a c
  /-- The substate of the running frame is no part of what the value stands for. -/
  activate : ∀ {saved h a} t, C.stands saved h a → C.stands saved { h with substate := t } a
  lasts : ∀ {frame a b}, C.waiting frame a → C.grows a b → C.waiting frame b
  enter : ∀ {s frame frame' exec saved a h'}, I s → s.phase = .Enter frame →
    C.entering frame a → C.stands saved (s.activate frame.substate).host a →
    (frame.exec g).run (s.activate frame.substate).host = .ok (.ok (frame', exec), h') →
    ∃ b, C.stands (a :: saved) h' b ∧ C.grows a b ∧ C.running frame' exec h'.substate b
  go_on : ∀ {s frame exec exec' saved a h'}, I s → s.phase = .Execute frame exec →
    C.running frame exec s.host.substate a → C.stands saved s.host a →
    (exec.step g frame.context).run s.host = .ok (.ok (.Continue exec'), h') →
    ∃ b, C.stands saved h' b ∧ C.grows a b ∧ C.running frame exec' h'.substate b
  returns : ∀ {s frame exec result r old saved a h₁ h'}, I s → s.phase = .Execute frame exec →
    C.running frame exec s.host.substate a → C.stands (old :: saved) s.host a → C.grows old a →
    (exec.step g frame.context).run s.host = .ok (.ok (.Output (.Return result)), h₁) →
    (frame.process_return g result).run h₁ = .ok (.ok r, h') →
    ∃ b, C.stands saved h' b ∧ C.grows old b ∧
      (frame_applied r = false → b = old ∧ returnedSubstate r = none) ∧
      ∀ t, returnedSubstate r = some t → C.handed t
  traps : ∀ {s frame exec kind resume saved a h'}, I s → s.phase = .Execute frame exec →
    C.running frame exec s.host.substate a → C.stands saved s.host a →
    (exec.step g frame.context).run s.host =
      .ok (.ok (.Output (.SubCallCreate kind resume)), h') →
    ∃ b, C.stands saved h' b ∧ C.grows a b ∧
      C.asking kind (frame.process_trap kind resume h'.substate) b
  calls : ∀ {kind caller a}, C.asking kind caller a →
    C.waiting caller a ∧ C.entering (.from_trap_error g kind caller) a
  resumes : ∀ {parent parent' r exec a}, C.waiting parent a →
    (∀ t, returnedSubstate r = some t → C.handed t) → parent.resume r = .ok (parent', exec) →
    C.running parent' exec parent'.substate a

/-- The waiting frames `T` with the values they saved, when the last of them began a frame above it
    at `a`; the frame at the bottom was entered at `a₀`. -/
def Course.Begun (C : Course α) (a₀ : α) : List CallCreateFrame → List α → α → Prop
  | [], [], a => a = a₀
  | f :: T, v :: vs, a => C.waiting f a ∧ C.grows v a ∧ C.Begun a₀ T vs v
  | _, _, _ => False

/-- What is known of the current frame, and of those that wait. -/
def Course.PhaseFollows (C : Course α) (a₀ : α) (T : List CallCreateFrame) (vs : List α) (a : α)
    (s : FrameStack) : Prop :=
  match s.phase with
  | .Enter frame => C.entering frame a ∧ C.Begun a₀ T vs a
  | .Execute frame exec => C.running frame exec s.host.substate a ∧
      ∃ old rest, vs = old :: rest ∧ C.grows old a ∧ C.Begun a₀ T rest old
  | .LastRes (.SubCallCreate kind caller) => C.asking kind caller a ∧
      ∃ old rest, vs = old :: rest ∧ C.grows old a ∧ C.Begun a₀ T rest old
  | .LastRes (.Return r) => ∃ old, C.Begun a₀ T vs old ∧ C.grows old a ∧
      (frame_applied r = false → a = old ∧ returnedSubstate r = none) ∧
      ∀ t, returnedSubstate r = some t → C.handed t

/-- A frame was entered on top of the frames `base` at the value `a₀`. Now the frames `T` wait above
    those, the values `vs` were saved since, and the current one is `a`. -/
structure Course.FollowsBy (C : Course α) (saved : List α) (a₀ : α) (base : List CallCreateFrame)
    (tx : Substate) (T : List CallCreateFrame) (vs : List α) (a : α) (s : FrameStack) : Prop where
  stack : s.frame_stack = T ++ base
  tx_substate : s.tx_substate = tx
  stands : C.stands (vs ++ saved) s.host a
  phase : C.PhaseFollows a₀ T vs a s

/-- The same, whichever frames are waiting. -/
def Course.Follows (C : Course α) (saved : List α) (a₀ : α) (base : List CallCreateFrame)
    (tx : Substate) (s : FrameStack) : Prop :=
  ∃ T vs a, C.FollowsBy saved a₀ base tx T vs a s

namespace Course

variable {C : Course α} {I : FrameStack → Prop} {saved : List α} {a₀ : α}
  {base : List CallCreateFrame} {tx : Substate} {s s' : FrameStack}

section
omit [Keccak] [HashOrder]

theorem follows_enter {frame : CallCreateFrame} (hphase : s.phase = .Enter frame)
    (hstands : C.stands saved s.host a₀) (henter : C.entering frame a₀) :
    C.Follows saved a₀ s.frame_stack s.tx_substate s := by
  refine ⟨[], [], a₀, rfl, rfl, hstands, ?_⟩
  simp only [PhaseFollows, hphase]
  exact ⟨henter, rfl⟩

/-- Each of the frames that wait is known to wait, at the value at which it began another one. -/
theorem Begun.waiting {T : List CallCreateFrame} {vs : List α} {a : α} (h : C.Begun a₀ T vs a) :
    ∀ frame ∈ T, ∃ b, C.waiting frame b := by
  induction T generalizing vs a with
  | nil => exact fun _ hmem => nomatch hmem
  | cons f T ih =>
    cases vs with
    | nil => exact h.elim
    | cons v vs =>
      obtain ⟨hwaiting, -, hbegun⟩ := h
      intro frame hmem
      rcases List.mem_cons.mp hmem with rfl | hmem
      · exact ⟨a, hwaiting⟩
      · exact ih hbegun frame hmem

/-- So are all frames on the stack. -/
theorem FollowsBy.waiting {T : List CallCreateFrame} {vs : List α} {a : α}
    (h : C.FollowsBy saved a₀ base tx T vs a s) : ∀ frame ∈ T, ∃ b, C.waiting frame b := by
  have hp := h.phase
  unfold PhaseFollows at hp
  split at hp
  · exact hp.2.waiting
  · obtain ⟨-, old, rest, -, -, hbegun⟩ := hp
    exact hbegun.waiting
  · obtain ⟨-, old, rest, -, -, hbegun⟩ := hp
    exact hbegun.waiting
  · obtain ⟨old, hbegun, -⟩ := hp
    exact hbegun.waiting

end

/-- Every round up to the result of the frame is followed. -/
theorem Follows.round (h : C.Follows saved a₀ base tx s) (hC : C.Kept g I) (hI : I s)
    (hnot : ¬s.Returned base.length) (hround : Round g s s') : C.Follows saved a₀ base tx s' := by
  obtain ⟨T, vs, a, h⟩ := h
  have hp := h.phase
  cases hround with
  | @enter frame frame' exec h' hphase hrun =>
    simp only [PhaseFollows, hphase] at hp
    obtain ⟨henter, hbegun⟩ := hp
    obtain ⟨b, hstands, hgrows, hrunning⟩ :=
      hC.enter hI hphase henter (hC.activate frame.substate h.stands) hrun
    exact ⟨T, a :: vs, b, h.stack, h.tx_substate, hstands, hrunning, a, vs, rfl, hgrows, hbegun⟩
  | @go_on frame exec exec' h' hphase hrun =>
    simp only [PhaseFollows, hphase] at hp
    obtain ⟨hrunning, old, rest, rfl, hold, hbegun⟩ := hp
    obtain ⟨b, hstands, hgrows, hrunning'⟩ := hC.go_on hI hphase hrunning h.stands hrun
    exact ⟨T, old :: rest, b, h.stack, h.tx_substate, hstands, hrunning', old, rest, rfl,
      hC.trans hold hgrows, hbegun⟩
  | @returns frame exec result r h₁ h' hphase hrun hret =>
    simp only [PhaseFollows, hphase] at hp
    obtain ⟨hrunning, old, rest, rfl, hold, hbegun⟩ := hp
    obtain ⟨b, hstands, hgrows, hunapplied, hhanded⟩ :=
      hC.returns hI hphase hrunning h.stands hold hrun hret
    exact ⟨T, rest, b, h.stack, h.tx_substate, hstands, old, hbegun, hgrows, hunapplied, hhanded⟩
  | @traps frame exec kind resume h' hphase hrun =>
    simp only [PhaseFollows, hphase] at hp
    obtain ⟨hrunning, old, rest, rfl, hold, hbegun⟩ := hp
    obtain ⟨b, hstands, hgrows, hasking⟩ := hC.traps hI hphase hrunning h.stands hrun
    exact ⟨T, old :: rest, b, h.stack, h.tx_substate, hstands, hasking, old, rest, rfl,
      hC.trans hold hgrows, hbegun⟩
  | @calls kind caller hphase =>
    simp only [PhaseFollows, hphase] at hp
    obtain ⟨hasking, old, rest, rfl, hold, hbegun⟩ := hp
    obtain ⟨hwaiting, hentering⟩ := hC.calls hasking
    exact ⟨caller :: T, old :: rest, a, congrArg (caller :: ·) h.stack, h.tx_substate, h.stands,
      hentering, hwaiting, hold, hbegun⟩
  | @resumes r parent parent' rest exec hphase hstack hresume =>
    simp only [PhaseFollows, hphase] at hp
    obtain ⟨old, hbegun, hold, -, hhanded⟩ := hp
    have hst := h.stack
    rw [hstack] at hst
    -- The frame itself has no result yet, so the parent is one of those that wait above `base`.
    cases T with
    | nil =>
      refine absurd ⟨?_, r, hphase⟩ hnot
      rw [h.stack, List.nil_append]
    | cons f T =>
      obtain ⟨rfl, rfl⟩ := List.cons.inj hst
      cases vs with
      | nil => exact hbegun.elim
      | cons v vs =>
        obtain ⟨hwaiting, hv, hbegun'⟩ := hbegun
        refine ⟨T, v :: vs, a, rfl, h.tx_substate, hC.activate _ h.stands, ?_⟩
        exact ⟨hC.resumes (hC.lasts hwaiting hold) hhanded hresume, v, vs, rfl, hC.trans hv hold,
          hbegun'⟩

/-- So is the whole run of the frame. -/
theorem Follows.inside (h : C.Follows saved a₀ base tx s) (hC : C.Kept g I)
    (hI : ∀ s₁, FrameStack.Inside g base.length s s₁ → I s₁)
    (hrun : FrameStack.Inside g base.length s s') : C.Follows saved a₀ base tx s' := by
  induction hrun with
  | refl => exact h
  | tail hrun hstep ih => exact ih.round hC (hI _ hrun) hstep.1 (round_of_next hstep.2)

omit [Keccak] [HashOrder] in
/-- When the frame has its result, the value has grown; if it is not applied, it is the one at its
    beginning. -/
theorem Follows.returned (h : C.Follows saved a₀ base tx s)
    (hlen : s.frame_stack.length = base.length) {r : Except VmError FrameReturn}
    (hphase : s.phase = .LastRes (.Return r)) :
    ∃ a, C.stands saved s.host a ∧ C.grows a₀ a ∧
      (frame_applied r = false → a = a₀ ∧ returnedSubstate r = none) ∧
      ∀ t, returnedSubstate r = some t → C.handed t := by
  obtain ⟨T, vs, a, h⟩ := h
  have hp := h.phase
  simp only [PhaseFollows, hphase] at hp
  have hT : T = [] := by
    rw [h.stack, List.length_append] at hlen
    exact List.length_eq_zero_iff.mp (by omega)
  subst hT
  obtain ⟨old, hbegun, hgrows, hunapplied, hhanded⟩ := hp
  cases vs with
  | nil =>
    obtain rfl : old = a₀ := hbegun
    exact ⟨a, h.stands, hgrows, hunapplied, hhanded⟩
  | cons v vs => exact hbegun.elim

end Course

end CfxEvm
