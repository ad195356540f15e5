import CfxEvm.Lib.Safe
import Mathlib.Logic.Relation

/-!
# Loops without a bound

A loop is given by the program of one round, which ends with `none` when there is another round to
come. `loop x n` runs at most `n` rounds. What a loop does is what its rounds do one after another
(`Next`), so an invariant of the rounds is one of the loop, and a measure that every round
decreases bounds the number of rounds.
-/

namespace Lib

namespace Prog

variable {π σ ε α : Type}

/-- At most `n` rounds of `x`; `none` if that is not enough. -/
def loop (x : Prog π σ ε (Option α)) : Nat → Prog π σ ε (Option α)
  | 0 => pure none
  | n + 1 => do
    match ← x with
    | some a => pure (some a)
    | none => loop x n

/-- One round after which there is another one to come. -/
def Next (x : Prog π σ ε (Option α)) (s s' : σ) : Prop := x.run s = .ok (.ok none, s')

/-- Some number of rounds. -/
abbrev Rounds (x : Prog π σ ε (Option α)) : σ → σ → Prop := Relation.ReflTransGen (Next x)

variable {x : Prog π σ ε (Option α)} {s s' : σ}

theorem run_loop_succ (n : Nat) (s : σ) :
    (loop x (n + 1)).run s = match x.run s with
      | .error p => .error p
      | .ok (.error e, s') => .ok (.error e, s')
      | .ok (.ok (some a), s') => .ok (.ok (some a), s')
      | .ok (.ok none, s') => (loop x n).run s' := by
  rw [show loop x (n + 1) = x >>= _ from rfl, run_bind]
  rcases x.run s with p | ⟨_ | _ | a, s'⟩ <;> rfl

/-- More rounds than needed change nothing. -/
theorem run_loop_of_le {n m : Nat} {a : α} (h : (loop x n).run s = .ok (.ok (some a), s'))
    (hle : n ≤ m) :
    (loop x m).run s = .ok (.ok (some a), s') := by
  induction n generalizing m s with
  | zero => cases h
  | succ n ih =>
    obtain ⟨m, rfl⟩ : ∃ k, m = k + 1 := ⟨m - 1, by omega⟩
    rw [run_loop_succ] at h ⊢
    rcases hx : x.run s with p | ⟨_ | _ | b, s₁⟩ <;> rw [hx] at h
    · cases h
    · cases h
    · exact ih h (by omega)
    · exact h

/-- What every round keeps is kept by any number of them. -/
theorem Rounds.invariant {I : σ → Prop} (hI : ∀ s s', I s → Next x s s' → I s') (h : I s)
    (hr : Rounds x s s') : I s' := by
  induction hr with
  | refl => exact h
  | tail _ hstep ih => exact hI _ _ ih hstep

/-- A loop that returned went through some rounds; the last one returned, unless there were too
    many. -/
theorem rounds_of_loop {n : Nat} {r : Except ε (Option α)} (h : (loop x n).run s = .ok (r, s')) :
    r = .ok none ∨ ∃ s₁, Rounds x s s₁ ∧ x.run s₁ = .ok (r, s') := by
  induction n generalizing s with
  | zero => exact .inl (Prod.mk.inj (Except.ok.inj h)).1.symm
  | succ n ih =>
    rw [run_loop_succ] at h
    rcases hx : x.run s with p | ⟨_ | _ | a, s₁⟩ <;> rw [hx] at h
    · exact absurd h (by simp)
    · exact .inr ⟨s, .refl, hx.trans h⟩
    · rcases ih h with hn | ⟨s₂, hr, hs₂⟩
      · exact .inl hn
      · exact .inr ⟨s₂, .head hx hr, hs₂⟩
    · exact .inr ⟨s, .refl, hx.trans h⟩

/-- A loop that panicked did so in one of its rounds. -/
theorem rounds_of_loop_panic {n : Nat} {p : π} (h : (loop x n).run s = .error p) :
    ∃ s₁, Rounds x s s₁ ∧ x.run s₁ = .error p := by
  induction n generalizing s with
  | zero => exact absurd h (by simp [loop])
  | succ n ih =>
    rw [run_loop_succ] at h
    rcases hx : x.run s with p' | ⟨_ | _ | a, s₁⟩ <;> rw [hx] at h
    · exact ⟨s, .refl, hx.trans h⟩
    · exact absurd h (by simp)
    · obtain ⟨s₂, hr, hs₂⟩ := ih h
      exact ⟨s₂, .head hx hr, hs₂⟩
    · exact absurd h (by simp)

/-- A loop panics and fails only as the rounds that are reached do. -/
theorem tame_loop {E : π → Prop} {F : ε → Prop}
    (hx : ∀ s', Rounds x s s' → Tame E F x s') (n : Nat) :
    Tame E F (loop x n) s := by
  refine wp_intro (fun p hp => ?_) ?_
  · obtain ⟨s₁, hrounds, hpanic⟩ := rounds_of_loop_panic hp
    exact wp_of_panic (hx s₁ hrounds) hpanic
  · rintro _ s' hrun e rfl
    rcases rounds_of_loop hrun with hnone | ⟨s₁, hrounds, herror⟩
    · cases hnone
    · exact wp_of_run (hx s₁ hrounds) herror e rfl

/-- If a round keeps `I` when there is another one to come, and `Q` however it ends, the loop keeps
    `Q`. -/
theorem wp_loop {E : π → Prop} {I Q : σ → Prop}
    (hx : ∀ s, I s → wp x E (fun r s' => Q s' ∧ (r = .ok none → I s')) s)
    (hQ : ∀ s, I s → Q s) (n : Nat)
    (h : I s) : wp (loop x n) E (fun _ s' => Q s') s := by
  induction n generalizing s with
  | zero => exact hQ s h
  | succ n ih =>
    refine wp_bind.mpr (wp_post (hx s h) ?_)
    rintro (e | _ | a) s' ⟨hs', hnext⟩
    · exact hs'
    · exact ih (hnext rfl)
    · exact hs'

/-! ## Numbered rounds -/

/-- Exactly so many rounds. -/
def Steps (x : Prog π σ ε (Option α)) : Nat → σ → σ → Prop
  | 0, s, s' => s = s'
  | n + 1, s, s' => ∃ s₁, Steps x n s s₁ ∧ Next x s₁ s'

theorem Steps.unique {n : Nat} {a b : σ} (ha : Steps x n s a) (hb : Steps x n s b) : a = b := by
  induction n generalizing a b with
  | zero => exact ha.symm.trans hb
  | succ n ih =>
    obtain ⟨a', ha', hnexta⟩ := ha
    obtain ⟨b', hb', hnextb⟩ := hb
    obtain rfl := ih ha' hb'
    exact (Prod.mk.inj (Except.ok.inj (hnexta.symm.trans hnextb))).2

theorem Steps.rounds {n : Nat} (h : Steps x n s s') : Rounds x s s' := by
  induction n generalizing s' with
  | zero => exact h ▸ .refl
  | succ n ih =>
    obtain ⟨s₁, hsteps, hnext⟩ := h
    exact (ih hsteps).tail hnext

theorem Rounds.steps (h : Rounds x s s') : ∃ n, Steps x n s s' := by
  induction h with
  | refl => exact ⟨0, rfl⟩
  | tail _ hnext ih =>
    obtain ⟨n, hn⟩ := ih
    exact ⟨n + 1, _, hn, hnext⟩

theorem Steps.trans {m n : Nat} {a b : σ} (ha : Steps x m s a) (hb : Steps x n a b) :
    Steps x (m + n) s b := by
  induction n generalizing b with
  | zero => exact hb ▸ ha
  | succ n ih =>
    obtain ⟨b', hb', hnext⟩ := hb
    exact ⟨b', ih hb', hnext⟩

theorem Steps.split {m n : Nat} {b : σ} (h : Steps x (m + n) s b) :
    ∃ a, Steps x m s a ∧ Steps x n a b := by
  induction n generalizing b with
  | zero => exact ⟨b, h, rfl⟩
  | succ n ih =>
    obtain ⟨b', hb', hnext⟩ := h
    obtain ⟨a, ha, hrest⟩ := ih hb'
    exact ⟨a, ha, b', hrest, hnext⟩

/-- Where there is no next round, no more rounds were made. -/
theorem Steps.le_of_last {m n : Nat} {a b : σ} (ha : Steps x m s a) (hlast : ∀ s', ¬Next x a s')
    (hb : Steps x n s b) : n ≤ m := by
  by_contra hlt
  obtain ⟨k, rfl⟩ : ∃ k, n = m + (1 + k) := ⟨n - m - 1, by omega⟩
  obtain ⟨a', ha', hrest⟩ := hb.split
  obtain rfl := ha.unique ha'
  obtain ⟨c, ⟨_, rfl, hnext⟩, -⟩ := hrest.split
  exact hlast c hnext

section
variable {I : σ → Prop} {μ : σ → Nat}

/-- If every round makes the measure smaller, as many rounds as it says are enough. -/
theorem loop_ends (hμ : ∀ s s', I s → Next x s s' → I s' ∧ μ s' < μ s) {n : Nat} (h : I s)
    (hn : μ s < n) : (loop x n).run s ≠ .ok (.ok none, s') := by
  induction n generalizing s with
  | zero => omega
  | succ n ih =>
    rw [run_loop_succ]
    rcases hx : x.run s with p | ⟨_ | _ | a, s₁⟩
    · simp
    · simp
    · obtain ⟨h₁, hlt⟩ := hμ s s₁ h hx
      exact ih h₁ (by omega)
    · simp

/-- After at least one round the measure is smaller. -/
theorem measure_lt_of_rounds (hμ : ∀ s s', I s → Next x s s' → I s' ∧ μ s' < μ s) (h : I s)
    (hr : Relation.TransGen (Next x) s s') : I s' ∧ μ s' < μ s := by
  induction hr with
  | single hstep => exact hμ _ _ h hstep
  | tail _ hstep ih =>
    obtain ⟨h₁, hlt₁⟩ := ih
    obtain ⟨h₂, hlt₂⟩ := hμ _ _ h₁ hstep
    exact ⟨h₂, by omega⟩

end

end Prog

end Lib
