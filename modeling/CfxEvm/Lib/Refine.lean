import CfxEvm.Lib.Prog

/-!
# Data refinement and stacks of snapshots

A program over concrete states refines one over abstract states if, run from related states, both
panic at the same site or both return, with related values (or the same error) and related states.
The rules follow the structure of the programs.

The second part is the abstract machine that a store with checkpoints stands for: a current value
and a stack of full copies of it.
-/

namespace Lib

namespace Prog

variable {π σ τ ε α β γ δ : Type}

/-- What it means for the outcomes of the two programs to be related. -/
inductive OutcomeRel (rel : σ → τ → Prop) (R : α → β → Prop) :
    Except π (Except ε α × σ) → Except π (Except ε β × τ) → Prop
  | panic (p : π) : OutcomeRel rel R (.error p) (.error p)
  | err (e : ε) {s : σ} {t : τ} (hrel : rel s t) :
      OutcomeRel rel R (.ok (.error e, s)) (.ok (.error e, t))
  | ok {a : α} {b : β} {s : σ} {t : τ} (h : R a b) (hrel : rel s t) :
      OutcomeRel rel R (.ok (.ok a, s)) (.ok (.ok b, t))

/-- `x` refines `y`: related states lead to related outcomes. -/
def Refines (rel : σ → τ → Prop) (R : α → β → Prop) (x : Prog π σ ε α) (y : Prog π τ ε β) :
    Prop :=
  ∀ s t, rel s t → OutcomeRel rel R (x.run s) (y.run t)

section
variable {rel : σ → τ → Prop} {R : α → β → Prop} {R' : γ → δ → Prop}

theorem Refines.pure {a : α} {b : β} (h : R a b) :
    Refines rel R (Pure.pure a : Prog π σ ε α) (Pure.pure b : Prog π τ ε β) :=
  fun _ _ hst => .ok h hst

theorem Refines.fail (e : ε) :
    Refines rel R (Prog.fail e : Prog π σ ε α) (Prog.fail e : Prog π τ ε β) :=
  fun _ _ hst => .err e hst

theorem Refines.abort (p : π) :
    Refines rel R (Prog.abort p : Prog π σ ε α) (Prog.abort p : Prog π τ ε β) :=
  fun _ _ _ => .panic p

theorem Refines.gets {f : σ → α} {g : τ → β} (h : ∀ s t, rel s t → R (f s) (g t)) :
    Refines rel R (Prog.gets f : Prog π σ ε α) (Prog.gets g : Prog π τ ε β) :=
  fun s t hst => .ok (h s t hst) hst

theorem Refines.bind {x : Prog π σ ε α} {y : Prog π τ ε β} {f : α → Prog π σ ε γ}
    {g : β → Prog π τ ε δ} (hx : Refines rel R x y)
    (hf : ∀ a b, R a b → Refines rel R' (f a) (g b)) :
    Refines rel R' (x >>= f) (y >>= g) := by
  intro s t hst
  have h := hx s t hst
  rw [run_bind, run_bind]
  generalize x.run s = o, y.run t = o' at h
  cases h with
  | panic p => exact .panic p
  | err e hrel => exact .err e hrel
  | ok h hrel => exact hf _ _ h _ _ hrel

theorem Refines.ite {c : Prop} [Decidable c] {x x' : Prog π σ ε α} {y y' : Prog π τ ε β}
    (hx : c → Refines rel R x y) (hx' : ¬c → Refines rel R x' y') :
    Refines rel R (if c then x else x') (if c then y else y') := by
  split
  · exact hx ‹_›
  · exact hx' ‹_›

theorem Refines.when {c : Bool} {x : Prog π σ ε Unit} {y : Prog π τ ε Unit}
    (hx : c = true → Refines rel Eq x y) : Refines rel Eq (Prog.when c x) (Prog.when c y) := by
  cases c
  · exact .pure rfl
  · exact hx rfl

/-- What holds of the abstract program holds of the concrete one, up to the relation. -/
theorem Refines.wp {x : Prog π σ ε α} {y : Prog π τ ε α} (h : Refines rel Eq x y)
    {E : π → Prop} {Q : Except ε α → τ → Prop} {s : σ} {t : τ} (hst : rel s t)
    (hy : Prog.wp y E Q t) : Prog.wp x E (fun r s' => ∃ t', rel s' t' ∧ Q r t') s := by
  have hout := h s t hst
  unfold Prog.wp at hy ⊢
  generalize x.run s = o, y.run t = o' at hout hy
  cases hout with
  | panic p => exact hy
  | err e hrel => exact ⟨_, hrel, hy⟩
  | ok h hrel => exact ⟨_, hrel, h ▸ hy⟩

/-- A refining program returns what the abstract one returns. -/
theorem Refines.value_eq {x : Prog π σ ε α} {y : Prog π τ ε α} (h : Refines rel Eq x y)
    {s : σ} {t : τ} (hst : rel s t) : x.value s = y.value t := by
  have hout := h s t hst
  unfold value
  generalize x.run s = o, y.run t = o' at hout
  cases hout with
  | panic p => rfl
  | err e _ => rfl
  | ok h _ => rw [h]; rfl

/-- A refining program panics as the abstract one does, and leaves a related state. -/
theorem Refines.final_rel {x : Prog π σ ε α} {y : Prog π τ ε β} (h : Refines rel R x y)
    {s : σ} {t : τ} (hst : rel s t) :
    (∃ p, x.final s = .error p ∧ y.final t = .error p) ∨
      ∃ s' t', x.final s = .ok s' ∧ y.final t = .ok t' ∧ rel s' t' := by
  have hout := h s t hst
  unfold final
  generalize x.run s = o, y.run t = o' at hout
  cases hout with
  | panic p => exact .inl ⟨p, rfl, rfl⟩
  | err _ hrel => exact .inr ⟨_, _, rfl, rfl, hrel⟩
  | ok _ hrel => exact .inr ⟨_, _, rfl, rfl, hrel⟩

end

end Prog

/-! ## Stacks of snapshots -/

/-- A current value with the copies taken of it, the last one first. -/
structure Snapshots (α : Type) where
  cur : α
  saved : List α

/-- The commands of a store with checkpoints; `op i` is one of its plain operations. -/
inductive Cmd (ι : Type)
  | op (i : ι)
  | checkpoint
  | discard
  | revert

namespace Snapshots

variable {α ι π : Type}

/-- Goes back to the last copy, if there is one. -/
def reverted (x : Snapshots α) : Snapshots α :=
  match x.saved with
  | [] => x
  | old :: rest => ⟨old, rest⟩

/-- One command, over the effect `eff` of the plain operations. A plain operation sees and changes
    the current value alone. -/
def step (eff : ι → α → Except π α) (x : Snapshots α) : Cmd ι → Except π (Snapshots α)
  | .op i => (eff i x.cur).map fun cur => { x with cur := cur }
  | .checkpoint => .ok ⟨x.cur, x.cur :: x.saved⟩
  | .discard => .ok ⟨x.cur, x.saved.tail⟩
  | .revert => .ok x.reverted

/-- A sequence of commands. -/
def run (eff : ι → α → Except π α) (l : List (Cmd ι)) (x : Snapshots α) :
    Except π (Snapshots α) :=
  l.foldlM (step eff) x

end Snapshots

/-- Commands in which every checkpoint is closed, by `discard` or by `revert`. -/
inductive Balanced {ι : Type} : List (Cmd ι) → Prop
  | nil : Balanced []
  | op {i : ι} {l : List (Cmd ι)} (h : Balanced l) : Balanced (.op i :: l)
  | discard {b l : List (Cmd ι)} (hb : Balanced b) (h : Balanced l) :
      Balanced (.checkpoint :: (b ++ .discard :: l))
  | revert {b l : List (Cmd ι)} (hb : Balanced b) (h : Balanced l) :
      Balanced (.checkpoint :: (b ++ .revert :: l))

namespace Snapshots

variable {α ι π : Type} {eff : ι → α → Except π α}

@[simp] theorem run_nil (x : Snapshots α) : run eff [] x = .ok x := rfl

theorem run_cons (c : Cmd ι) (l : List (Cmd ι)) (x : Snapshots α) :
    run eff (c :: l) x = (step eff x c >>= run eff l) := rfl

theorem run_append (l l' : List (Cmd ι)) (x : Snapshots α) :
    run eff (l ++ l') x = (run eff l x >>= run eff l') := List.foldlM_append

@[simp] theorem run_checkpoint (l : List (Cmd ι)) (x : Snapshots α) :
    run eff (.checkpoint :: l) x = run eff l ⟨x.cur, x.cur :: x.saved⟩ := rfl

@[simp] theorem run_discard (l : List (Cmd ι)) (x : Snapshots α) :
    run eff (.discard :: l) x = run eff l ⟨x.cur, x.saved.tail⟩ := rfl

@[simp] theorem run_revert (l : List (Cmd ι)) (x : Snapshots α) :
    run eff (.revert :: l) x = run eff l x.reverted := rfl

/-- The current value and the copies have a property. -/
structure Hold (I : α → Prop) (x : Snapshots α) : Prop where
  cur : I x.cur
  saved : ∀ a ∈ x.saved, I a

/-- A property that the plain operations keep is kept by every command. -/
theorem Hold.step {I : α → Prop} {c : Cmd ι} {x y : Snapshots α} (h : x.Hold I)
    (hop : ∀ i, c = .op i → ∀ a b, eff i a = .ok b → I a → I b)
    (hstep : Snapshots.step eff x c = .ok y) : y.Hold I := by
  cases c with
  | op i =>
    simp only [Snapshots.step] at hstep
    rcases heff : eff i x.cur with p | cur
    · rw [heff] at hstep
      cases hstep
    · rw [heff] at hstep
      obtain rfl := Except.ok.inj hstep
      exact ⟨hop i rfl x.cur cur heff h.cur, h.saved⟩
  | checkpoint =>
    obtain rfl := Except.ok.inj hstep
    refine ⟨h.cur, fun a ha => ?_⟩
    rcases List.mem_cons.mp ha with rfl | ha
    · exact h.cur
    · exact h.saved a ha
  | discard =>
    obtain rfl := Except.ok.inj hstep
    exact ⟨h.cur, fun a ha => h.saved a (List.mem_of_mem_tail ha)⟩
  | revert =>
    obtain rfl := Except.ok.inj hstep
    unfold reverted
    rcases hsaved : x.saved with _ | ⟨old, rest⟩
    · exact h
    · refine ⟨h.saved old (by simp [hsaved]), fun a ha => h.saved a ?_⟩
      simp [hsaved, show a ∈ rest from ha]

/-- A balanced sequence leaves the copies alone, and does not depend on them. -/
theorem run_balanced {l : List (Cmd ι)} (h : Balanced l) (cur : α) :
    (∃ p, ∀ saved, run eff l ⟨cur, saved⟩ = .error p) ∨
      ∃ cur', ∀ saved, run eff l ⟨cur, saved⟩ = .ok ⟨cur', saved⟩ := by
  induction h generalizing cur with
  | nil => exact .inr ⟨cur, fun _ => rfl⟩
  | @op i l _ ih =>
    rcases he : eff i cur with p | cur₁
    · exact .inl ⟨p, fun saved => by rw [run_cons]; simp only [step, he]; rfl⟩
    · have hcons : ∀ saved, run eff (.op i :: l) ⟨cur, saved⟩ = run eff l ⟨cur₁, saved⟩ := by
        intro saved
        rw [run_cons]
        simp only [step, he]
        rfl
      simpa only [hcons] using ih cur₁
  | @discard b l _ _ ihb ih =>
    rcases ihb cur with ⟨p, hp⟩ | ⟨cur₁, h₁⟩
    · refine .inl ⟨p, fun saved => ?_⟩
      rw [run_checkpoint, run_append, hp]
      rfl
    · have hcons : ∀ saved, run eff (.checkpoint :: (b ++ .discard :: l)) ⟨cur, saved⟩ =
          run eff l ⟨cur₁, saved⟩ := by
        intro saved
        rw [run_checkpoint, run_append, h₁]
        rfl
      simpa only [hcons] using ih cur₁
  | @revert b l _ _ ihb ih =>
    rcases ihb cur with ⟨p, hp⟩ | ⟨cur₁, h₁⟩
    · refine .inl ⟨p, fun saved => ?_⟩
      rw [run_checkpoint, run_append, hp]
      rfl
    · have hcons : ∀ saved, run eff (.checkpoint :: (b ++ .revert :: l)) ⟨cur, saved⟩ =
          run eff l ⟨cur, saved⟩ := by
        intro saved
        rw [run_checkpoint, run_append, h₁]
        rfl
      simpa only [hcons] using ih cur

/-- A block that is reverted changes nothing. -/
theorem run_revert_block {b : List (Cmd ι)} (h : Balanced b) {x y : Snapshots α}
    (hrun : run eff (.checkpoint :: (b ++ [.revert])) x = .ok y) : y = x := by
  rw [run_checkpoint, run_append] at hrun
  rcases run_balanced h x.cur with ⟨p, hp⟩ | ⟨cur, hcur⟩
  · rw [hp] at hrun
    exact absurd hrun (by simp [bind, Except.bind])
  · rw [hcur] at hrun
    exact (Except.ok.inj hrun).symm

/-- A block whose checkpoint is discarded does what its commands do without the checkpoint. -/
theorem run_discard_block {b : List (Cmd ι)} (h : Balanced b) (rest : List (Cmd ι))
    (x : Snapshots α) :
    run eff (.checkpoint :: (b ++ .discard :: rest)) x = run eff (b ++ rest) x := by
  rw [run_checkpoint, run_append, run_append]
  rcases run_balanced h x.cur with ⟨p, hp⟩ | ⟨cur, hcur⟩
  · rw [hp, show x = ⟨x.cur, x.saved⟩ from rfl, hp]
    rfl
  · rw [hcur, show x = ⟨x.cur, x.saved⟩ from rfl, hcur]
    rfl

end Snapshots

end Lib
