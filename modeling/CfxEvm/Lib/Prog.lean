import Mathlib.Tactic.Common
import Mathlib.Algebra.Group.Nat.Defs
import Mathlib.Order.Defs.Unbundled

/-!
# Stateful programs that may fail or panic

`Prog π σ ε α` is a program over a state `σ` as Rust code is one over `&mut σ`: it either panics
(with the site `π` of the panic, and no state is left to speak of) or returns `Ok` of a value or
`Err` of an error, in both cases together with the state it leaves. An error does not undo the
writes made before it.

The rules are those of a weakest precondition `wp x E Q s`: if `x` is run from `s`, a panic
satisfies `E`, and a result together with the final state satisfies `Q`.
-/

namespace Lib

/-- A program over the state `σ` that panics with `π`, or ends with `Ok` or `Err` and a state. -/
def Prog (π σ ε α : Type) : Type := σ → Except π (Except ε α × σ)

/-- What goes on after an `Except` returned what both parts return. -/
theorem bind_eq_ok {ε α β : Type} {x : Except ε α} {f : α → Except ε β} {b : β} :
    (x >>= f) = .ok b ↔ ∃ a, x = .ok a ∧ f a = .ok b := by
  cases x with
  | error e =>
    constructor
    · intro h
      cases h
    · rintro ⟨a, h, -⟩
      cases h
  | ok a =>
    constructor
    · intro h
      exact ⟨a, rfl, h⟩
    · rintro ⟨_, h, hf⟩
      cases h
      exact hf

namespace Prog

variable {π σ τ ε ε' α β γ : Type}

/-- Runs the program from a state. -/
def run (x : Prog π σ ε α) (s : σ) : Except π (Except ε α × σ) := x s

/-- Ends with `Ok a`. -/
protected def pure (a : α) : Prog π σ ε α := fun s => .ok (.ok a, s)

/-- Runs `x`, and `f` on its value if it is `Ok`: the `?` of Rust. -/
protected def bind (x : Prog π σ ε α) (f : α → Prog π σ ε β) : Prog π σ ε β := fun s =>
  match x s with
  | .error p => .error p
  | .ok (.error e, s') => .ok (.error e, s')
  | .ok (.ok a, s') => f a s'

instance : Monad (Prog π σ ε) where
  pure := Prog.pure
  bind := Prog.bind

/-- Ends with `Err e`. -/
def fail (e : ε) : Prog π σ ε α := fun s => .ok (.error e, s)

/-- Panics at the site `p`. -/
def abort (p : π) : Prog π σ ε α := fun _ => .error p

/-- Reads the state through `f`. -/
def gets (f : σ → α) : Prog π σ ε α := fun s => .ok (.ok (f s), s)

/-- Changes the state by `f`. -/
def update (f : σ → σ) : Prog π σ ε Unit := fun s => .ok (.ok (), f s)

/-- Panics at `p` unless `c` holds: `assert!(c)`. -/
def assert (c : Bool) (p : π) : Prog π σ ε Unit := if c then pure () else abort p

/-- Runs `x` if `c` holds: an `if` without `else`. -/
def when (c : Bool) (x : Prog π σ ε Unit) : Prog π σ ε Unit := if c then x else pure ()

/-- The value of an `Option`, or a panic at `p`: `expect`. -/
def expect (p : π) : Option α → Prog π σ ε α
  | some a => pure a
  | none => abort p

/-- The value of a `Result`, or its error: `?`. -/
def ofExcept : Except ε α → Prog π σ ε α
  | .ok a => pure a
  | .error e => fail e

/-- Runs `x` and hands its `Result` over as a value, whichever it is. -/
def result (x : Prog π σ ε α) : Prog π σ ε' (Except ε α) := fun s =>
  match x s with
  | .error p => .error p
  | .ok (r, s') => .ok (.ok r, s')

/-- Maps the error of `x`. -/
def mapErr (f : ε → ε') (x : Prog π σ ε α) : Prog π σ ε' α := fun s =>
  match x s with
  | .error p => .error p
  | .ok (r, s') => .ok (r.mapError f, s')

/-- Runs a program over a part of the state: `get` reads the part, `set` puts it back. -/
def zoom (get : τ → σ) (set : σ → τ → τ) (x : Prog π σ ε α) : Prog π τ ε α := fun t =>
  match x (get t) with
  | .error p => .error p
  | .ok (r, s') => .ok (r, set s' t)

/-- Runs a program over the state and a part of its own, starting from `r`; the part it leaves is
    handed over with its `Result`. -/
def withPart {ρ : Type} (r : ρ) (x : Prog π (ρ × σ) ε α) : Prog π σ ε' (Except ε α × ρ) := fun s =>
  match x (r, s) with
  | .error p => .error p
  | .ok (a, (r', s')) => .ok (.ok (a, r'), s')

/-- The value of a computation that may panic. -/
def ofPanic : Except π α → Prog π σ ε α
  | .ok a => pure a
  | .error p => abort p

/-- What the program returns, without the state it leaves. -/
def value (x : Prog π σ ε α) (s : σ) : Except π (Except ε α) := (x.run s).map Prod.fst

/-- The state the program leaves, whether it returns `Ok` or `Err`. -/
def final (x : Prog π σ ε α) (s : σ) : Except π σ := (x.run s).map Prod.snd

/-! ## Running -/

@[simp] theorem run_pure (a : α) (s : σ) : (pure a : Prog π σ ε α).run s = .ok (.ok a, s) := rfl

@[simp] theorem run_fail (e : ε) (s : σ) : (fail e : Prog π σ ε α).run s = .ok (.error e, s) := rfl

@[simp] theorem run_abort (p : π) (s : σ) : (abort p : Prog π σ ε α).run s = .error p := rfl

@[simp] theorem run_gets (f : σ → α) (s : σ) :
    (gets f : Prog π σ ε α).run s = .ok (.ok (f s), s) := rfl

@[simp] theorem run_update (f : σ → σ) (s : σ) :
    (update f : Prog π σ ε Unit).run s = .ok (.ok (), f s) := rfl

theorem run_bind (x : Prog π σ ε α) (f : α → Prog π σ ε β) (s : σ) :
    (x >>= f).run s = match x.run s with
      | .error p => .error p
      | .ok (.error e, s') => .ok (.error e, s')
      | .ok (.ok a, s') => (f a).run s' := rfl

/-- A program that returned a value went through its first part. -/
theorem run_bind_eq_ok {x : Prog π σ ε α} {f : α → Prog π σ ε β} {s s' : σ} {b : β} :
    (x >>= f).run s = .ok (.ok b, s') ↔
      ∃ a s₁, x.run s = .ok (.ok a, s₁) ∧ (f a).run s₁ = .ok (.ok b, s') := by
  rw [run_bind]
  rcases x.run s with p | ⟨_ | a, s₁⟩
  · simp
  · simp
  · simp only [Except.ok.injEq, Prod.mk.injEq]
    constructor
    · exact fun h => ⟨a, s₁, ⟨rfl, rfl⟩, h⟩
    · rintro ⟨_, _, ⟨rfl, rfl⟩, h⟩
      exact h

theorem run_forM_cons (f : β → Prog π σ ε PUnit) (b : β) (l : List β) (s : σ) :
    ((b :: l).forM f).run s = (f b >>= fun _ => l.forM f).run s := rfl

/-- A loop over the items of two lists is one over the first, then one over the second. -/
theorem run_forM_append (f : β → Prog π σ ε PUnit) (l l' : List β) (s : σ) :
    ((l ++ l').forM f).run s = (l.forM f >>= fun _ => l'.forM f).run s := by
  induction l generalizing s with
  | nil => rfl
  | cons b l ih =>
    rw [List.cons_append, run_forM_cons, run_bind, run_bind, run_forM_cons, run_bind]
    rcases (f b).run s with p | ⟨_ | _, s₁⟩
    · rfl
    · rfl
    · exact ih s₁

theorem run_zoom_eq_ok {get : τ → σ} {set : σ → τ → τ} {x : Prog π σ ε α} {t t' : τ}
    {r : Except ε α} :
    (zoom get set x).run t = .ok (r, t') ↔ ∃ s', x.run (get t) = .ok (r, s') ∧ t' = set s' t := by
  simp only [run, zoom]
  rcases x (get t) with p | ⟨r', s'⟩
  · simp
  · simp only [Except.ok.injEq, Prod.mk.injEq]
    constructor
    · rintro ⟨rfl, rfl⟩
      exact ⟨s', ⟨rfl, rfl⟩, rfl⟩
    · rintro ⟨_, ⟨rfl, rfl⟩, rfl⟩
      exact ⟨rfl, rfl⟩

theorem run_result_eq_ok {x : Prog π σ ε α} {s s' : σ} {r : Except ε α} :
    (result x : Prog π σ ε' _).run s = .ok (.ok r, s') ↔ x.run s = .ok (r, s') := by
  simp only [run, result]
  rcases x s with p | ⟨r', s₁⟩ <;> simp

theorem run_ofPanic_eq_ok {x : Except π α} {s s' : σ} {a : α} :
    (ofPanic x : Prog π σ ε α).run s = .ok (.ok a, s') ↔ x = .ok a ∧ s' = s := by
  cases x with
  | error p => simp [ofPanic]
  | ok b => simp [ofPanic, eq_comm]

theorem run_assert_eq_ok {c : Bool} {p : π} {s s' : σ} {u : Unit} :
    (assert c p : Prog π σ ε Unit).run s = .ok (.ok u, s') ↔ c = true ∧ s' = s := by
  cases c <;> simp [assert, eq_comm]

/-! ## Weakest preconditions -/

/-- Run from `s`, the program panics only where `E` allows it, and returns only what `Q` allows. -/
def wp (x : Prog π σ ε α) (E : π → Prop) (Q : Except ε α → σ → Prop) (s : σ) : Prop :=
  match x.run s with
  | .error p => E p
  | .ok (r, s') => Q r s'

section
variable {E : π → Prop} {s : σ}

theorem wp_of_run {x : Prog π σ ε α} {Q : Except ε α → σ → Prop} {r : Except ε α} {s' : σ}
    (h : wp x E Q s) (hr : x.run s = .ok (r, s')) : Q r s' := by
  simpa only [wp, hr] using h

/-- What a program returns is what one of its runs returns. -/
theorem value_eq_ok {x : Prog π σ ε α} {r : Except ε α} :
    x.value s = .ok r ↔ ∃ s', x.run s = .ok (r, s') := by
  unfold value
  rcases x.run s with p | ⟨r', s'⟩
  · simp [Except.map]
  · simp [Except.map]

theorem wp_of_panic {x : Prog π σ ε α} {Q : Except ε α → σ → Prop} {p : π}
    (h : wp x E Q s) (hr : x.run s = .error p) : E p := by
  simpa only [wp, hr] using h

/-- A program that is not allowed to panic returns. -/
theorem exists_run_of_wp {x : Prog π σ ε α} {Q : Except ε α → σ → Prop}
    (h : wp x (fun _ => False) Q s) : ∃ r s', x.run s = .ok (r, s') ∧ Q r s' := by
  rcases hx : x.run s with p | ⟨r, s'⟩
  · exact (wp_of_panic h hx).elim
  · exact ⟨r, s', rfl, wp_of_run h hx⟩

theorem wp_forM_append {f : β → Prog π σ ε PUnit} {l l' : List β} {Q : Except ε PUnit → σ → Prop}
    (h : wp (l.forM f >>= fun _ => l'.forM f) E Q s) : wp ((l ++ l').forM f) E Q s := by
  unfold wp
  rw [run_forM_append]
  exact h

/-- A `wp` is shown by looking at the two ways a run can end. -/
theorem wp_intro {x : Prog π σ ε α} {Q : Except ε α → σ → Prop}
    (hp : ∀ p, x.run s = .error p → E p) (hr : ∀ r s', x.run s = .ok (r, s') → Q r s') :
    wp x E Q s := by
  rcases hx : x.run s with p | ⟨r, s'⟩
  · simpa only [wp, hx] using hp p hx
  · simpa only [wp, hx] using hr r s' hx

theorem wp_mono {x : Prog π σ ε α} {E' : π → Prop} {Q Q' : Except ε α → σ → Prop}
    (h : wp x E Q s) (hE : ∀ p, E p → E' p) (hQ : ∀ r s', Q r s' → Q' r s') : wp x E' Q' s :=
  wp_intro (fun p hp => hE p (wp_of_panic h hp)) fun r s' hr => hQ r s' (wp_of_run h hr)

/-- A program that panics only if a condition fails, and returns only if it holds, returns just if
    it holds. -/
theorem completes_iff_of_wp {x : Prog π σ ε α} {P : Prop}
    (h : wp x (fun _ => ¬P) (fun _ _ => P) s) : (∃ r s', x.run s = .ok (r, s')) ↔ P := by
  constructor
  · rintro ⟨r, s', hrun⟩
    exact wp_of_run h hrun
  · intro hP
    obtain ⟨r, s', hrun, -⟩ := exists_run_of_wp (wp_mono h (fun _ hnot => hnot hP) fun _ _ h => h)
    exact ⟨r, s', hrun⟩

/-- Weakening of the postcondition alone. -/
theorem wp_post {x : Prog π σ ε α} {Q Q' : Except ε α → σ → Prop} (h : wp x E Q s)
    (hQ : ∀ r s', Q r s' → Q' r s') : wp x E Q' s :=
  wp_mono h (fun _ hp => hp) hQ

theorem wp_and {x : Prog π σ ε α} {Q Q' : Except ε α → σ → Prop} (h : wp x E Q s)
    (h' : wp x (fun _ => True) Q' s) : wp x E (fun r s' => Q r s' ∧ Q' r s') s :=
  wp_intro (fun _ hp => wp_of_panic h hp) fun _ _ hr => ⟨wp_of_run h hr, wp_of_run h' hr⟩

@[simp] theorem wp_pure {a : α} {Q : Except ε α → σ → Prop} :
    wp (pure a) E Q s ↔ Q (.ok a) s := Iff.rfl

@[simp] theorem wp_fail {e : ε} {Q : Except ε α → σ → Prop} :
    wp (fail e) E Q s ↔ Q (.error e) s := Iff.rfl

@[simp] theorem wp_abort {p : π} {Q : Except ε α → σ → Prop} : wp (abort p) E Q s ↔ E p := Iff.rfl

@[simp] theorem wp_gets {f : σ → α} {Q : Except ε α → σ → Prop} :
    wp (gets f) E Q s ↔ Q (.ok (f s)) s := Iff.rfl

@[simp] theorem wp_update {f : σ → σ} {Q : Except ε Unit → σ → Prop} :
    wp (update f) E Q s ↔ Q (.ok ()) (f s) := Iff.rfl

@[simp] theorem wp_ofExcept {x : Except ε α} {Q : Except ε α → σ → Prop} :
    wp (ofExcept x) E Q s ↔ Q x s := by
  cases x <;> exact Iff.rfl

/-- Sequencing: the second part is run in the state and on the value of the first. -/
@[simp] theorem wp_bind {x : Prog π σ ε α} {f : α → Prog π σ ε β} {Q : Except ε β → σ → Prop} :
    wp (x >>= f) E Q s ↔
      wp x E (fun r s' => match r with
        | .ok a => wp (f a) E Q s'
        | .error e => Q (.error e) s') s := by
  simp only [wp, run_bind]
  rcases x.run s with p | ⟨_ | a, s₁⟩ <;> exact Iff.rfl

/-- The rule of sequencing with a chosen condition in the middle. -/
theorem wp_seq {x : Prog π σ ε α} {f : α → Prog π σ ε β} {Q : Except ε β → σ → Prop}
    (R : α → σ → Prop)
    (hx : wp x E (fun r s' => match r with | .ok a => R a s' | .error e => Q (.error e) s') s)
    (hf : ∀ a s', R a s' → wp (f a) E Q s') : wp (x >>= f) E Q s := by
  refine wp_bind.mpr (wp_post hx ?_)
  rintro (e | a) s' h
  · exact h
  · exact hf a s' h

@[simp] theorem wp_result {x : Prog π σ ε α} {Q : Except ε' (Except ε α) → σ → Prop} :
    wp (result x) E Q s ↔ wp x E (fun r s' => Q (.ok r) s') s := by
  simp only [wp, run, result]
  cases x s <;> rfl

@[simp] theorem wp_mapErr {f : ε → ε'} {x : Prog π σ ε α} {Q : Except ε' α → σ → Prop} :
    wp (mapErr f x) E Q s ↔ wp x E (fun r s' => Q (r.mapError f) s') s := by
  simp only [wp, run, mapErr]
  cases x s <;> rfl

@[simp] theorem wp_zoom {get : τ → σ} {set : σ → τ → τ} {x : Prog π σ ε α}
    {Q : Except ε α → τ → Prop} {t : τ} :
    wp (zoom get set x) E Q t ↔ wp x E (fun r s' => Q r (set s' t)) (get t) := by
  simp only [wp, run, zoom]
  cases x (get t) <;> rfl

@[simp] theorem wp_withPart {ρ : Type} {r : ρ} {x : Prog π (ρ × σ) ε α}
    {Q : Except ε' (Except ε α × ρ) → σ → Prop} :
    wp (withPart r x) E Q s ↔ wp x E (fun a p => Q (.ok (a, p.1)) p.2) (r, s) := by
  simp only [wp, run, withPart]
  cases x (r, s) <;> rfl

theorem wp_ofPanic {x : Except π α} {Q : Except ε α → σ → Prop} (hp : ∀ p, x = .error p → E p)
    (hq : ∀ a, x = .ok a → Q (.ok a) s) : wp (ofPanic x) E Q s := by
  cases x with
  | error p => exact hp p rfl
  | ok a => exact hq a rfl

theorem wp_ite {c : Prop} [Decidable c] {x y : Prog π σ ε α} {Q : Except ε α → σ → Prop}
    (hx : c → wp x E Q s) (hy : ¬c → wp y E Q s) : wp (if c then x else y) E Q s := by
  split
  · exact hx ‹_›
  · exact hy ‹_›

theorem wp_when {c : Bool} {x : Prog π σ ε Unit} {Q : Except ε Unit → σ → Prop}
    (hx : c = true → wp x E Q s) (hc : c = false → Q (.ok ()) s) : wp (when c x) E Q s := by
  unfold when
  cases c
  · exact hc rfl
  · exact hx rfl

theorem wp_assert {c : Bool} {p : π} {Q : Except ε Unit → σ → Prop} (hp : c = false → E p)
    (hq : c = true → Q (.ok ()) s) : wp (assert c p) E Q s := by
  unfold assert
  cases c
  · exact hp rfl
  · exact hq rfl

theorem wp_expect {p : π} {o : Option α} {Q : Except ε α → σ → Prop} (hp : o = none → E p)
    (hq : ∀ a, o = some a → Q (.ok a) s) : wp (expect p o) E Q s := by
  cases o with
  | none => exact hp rfl
  | some a => exact hq a rfl

end

/-! ## Relations between the states before and after -/

/-- Every run of the program that returns leads to a state related to the first one. -/
def Keeps (R : σ → σ → Prop) (x : Prog π σ ε α) : Prop :=
  ∀ s, wp x (fun _ => True) (fun _ s' => R s s') s

section
variable {R : σ → σ → Prop}

theorem Keeps.of_run {x : Prog π σ ε α} (h : Keeps R x) {s s' : σ} {r : Except ε α}
    (hr : x.run s = .ok (r, s')) : R s s' := wp_of_run (h s) hr

theorem Keeps.of_final {x : Prog π σ ε α} (h : Keeps R x) {s s' : σ}
    (hs : x.final s = .ok s') : R s s' := by
  rcases hx : x.run s with p | ⟨r, s₁⟩ <;> simp only [final, hx, Except.map] at hs
  · exact absurd hs (by simp)
  · exact Except.ok.inj hs ▸ h.of_run hx

theorem Keeps.mono {R' : σ → σ → Prop} {x : Prog π σ ε α} (h : Keeps R x)
    (hR : ∀ s s', R s s' → R' s s') : Keeps R' x :=
  fun s => wp_post (h s) fun _ s' => hR s s'

theorem Keeps.abort (p : π) : Keeps R (abort p : Prog π σ ε α) := fun _ => trivial

theorem Keeps.update {f : σ → σ} (h : ∀ s, R s (f s)) : Keeps R (update f : Prog π σ ε Unit) := h

theorem Keeps.ite {c : Prop} [Decidable c] {x y : Prog π σ ε α} (hx : c → Keeps R x)
    (hy : ¬c → Keeps R y) : Keeps R (if c then x else y) := by
  split
  · exact hx ‹_›
  · exact hy ‹_›

theorem Keeps.mapErr {f : ε → ε'} {x : Prog π σ ε α} (h : Keeps R x) : Keeps R (mapErr f x) :=
  fun s => wp_mapErr.mpr (h s)

theorem Keeps.result {x : Prog π σ ε α} (h : Keeps R x) :
    Keeps R (result x : Prog π σ ε' (Except ε α)) :=
  fun s => wp_result.mpr (h s)

theorem Keeps.zoom {S : τ → τ → Prop} {get : τ → σ} {set : σ → τ → τ} {x : Prog π σ ε α}
    (h : Keeps R x) (hS : ∀ t s', R (get t) s' → S t (set s' t)) : Keeps S (zoom get set x) :=
  fun t => wp_zoom.mpr (wp_post (h (get t)) fun _ s' => hS t s')

theorem Keeps.withPart {ρ : Type} {x : Prog π (ρ × σ) ε α} (h : Keeps (fun p q => R p.2 q.2) x)
    (r : ρ) : Keeps R (withPart r x : Prog π σ ε' (Except ε α × ρ)) :=
  fun s => wp_withPart.mpr (h (r, s))

variable [IsPreorder σ R]

theorem Keeps.pure (a : α) : Keeps R (pure a : Prog π σ ε α) := fun s => refl_of R s

theorem Keeps.fail (e : ε) : Keeps R (fail e : Prog π σ ε α) := fun s => refl_of R s

theorem Keeps.gets (f : σ → α) : Keeps R (gets f : Prog π σ ε α) := fun s => refl_of R s

theorem Keeps.ofExcept (x : Except ε α) : Keeps R (ofExcept x : Prog π σ ε α) :=
  fun s => wp_ofExcept.mpr (refl_of R s)

theorem Keeps.assert (c : Bool) (p : π) : Keeps R (assert c p : Prog π σ ε Unit) :=
  .ite (fun _ => .pure ()) fun _ => .abort p

theorem Keeps.expect (p : π) (o : Option α) : Keeps R (expect p o : Prog π σ ε α) := by
  cases o
  · exact .abort p
  · exact .pure _

theorem Keeps.ofPanic (x : Except π α) : Keeps R (ofPanic x : Prog π σ ε α) := by
  cases x
  · exact .abort _
  · exact .pure _

theorem Keeps.bind {x : Prog π σ ε α} {f : α → Prog π σ ε β} (hx : Keeps R x)
    (hf : ∀ a, Keeps R (f a)) : Keeps R (x >>= f) := by
  intro s
  refine wp_bind.mpr (wp_post (hx s) ?_)
  rintro (e | a) s₁ h₁
  · exact h₁
  · exact wp_post (hf a s₁) fun _ _ h₂ => trans_of R h₁ h₂

theorem Keeps.when {c : Bool} {x : Prog π σ ε Unit} (hx : c = true → Keeps R x) :
    Keeps R (when c x) := by
  cases c
  · exact .pure ()
  · exact hx rfl

theorem Keeps.forM {f : α → Prog π σ ε PUnit} {l : List α} (hf : ∀ a ∈ l, Keeps R (f a)) :
    Keeps R (forM l f) := by
  induction l with
  | nil => exact .pure _
  | cons a l ih =>
    rw [List.forM_cons]
    exact .bind (hf a (by simp)) fun _ => ih fun b hb => hf b (by simp [hb])

end

/-! ## What a program returns -/

/-- Every value that the program returns, from whichever state, satisfies `Q`. -/
def Yields (Q : α → Prop) (x : Prog π σ ε α) : Prop :=
  ∀ s, wp x (fun _ => True) (fun r _ => ∀ a, r = .ok a → Q a) s

section
variable {Q : α → Prop} {P : β → Prop}

theorem Yields.of_run {x : Prog π σ ε α} (h : Yields Q x) {s s' : σ} {a : α}
    (hr : x.run s = .ok (.ok a, s')) : Q a := wp_of_run (h s) hr a rfl

theorem Yields.mono {Q' : α → Prop} {x : Prog π σ ε α} (h : Yields Q x) (hQ : ∀ a, Q a → Q' a) :
    Yields Q' x :=
  fun s => wp_post (h s) fun _ _ hq a ha => hQ a (hq a ha)

theorem Yields.pure {a : α} (h : Q a) : Yields Q (pure a : Prog π σ ε α) := by
  intro s b hb
  exact Except.ok.inj hb ▸ h

theorem Yields.fail (e : ε) : Yields Q (fail e : Prog π σ ε α) := by
  intro s a ha
  exact absurd ha (by simp)

theorem Yields.abort (p : π) : Yields Q (abort p : Prog π σ ε α) := fun _ => trivial

theorem Yields.ofExcept {x : Except ε α} (h : ∀ a, x = .ok a → Q a) :
    Yields Q (ofExcept x : Prog π σ ε α) := fun _ => wp_ofExcept.mpr h

theorem Yields.expect {p : π} {o : Option α} (h : ∀ a, o = some a → Q a) :
    Yields Q (expect p o : Prog π σ ε α) :=
  fun _ => wp_expect (fun _ => trivial) fun a ha _ hb => Except.ok.inj hb ▸ h a ha

theorem Yields.bind {x : Prog π σ ε β} {f : β → Prog π σ ε α} (hx : Yields P x)
    (hf : ∀ b, P b → Yields Q (f b)) : Yields Q (x >>= f) := by
  intro s
  refine wp_bind.mpr (wp_post (hx s) ?_)
  rintro (e | b) s' h
  · intro a ha
    exact absurd ha (by simp)
  · exact hf b (h b rfl) s'

theorem Yields.any (x : Prog π σ ε α) : Yields (fun _ => True) x :=
  fun _ => wp_intro (fun _ _ => trivial) fun _ _ _ _ _ => trivial

/-- Whatever the first part returns. -/
theorem Yields.seq {x : Prog π σ ε β} {f : β → Prog π σ ε α} (hf : ∀ b, Yields Q (f b)) :
    Yields Q (x >>= f) := .bind (.any x) fun b _ => hf b

theorem Yields.ite {c : Prop} [Decidable c] {x y : Prog π σ ε α} (hx : c → Yields Q x)
    (hy : ¬c → Yields Q y) : Yields Q (if c then x else y) := by
  split
  · exact hx ‹_›
  · exact hy ‹_›

theorem Yields.zoom {get : τ → σ} {set : σ → τ → τ} {x : Prog π σ ε α} (h : Yields Q x) :
    Yields Q (zoom get set x) :=
  fun t => wp_zoom.mpr (h (get t))

end

/-! ## Tests of one run -/

section
variable {x : Prog π σ ε α} {s : σ}

/-- The program returns a value, and it and the state that is left pass the test. -/
def returns (x : Prog π σ ε α) (s : σ) (test : α → σ → Bool) : Bool :=
  match x.run s with
  | .ok (.ok a, s') => test a s'
  | _ => false

/-- The program ends with an error that passes the test. -/
def refuses (x : Prog π σ ε α) (s : σ) (test : ε → Bool) : Bool :=
  match x.run s with
  | .ok (.error e, _) => test e
  | _ => false

theorem exists_of_returns {test : α → σ → Bool} (h : x.returns s test = true) :
    ∃ a s', x.run s = .ok (.ok a, s') ∧ test a s' = true := by
  unfold returns at h
  split at h
  · exact ⟨_, _, ‹_›, h⟩
  · cases h

theorem exists_of_refuses {test : ε → Bool} (h : x.refuses s test = true) :
    ∃ e s', x.run s = .ok (.error e, s') ∧ test e = true := by
  unfold refuses at h
  split at h
  · exact ⟨_, _, ‹_›, h⟩
  · cases h

end

end Prog

end Lib
