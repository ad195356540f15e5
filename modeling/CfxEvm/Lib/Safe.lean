import CfxEvm.Lib.Prog

/-!
# Safe programs

A program is safe if, from the states with an invariant, it panics and fails only as it is allowed
to and leads to states with the invariant again. A relation between states that a program keeps is
an invariant for each state at the beginning.
-/

namespace Lib.Prog

variable {π σ τ ε ε' α β : Type}

/-- From states with `I` the program panics only with `E`, fails only with `F`, and leads to states
    with `I`. -/
def Safe (E : π → Prop) (F : ε → Prop) (I : σ → Prop) (x : Prog π σ ε α) : Prop :=
  ∀ s, I s → wp x E (fun r s' => I s' ∧ ∀ e, r = .error e → F e) s

namespace Safe

variable {E : π → Prop} {F : ε → Prop} {F' : ε' → Prop} {I : σ → Prop}

theorem pure (a : α) : Safe E F I (Pure.pure a : Prog π σ ε α) :=
  fun _ hs => ⟨hs, fun _ he => (nomatch he)⟩

theorem fail {e : ε} (he : F e) : Safe E F I (fail e : Prog π σ ε α) := by
  refine fun _ hs => ⟨hs, ?_⟩
  rintro _ ⟨⟩
  exact he

theorem abort {p : π} (hp : E p) : Safe E F I (abort p : Prog π σ ε α) := fun _ _ => hp

theorem gets (f : σ → α) : Safe E F I (gets f : Prog π σ ε α) :=
  fun _ hs => ⟨hs, fun _ he => (nomatch he)⟩

theorem update {f : σ → σ} (hf : ∀ s, I s → I (f s)) : Safe E F I (update f : Prog π σ ε Unit) :=
  fun s hs => ⟨hf s hs, fun _ he => (nomatch he)⟩

theorem ofExcept {x : Except ε α} (hx : ∀ e, x = .error e → F e) :
    Safe E F I (ofExcept x : Prog π σ ε α) :=
  fun _ hs => wp_ofExcept.mpr ⟨hs, hx⟩

theorem ofPanic {x : Except π α} (hx : ∀ p, x = .error p → E p) :
    Safe E F I (ofPanic x : Prog π σ ε α) :=
  fun _ hs => wp_ofPanic hx fun _ _ => ⟨hs, fun _ he => (nomatch he)⟩

theorem expect {p : π} {o : Option α} (hp : E p) : Safe E F I (expect p o : Prog π σ ε α) :=
  fun _ hs => wp_expect (fun _ => hp) fun _ _ => ⟨hs, fun _ he => (nomatch he)⟩

theorem assert {c : Bool} {p : π} (hp : E p) : Safe E F I (assert c p : Prog π σ ε Unit) :=
  fun _ hs => wp_assert (fun _ => hp) fun _ => ⟨hs, fun _ he => (nomatch he)⟩

theorem bind {x : Prog π σ ε α} {f : α → Prog π σ ε β} (hx : Safe E F I x)
    (hf : ∀ a, Safe E F I (f a)) : Safe E F I (x >>= f) := by
  intro s hs
  refine wp_bind.mpr (wp_post (hx s hs) ?_)
  rintro (e | a) s' ⟨hs', he⟩
  · refine ⟨hs', ?_⟩
    rintro _ ⟨⟩
    exact he e rfl
  · exact hf a s' hs'

theorem ite {c : Prop} [Decidable c] {x y : Prog π σ ε α} (hx : c → Safe E F I x)
    (hy : ¬c → Safe E F I y) : Safe E F I (if c then x else y) := by
  split
  · exact hx ‹_›
  · exact hy ‹_›

theorem when {c : Bool} {x : Prog π σ ε Unit} (hx : c = true → Safe E F I x) :
    Safe E F I (when c x) := by
  cases c
  · exact .pure ()
  · exact hx rfl

theorem mapErr {f : ε → ε'} {x : Prog π σ ε α} (h : Safe E (fun e => F' (f e)) I x) :
    Safe E F' I (mapErr f x) := by
  intro s hs
  refine wp_mapErr.mpr (wp_post (h s hs) ?_)
  rintro (e | a) s' ⟨hs', he⟩
  · refine ⟨hs', ?_⟩
    rintro _ ⟨⟩
    exact he e rfl
  · exact ⟨hs', fun _ he => (nomatch he)⟩

theorem result {x : Prog π σ ε α} (h : Safe E F I x) :
    Safe E F' I (result x : Prog π σ ε' (Except ε α)) :=
  fun s hs => wp_result.mpr (wp_post (h s hs) fun _ _ h' => ⟨h'.1, fun _ he => (nomatch he)⟩)

theorem zoom {J : τ → Prop} {get : τ → σ} {set : σ → τ → τ} {x : Prog π σ ε α} (h : Safe E F I x)
    (hget : ∀ t, J t → I (get t)) (hset : ∀ t s, J t → I s → J (set s t)) :
    Safe E F J (zoom get set x) :=
  fun t ht => wp_zoom.mpr
    (wp_post (h (get t) (hget t ht)) fun _ s' h' => ⟨hset t s' ht h'.1, h'.2⟩)

/-- What a program may panic and fail with may be enlarged. -/
theorem mono {E' : π → Prop} {F₁ : ε → Prop} {x : Prog π σ ε α} (h : Safe E F I x)
    (hE : ∀ p, E p → E' p) (hF : ∀ e, F e → F₁ e) : Safe E' F₁ I x :=
  fun s hs => wp_mono (h s hs) hE fun _ _ h' => ⟨h'.1, fun e he => hF e (h'.2 e he)⟩

end Safe

/-! ## Programs that are safe from one state -/

/-- Run from `s`, the program panics only with `E` and fails only with `F`. -/
def Tame (E : π → Prop) (F : ε → Prop) (x : Prog π σ ε α) (s : σ) : Prop :=
  wp x E (fun r _ => ∀ e, r = .error e → F e) s

section
variable {E : π → Prop} {F : ε → Prop} {F' : ε' → Prop} {I : σ → Prop} {s : σ}

theorem Tame.of_wp {x : Prog π σ ε α} {Q : Except ε α → σ → Prop} (h : wp x E Q s)
    (hQ : ∀ e s', Q (.error e) s' → F e) : Tame E F x s := by
  refine wp_post h fun r s' hr e he => ?_
  subst he
  exact hQ e s' hr

theorem Tame.pure (a : α) : Tame E F (Pure.pure a : Prog π σ ε α) s := fun _ he => (nomatch he)

theorem Tame.fail {e : ε} (he : F e) : Tame E F (Prog.fail e : Prog π σ ε α) s := by
  rintro _ ⟨⟩
  exact he

/-- Whatever the first part returns, the second part is safe where it begins. -/
theorem Tame.bind {x : Prog π σ ε α} {f : α → Prog π σ ε β} (hx : Tame E F x s)
    (hf : ∀ a s', x.run s = .ok (.ok a, s') → Tame E F (f a) s') : Tame E F (x >>= f) s := by
  refine wp_bind.mpr (wp_intro (fun p hp => wp_of_panic hx hp) ?_)
  rintro (e | a) s' hrun
  · rintro _ ⟨⟩
    exact wp_of_run hx hrun e rfl
  · exact hf a s' hrun

/-- The first part keeps what the second part needs. -/
theorem Tame.after {x : Prog π σ ε α} {f : α → Prog π σ ε β} (hx : Safe E F I x) (hs : I s)
    (hf : ∀ a s', I s' → Tame E F (f a) s') : Tame E F (x >>= f) s := by
  refine wp_bind.mpr (wp_post (hx s hs) ?_)
  rintro (e | a) s' ⟨hs', he⟩
  · rintro _ ⟨⟩
    exact he e rfl
  · exact hf a s' hs'

theorem Tame.ite {c : Prop} [Decidable c] {x y : Prog π σ ε α} (hx : c → Tame E F x s)
    (hy : ¬c → Tame E F y s) : Tame E F (if c then x else y) s := by
  split
  · exact hx ‹_›
  · exact hy ‹_›

theorem Tame.when {c : Bool} {x : Prog π σ ε Unit} (hx : c = true → Tame E F x s) :
    Tame E F (when c x) s := by
  cases c
  · exact .pure ()
  · exact hx rfl

theorem Tame.ofExcept {x : Except ε α} (hx : ∀ e, x = .error e → F e) :
    Tame E F (Prog.ofExcept x : Prog π σ ε α) s := wp_ofExcept.mpr hx

theorem Tame.ofPanic {x : Except π α} (hx : ∀ p, x = .error p → E p) :
    Tame E F (Prog.ofPanic x : Prog π σ ε α) s :=
  wp_ofPanic hx fun _ _ _ he => (nomatch he)

theorem Tame.expect {p : π} {o : Option α} (hp : E p) :
    Tame E F (Prog.expect p o : Prog π σ ε α) s :=
  wp_expect (fun _ => hp) fun _ _ _ he => (nomatch he)

theorem Tame.assert {c : Bool} {p : π} (hp : E p) :
    Tame E F (Prog.assert c p : Prog π σ ε Unit) s :=
  wp_assert (fun _ => hp) fun _ _ he => (nomatch he)

theorem Tame.mapErr {f : ε → ε'} {x : Prog π σ ε α} (h : Tame E (fun e => F' (f e)) x s) :
    Tame E F' (Prog.mapErr f x) s := by
  refine wp_mapErr.mpr (wp_post h ?_)
  rintro (e | a) s' he
  · rintro _ ⟨⟩
    exact he e rfl
  · rintro _ ⟨⟩

/-- A program that is safe from each of the states, and leads to such states again. -/
theorem Safe.of_tame {R : σ → σ → Prop} {x : Prog π σ ε α} (hkeeps : Keeps R x)
    (hI : ∀ s s', R s s' → I s → I s') (h : ∀ s, I s → Tame E F x s) : Safe E F I x :=
  fun s hs => wp_post (wp_and (h s hs) (hkeeps s)) fun _ _ h' => ⟨hI s _ h'.2 hs, h'.1⟩

end

/-! ## Relations as invariants -/

variable {R : σ → σ → Prop}

/-- The states that a state is related to are kept. -/
theorem Keeps.safe [IsTrans σ R] {x : Prog π σ ε α} (h : Keeps R x) (s₀ : σ) :
    Safe (fun _ => True) (fun _ => True) (R s₀) x :=
  fun s hs => wp_post (h s) fun _ _ h' => ⟨trans_of R hs h', fun _ _ => trivial⟩

theorem Keeps.of_safe [Std.Refl R] {x : Prog π σ ε α}
    (h : ∀ s₀, Safe (fun _ => True) (fun _ => True) (R s₀) x) : Keeps R x :=
  fun s => wp_post (h s s (refl_of R s)) fun _ _ h' => h'.1

end Lib.Prog
