import CfxEvm.Lib.Loop
import CfxEvm.Lib.Refine

/-!
# Programs that run alike

Two programs run alike if, from related states, they return related values, or the same error, and
related states, or panic at the same site. Some panics are allowed to one of the two alone: those of
parts that watch the execution and differ on the two sides. A program that runs like itself is blind
to what the relation leaves open.
-/

namespace Lib.Prog

variable {π σ τ ε ε' α β γ δ : Type}

/-- What it means that the results of two programs are related. -/
inductive ResultRel (R : α → β → Prop) : Except ε α → Except ε β → Prop
  | error (e : ε) : ResultRel R (.error e) (.error e)
  | ok {a : α} {b : β} (h : R a b) : ResultRel R (.ok a) (.ok b)

theorem ResultRel.eq {r r' : Except ε α} (h : ResultRel Eq r r') : r = r' := by
  cases h with
  | error e => rfl
  | ok h => rw [h]

theorem ResultRel.of_eq {r r' : Except ε α} (h : r = r') : ResultRel Eq r r' := by
  subst h
  cases r with
  | error e => exact .error e
  | ok a => exact .ok rfl

/-- What it means that two programs ended alike; a panic with `E` is allowed to one of them
    alone. -/
inductive OutcomeAlike (E : π → Prop) (rel : σ → τ → Prop) (R : α → β → Prop) :
    Except π (Except ε α × σ) → Except π (Except ε β × τ) → Prop
  | panic (p : π) : OutcomeAlike E rel R (.error p) (.error p)
  | left {p : π} (h : E p) (o : Except π (Except ε β × τ)) : OutcomeAlike E rel R (.error p) o
  | right {p : π} (h : E p) (o : Except π (Except ε α × σ)) : OutcomeAlike E rel R o (.error p)
  | returns {r : Except ε α} {r' : Except ε β} {s : σ} {t : τ} (h : ResultRel R r r')
    (hrel : rel s t) :
      OutcomeAlike E rel R (.ok (r, s)) (.ok (r', t))

/-- From related states the two programs end alike. -/
def Alike (E : π → Prop) (rel : σ → τ → Prop) (R : α → β → Prop) (x : Prog π σ ε α)
    (y : Prog π τ ε β) : Prop :=
  ∀ s t, rel s t → OutcomeAlike E rel R (x.run s) (y.run t)

/-- The program does not see which of two related states it is run from. -/
abbrev Blind (E : π → Prop) (rel : σ → σ → Prop) (x : Prog π σ ε α) : Prop := Alike E rel Eq x x

section
variable {E : π → Prop} {rel : σ → τ → Prop} {R : α → β → Prop} {R' : γ → δ → Prop}

theorem OutcomeAlike.returned {o : Except π (Except ε α × σ)} {o' : Except π (Except ε β × τ)}
    (h : OutcomeAlike E rel R o o') {r : Except ε α} {r' : Except ε β} {s : σ} {t : τ}
    (ho : o = .ok (r, s)) (ho' : o' = .ok (r', t)) : ResultRel R r r' ∧ rel s t := by
  cases h with
  | panic p => cases ho
  | left h o => cases ho
  | right h o => cases ho'
  | returns h hrel =>
    cases ho
    cases ho'
    exact ⟨h, hrel⟩

/-- One of them panics alone only as it is allowed to. -/
theorem OutcomeAlike.panics {o : Except π (Except ε α × σ)} {o' : Except π (Except ε β × τ)}
    (h : OutcomeAlike E rel R o o') :
    (∀ p q, o = .error p → o' = .ok q → E p) ∧ ∀ p q, o = .ok q → o' = .error p → E p := by
  cases h with
  | panic p =>
    refine ⟨fun _ _ _ h' => ?_, fun _ _ h' _ => ?_⟩
    · cases h'
    · cases h'
  | left h o =>
    refine ⟨fun _ _ h' _ => ?_, fun _ _ h' _ => ?_⟩
    · cases h'
      exact h
    · cases h'
  | right h o =>
    refine ⟨fun _ _ _ h' => ?_, fun _ _ _ h' => ?_⟩
    · cases h'
    · cases h'
      exact h
  | returns h hrel =>
    refine ⟨fun _ _ h' _ => ?_, fun _ _ _ h' => ?_⟩
    · cases h'
    · cases h'

/-- The states may be related more loosely. -/
theorem OutcomeAlike.mono {rel' : σ → τ → Prop} {o : Except π (Except ε α × σ)}
    {o' : Except π (Except ε β × τ)} (h : OutcomeAlike E rel R o o')
    (hrel : ∀ s t, rel s t → rel' s t) :
    OutcomeAlike E rel' R o o' := by
  cases h with
  | panic p => exact .panic p
  | left h o => exact .left h _
  | right h o => exact .right h _
  | returns h hst => exact .returns h (hrel _ _ hst)

namespace Alike

theorem pure {a : α} {b : β} (h : R a b) :
    Alike E rel R (Pure.pure a : Prog π σ ε α) (Pure.pure b : Prog π τ ε β) :=
  fun _ _ hst => .returns (.ok h) hst

theorem fail (e : ε) : Alike E rel R (fail e : Prog π σ ε α) (fail e : Prog π τ ε β) :=
  fun _ _ hst => .returns (.error e) hst

theorem abort (p : π) : Alike E rel R (abort p : Prog π σ ε α) (abort p : Prog π τ ε β) :=
  fun _ _ _ => .panic p

theorem gets {f : σ → α} {g : τ → β} (h : ∀ s t, rel s t → R (f s) (g t)) :
    Alike E rel R (gets f : Prog π σ ε α) (gets g : Prog π τ ε β) :=
  fun s t hst => .returns (.ok (h s t hst)) hst

theorem update {f : σ → σ} {g : τ → τ} (h : ∀ s t, rel s t → rel (f s) (g t)) :
    Alike E rel Eq (update f : Prog π σ ε Unit) (update g : Prog π τ ε Unit) :=
  fun s t hst => .returns (.ok rfl) (h s t hst)

theorem bind {x : Prog π σ ε α} {y : Prog π τ ε β} {f : α → Prog π σ ε γ} {g : β → Prog π τ ε δ}
    (hx : Alike E rel R x y) (hf : ∀ a b, R a b → Alike E rel R' (f a) (g b)) :
    Alike E rel R' (x >>= f) (y >>= g) := by
  intro s t hst
  have h := hx s t hst
  rw [run_bind, run_bind]
  generalize x.run s = o, y.run t = o' at h
  cases h with
  | panic p => exact .panic p
  | left h o => exact .left h _
  | right h o => exact .right h _
  | returns h hrel =>
    cases h with
    | error e => exact .returns (.error e) hrel
    | ok h => exact hf _ _ h _ _ hrel

/-- What comes after programs that return the same. -/
theorem seq {x : Prog π σ ε α} {y : Prog π τ ε α} {f : α → Prog π σ ε γ} {g : α → Prog π τ ε δ}
    (hx : Alike E rel Eq x y) (hf : ∀ a, Alike E rel R' (f a) (g a)) :
    Alike E rel R' (x >>= f) (y >>= g) := by
  refine bind hx ?_
  rintro a _ rfl
  exact hf a

theorem ite {c : Prop} [Decidable c] {x x' : Prog π σ ε α} {y y' : Prog π τ ε β}
    (hx : c → Alike E rel R x y) (hx' : ¬c → Alike E rel R x' y') :
    Alike E rel R (if c then x else x') (if c then y else y') := by
  by_cases hc : c
  · rw [if_pos hc, if_pos hc]
    exact hx hc
  · rw [if_neg hc, if_neg hc]
    exact hx' hc

theorem when {c : Bool} {x : Prog π σ ε Unit} {y : Prog π τ ε Unit}
    (hx : c = true → Alike E rel Eq x y) : Alike E rel Eq (when c x) (when c y) := by
  cases c with
  | false => exact .pure rfl
  | true => exact hx rfl

theorem ofExcept (x : Except ε α) :
    Alike E rel Eq (ofExcept x : Prog π σ ε α) (ofExcept x : Prog π τ ε α) := by
  cases x with
  | error e => exact .fail e
  | ok a => exact .pure rfl

theorem ofPanic (x : Except π α) :
    Alike E rel Eq (ofPanic x : Prog π σ ε α) (ofPanic x : Prog π τ ε α) := by
  cases x with
  | error p => exact .abort p
  | ok a => exact .pure rfl

/-- What panics only as it is allowed to may panic on one side alone. -/
theorem ofPanic_of_panics {x : Except π α} {y : Except π β} (hx : ∀ p, x = .error p → E p)
    (hy : ∀ p, y = .error p → E p) (h : ∀ a b, x = .ok a → y = .ok b → R a b) :
    Alike E rel R (Prog.ofPanic x : Prog π σ ε α) (Prog.ofPanic y : Prog π τ ε β) := by
  intro s t hst
  cases x with
  | error p => exact .left (hx p rfl) _
  | ok a =>
    cases y with
    | error p => exact .right (hy p rfl) _
    | ok b => exact .returns (.ok (h a b rfl rfl)) hst

theorem expect (p : π) (o : Option α) :
    Alike E rel Eq (expect p o : Prog π σ ε α) (expect p o : Prog π τ ε α) := by
  cases o with
  | none => exact .abort p
  | some a => exact .pure rfl

theorem assert (c : Bool) (p : π) :
    Alike E rel Eq (assert c p : Prog π σ ε Unit) (assert c p : Prog π τ ε Unit) := by
  cases c with
  | false => exact .abort p
  | true => exact .pure rfl

theorem mapErr {f : ε → ε'} {x : Prog π σ ε α} {y : Prog π τ ε β} (h : Alike E rel R x y) :
    Alike E rel R (mapErr f x) (mapErr f y) := by
  intro s t hst
  have hout := h s t hst
  unfold run at hout
  unfold run Prog.mapErr
  generalize x s = o, y t = o' at hout
  cases hout with
  | panic p => exact .panic p
  | left h o => exact .left h _
  | right h o => exact .right h _
  | returns h hrel =>
    cases h with
    | error e => exact .returns (.error (f e)) hrel
    | ok h => exact .returns (.ok h) hrel

/-- The results that are handed over are related. -/
theorem result {x : Prog π σ ε α} {y : Prog π τ ε β} (h : Alike E rel R x y) :
    Alike E rel (ResultRel R) (result x : Prog π σ ε' _) (result y : Prog π τ ε' _) := by
  intro s t hst
  have hout := h s t hst
  unfold run at hout
  unfold run Prog.result
  generalize x s = o, y t = o' at hout
  cases hout with
  | panic p => exact .panic p
  | left h o => exact .left h _
  | right h o => exact .right h _
  | returns h hrel => exact .returns (.ok h) hrel

theorem result_eq {x : Prog π σ ε α} {y : Prog π τ ε α} (h : Alike E rel Eq x y) :
    Alike E rel Eq (Prog.result x : Prog π σ ε' _) (Prog.result y : Prog π τ ε' _) := by
  intro s t hst
  have hout : OutcomeAlike E rel (ResultRel Eq) ((Prog.result x : Prog π σ ε' _).run s)
      ((Prog.result y : Prog π τ ε' _).run t) := h.result s t hst
  generalize (Prog.result x : Prog π σ ε' _).run s = o,
    (Prog.result y : Prog π τ ε' _).run t = o' at hout
  cases hout with
  | panic p => exact .panic p
  | left h o => exact .left h _
  | right h o => exact .right h _
  | returns h hrel =>
    cases h with
    | error e => exact .returns (.error e) hrel
    | ok h => exact .returns (.ok h.eq) hrel

theorem zoom {ρ υ : Type} {rel' : ρ → υ → Prop} {get : ρ → σ} {set : σ → ρ → ρ} {get' : υ → τ}
    {set' : τ → υ → υ} {x : Prog π σ ε α} {y : Prog π τ ε β} (h : Alike E rel R x y)
    (hget : ∀ u v, rel' u v → rel (get u) (get' v))
    (hset : ∀ u v s t, rel' u v → rel s t → rel' (set s u) (set' t v)) :
    Alike E rel' R (zoom get set x) (zoom get' set' y) := by
  intro u v huv
  have hout := h _ _ (hget u v huv)
  unfold run at hout
  unfold run Prog.zoom
  generalize x (get u) = o, y (get' v) = o' at hout
  cases hout with
  | panic p => exact .panic p
  | left h o => exact .left h _
  | right h o => exact .right h _
  | returns h hrel => exact .returns h (hset u v _ _ huv hrel)

/-- The part that the two programs leave is related as well. -/
theorem withPart {ρ υ : Type} {rel' : ρ × σ → υ × τ → Prop} {P : ρ → υ → Prop} {a : ρ} {b : υ}
    {x : Prog π (ρ × σ) ε α} {y : Prog π (υ × τ) ε β} (h : Alike E rel' R x y)
    (hget : ∀ s t, rel s t → rel' (a, s) (b, t))
    (hset : ∀ p q, rel' p q → P p.1 q.1 ∧ rel p.2 q.2) :
    Alike E rel (fun u v => ResultRel R u.1 v.1 ∧ P u.2 v.2) (withPart a x : Prog π σ ε' _)
      (withPart b y : Prog π τ ε' _) := by
  intro s t hst
  have hout := h _ _ (hget s t hst)
  unfold run at hout
  unfold run Prog.withPart
  generalize x (a, s) = o, y (b, t) = o' at hout
  cases hout with
  | panic p => exact .panic p
  | left h o => exact .left h _
  | right h o => exact .right h _
  | @returns r r' p q h hrel =>
    obtain ⟨hpart, hrel⟩ := hset p q hrel
    exact .returns (.ok ⟨h, hpart⟩) hrel

/-- Programs that leave the state as it is, and panic only as they are allowed to. -/
theorem of_still {x : Prog π σ ε α} {y : Prog π τ ε β}
    (hx : ∀ s, wp x E (fun r s' => s' = s ∧ ∃ a, r = .ok a) s)
    (hy : ∀ t, wp y E (fun r t' => t' = t ∧ ∃ b, r = .ok b) t) :
    Alike E rel (fun _ _ => True) x y := by
  intro s t hst
  have hx := hx s
  have hy := hy t
  unfold wp at hx hy
  generalize x.run s = o, y.run t = o' at hx hy
  rcases o with p | ⟨r, s'⟩
  · have hp : E p := hx
    exact .left hp _
  rcases o' with p | ⟨r', t'⟩
  · have hp : E p := hy
    exact .right hp _
  obtain ⟨rfl, a, rfl⟩ := hx
  obtain ⟨rfl, b, rfl⟩ := hy
  exact .returns (.ok trivial) hst

/-- What the programs return may be related more loosely. -/
theorem mono {R₁ : α → β → Prop} {x : Prog π σ ε α} {y : Prog π τ ε β} (h : Alike E rel R x y)
    (hR : ∀ a b, R a b → R₁ a b) : Alike E rel R₁ x y := by
  intro s t hst
  have hout := h s t hst
  generalize x.run s = o, y.run t = o' at hout
  cases hout with
  | panic p => exact .panic p
  | left h o => exact .left h _
  | right h o => exact .right h _
  | returns h hrel =>
    cases h with
    | error e => exact .returns (.error e) hrel
    | ok h => exact .returns (.ok (hR _ _ h)) hrel

theorem foldlM {f : γ → α → Prog π σ ε γ} {g : δ → α → Prog π τ ε δ} {l : List α}
    (h : ∀ a ∈ l, ∀ b c, R' b c → Alike E rel R' (f b a) (g c a)) :
    ∀ {b : γ} {c : δ}, R' b c → Alike E rel R' (l.foldlM f b) (l.foldlM g c) := by
  induction l with
  | nil => exact fun hbc => .pure hbc
  | cons a l ih =>
    intro b c hbc
    rw [List.foldlM_cons, List.foldlM_cons]
    exact bind (h a (List.mem_cons_self ..) b c hbc) fun b' c' hbc' =>
      ih (fun a' ha' => h a' (List.mem_cons_of_mem _ ha')) hbc'

end Alike

/-- The value of an option that is the same on both sides. -/
inductive OptionRel (R : α → β → Prop) : Option α → Option β → Prop
  | none : OptionRel R none none
  | some {a : α} {b : β} (h : R a b) : OptionRel R (some a) (some b)

/-- Loops whose rounds run alike; it is enough that they do so from the states that the first loop
    reaches. -/
theorem Alike.loop {I : σ → Prop} {x : Prog π σ ε (Option α)} {y : Prog π τ ε (Option β)}
    (h : ∀ s t, rel s t → I s → OutcomeAlike E rel (OptionRel R) (x.run s) (y.run t)) (n : Nat) :
    ∀ s t, rel s t → (∀ s', Rounds x s s' → I s') →
      OutcomeAlike E rel (OptionRel R) ((loop x n).run s) ((loop y n).run t) := by
  induction n with
  | zero => exact fun s t hst _ => .returns (.ok .none) hst
  | succ n ih =>
    intro s t hst hI
    have hround := h s t hst (hI s .refl)
    have hnext : ∀ s', x.run s = .ok (.ok none, s') → ∀ s'', Rounds x s' s'' → I s'' :=
      fun s' hs' s'' hr => hI s'' (.head hs' hr)
    rw [run_loop_succ, run_loop_succ]
    generalize x.run s = o, y.run t = o' at hround hnext
    cases hround with
    | panic p => exact .panic p
    | left h o => exact .left h _
    | right h o => exact .right h _
    | @returns r r' s' t' h hrel =>
      cases h with
      | error e => exact .returns (.error e) hrel
      | ok h =>
        cases h with
        | none => exact ih s' t' hrel (hnext s' rfl)
        | some h => exact .returns (.ok (.some h)) hrel

end

/-! ## Programs that refine the same one -/

/-- Two programs that refine one over abstract states run alike from states of the same abstract
    state. -/
theorem Refines.alike {ρ : Type} {E : π → Prop} {rel₁ : σ → ρ → Prop} {rel₂ : τ → ρ → Prop}
    {x : Prog π σ ε α} {y : Prog π τ ε α} {z : Prog π ρ ε α} (hx : Refines rel₁ Eq x z)
    (hy : Refines rel₂ Eq y z) : Alike E (fun s t => ∃ u, rel₁ s u ∧ rel₂ t u) Eq x y := by
  rintro s t ⟨u, hsu, htu⟩
  have hxz := hx s u hsu
  have hyz := hy t u htu
  generalize x.run s = o, y.run t = o', z.run u = o'' at hxz hyz
  cases hxz with
  | panic p =>
    cases hyz with
    | panic => exact .panic p
  | err e hrel =>
    cases hyz with
    | err _ hrel' => exact .returns (.error e) ⟨_, hrel, hrel'⟩
  | ok h hrel =>
    cases hyz with
    | ok h' hrel' => exact .returns (.ok (h.trans h'.symm)) ⟨_, hrel, hrel'⟩

end Lib.Prog
