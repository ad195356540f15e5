import Mathlib.Order.Basic
import CfxEvm.Lib.Prog

/-!
# Programs that reach only the top of a stack

A state holds a stack, below which more items can be put. A program has the footprint `n` if a run
on a stack of `n` items is the same with any other items below, which are left where they are. So it
neither reads nor moves what is below the topmost `n` items: with those missing it would run out of
items, with those there it would not. How many items it leaves is counted along; the rules are those
of a type system for stack effects.
-/

namespace Lib.Prog

/-- A state with a stack: how many items there are, and the state with more items below them. -/
structure Stacked (σ τ : Type) where
  size : σ → ℕ
  below : τ → σ → σ

variable {π σ ρ τ ε α β : Type}

/-- The same end of a run, with more items below the stack. -/
def Stacked.under (S : Stacked σ τ) (t : τ) : Except π (Except ε α × σ) → Except π (Except ε α × σ)
  | .error p => .error p
  | .ok (r, s) => .ok (r, S.below t s)

/-- Run on a stack of `n` items, the program leaves `m a` items if it returns `a`, and at most `b`
    items if it fails; and it does the same above any other items. -/
structure Footprint (S : Stacked σ τ) (b n : ℕ) (m : α → ℕ) (x : Prog π σ ε α) : Prop where
  leaves : ∀ s, S.size s = n → wp x (fun _ => True) (fun r s' => match r with
    | .ok a => S.size s' = m a
    | .error _ => S.size s' ≤ b) s
  framed : ∀ s t, S.size s = n → x.run (S.below t s) = S.under t (x.run s)

namespace Footprint

variable {S : Stacked σ τ} {b n k : ℕ} {m : α → ℕ} {x y : Prog π σ ε α}

theorem pure {a : α} (h : n = m a) : Footprint S b n m (Pure.pure a : Prog π σ ε α) where
  leaves _ hs := hs.trans h
  framed _ _ _ := rfl

theorem fail (e : ε) (h : n ≤ b) : Footprint S b n m (Prog.fail e : Prog π σ ε α) where
  leaves _ hs := hs.trans_le h
  framed _ _ _ := rfl

theorem abort (p : π) : Footprint S b n m (Prog.abort p : Prog π σ ε α) where
  leaves _ _ := trivial
  framed _ _ _ := rfl

theorem bind {k : α → ℕ} {m : β → ℕ} {f : α → Prog π σ ε β} (hx : Footprint S b n k x)
    (hf : ∀ a, Footprint S b (k a) m (f a)) : Footprint S b n m (x >>= f) where
  leaves s hs := by
    refine wp_bind.mpr (wp_post (hx.leaves s hs) ?_)
    rintro (e | a) s' hsize
    · exact hsize
    · exact (hf a).leaves s' hsize
  framed s t hs := by
    have hsize := hx.leaves s hs
    rw [run_bind, run_bind, hx.framed s t hs]
    rcases hrun : x.run s with p | ⟨_ | a, s'⟩
    · rfl
    · rfl
    · exact (hf a).framed s' t (wp_of_run hsize hrun)

theorem ite {c : Prop} [Decidable c] (hx : c → Footprint S b n m x)
    (hy : ¬c → Footprint S b n m y) :
    Footprint S b n m (if c then x else y) := by
  split
  · exact hx ‹_›
  · exact hy ‹_›

theorem when {c : Bool} {x : Prog π σ ε Unit} {m : Unit → ℕ} (hx : Footprint S b n m x)
    (hc : n = m ()) : Footprint S b n m (Prog.when c x) :=
  ite (fun _ => hx) fun _ => pure hc

theorem expect (p : π) (o : Option α) :
    Footprint S b n (fun _ => n) (Prog.expect p o : Prog π σ ε α) := by
  cases o with
  | none => exact abort p
  | some a => exact pure rfl

theorem assert (c : Bool) (p : π) :
    Footprint S b n (fun _ => n) (Prog.assert c p : Prog π σ ε Unit) :=
  ite (fun _ => pure rfl) fun _ => abort p

/-- What is read is not the stack. -/
theorem gets {f : σ → α} (h : ∀ s t, f (S.below t s) = f s) :
    Footprint S b n (fun _ => n) (Prog.gets f : Prog π σ ε α) where
  leaves _ hs := hs
  framed s t _ := by
    rw [run_gets, run_gets, h]
    rfl

/-- What is written leaves the items below where they are. -/
theorem update {f : σ → σ} {m : Unit → ℕ} (hsize : ∀ s, S.size s = n → S.size (f s) = m ())
    (hbelow : ∀ s t, S.size s = n → f (S.below t s) = S.below t (f s)) :
    Footprint S b n m (Prog.update f : Prog π σ ε Unit) where
  leaves s hs := hsize s hs
  framed s t hs := by
    rw [run_update, run_update, hbelow s t hs]
    rfl

/-- What is written is not the stack. -/
theorem update_apart {f : σ → σ} (hsize : ∀ s, S.size (f s) = S.size s)
    (hbelow : ∀ s t, f (S.below t s) = S.below t (f s)) :
    Footprint S b n (fun _ => n) (Prog.update f : Prog π σ ε Unit) :=
  update (fun s hs => (hsize s).trans hs) fun s t _ => hbelow s t

/-- A program over the part of the state that holds the stack. -/
theorem zoom {T : Stacked ρ τ} {get : ρ → σ} {set : σ → ρ → ρ} (hx : Footprint S b n m x)
    (hsize : ∀ r, S.size (get r) = T.size r) (hset : ∀ s r, T.size (set s r) = S.size s)
    (hget : ∀ t r, get (T.below t r) = S.below t (get r))
    (hbelow : ∀ t s r, set (S.below t s) (T.below t r) = T.below t (set s r)) :
    Footprint T b n m (Prog.zoom get set x) where
  leaves r hr := by
    refine wp_zoom.mpr (wp_post (hx.leaves _ ((hsize r).trans hr)) ?_)
    rintro (e | a) s' hs'
    · exact (hset s' r).trans_le hs'
    · exact (hset s' r).trans hs'
  framed r t hr := by
    have hframed := hx.framed (get r) t ((hsize r).trans hr)
    unfold Prog.run at hframed
    unfold Prog.run Prog.zoom
    rw [hget, hframed]
    rcases x (get r) with p | ⟨a, s'⟩
    · rfl
    · exact congrArg (fun r' => Except.ok (a, r')) (hbelow t s' r)

/-- A program over another part of the state. -/
theorem apart {T : Stacked ρ τ} {get : ρ → σ} {set : σ → ρ → ρ} (x : Prog π σ ε α) (hn : n ≤ b)
    (hset : ∀ s r, T.size (set s r) = T.size r) (hget : ∀ t r, get (T.below t r) = get r)
    (hbelow : ∀ t s r, set s (T.below t r) = T.below t (set s r)) :
    Footprint T b n (fun _ => n) (Prog.zoom get set x) where
  leaves r hr := by
    refine wp_zoom.mpr (wp_intro (fun _ _ => trivial) ?_)
    rintro (e | a) s' -
    · exact (hset s' r).trans_le (hr.trans_le hn)
    · exact (hset s' r).trans hr
  framed r t _ := by
    unfold Prog.run Prog.zoom
    rw [hget]
    rcases x (get r) with p | ⟨a, s'⟩
    · rfl
    · exact congrArg (fun r' => Except.ok (a, r')) (hbelow t s' r)

end Footprint

end Lib.Prog
