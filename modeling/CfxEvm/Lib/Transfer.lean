import Mathlib.Algebra.BigOperators.Ring.Finset
import Mathlib.Data.Fintype.Basic
import Mathlib.Logic.Relation
import Mathlib.Tactic.Common

/-!
# Amounts that are moved between holders

Finitely many holders have an amount each. A transfer takes an amount from one of them and gives it
to another one; whatever is reached by transfers alone has the same sum.
-/

namespace Lib

open scoped BigOperators

variable {ι : Type} [DecidableEq ι]

/-- The amounts after `v` is taken from `i` and given to `j`. -/
def move (f : ι → ℕ) (i j : ι) (v : ℕ) : ι → ℕ :=
  Function.update (Function.update f i (f i - v)) j (Function.update f i (f i - v) j + v)

/-- The holder that receives an amount has it. -/
theorem le_move (f : ι → ℕ) (i j : ι) (v : ℕ) : v ≤ move f i j v j := by
  unfold move
  rw [Function.update_self]
  omega

/-- One holder gives another one an amount that it has. -/
def Transfer (f f' : ι → ℕ) : Prop := ∃ i j v, v ≤ f i ∧ f' = move f i j v

/-- Any number of transfers. -/
abbrev Transfers : (ι → ℕ) → (ι → ℕ) → Prop := Relation.ReflTransGen Transfer

section
variable [Fintype ι]

/-- Replacing one amount changes the sum by the difference. -/
theorem sum_update_add (f : ι → ℕ) (i : ι) (x : ℕ) :
    ∑ k, Function.update f i x k + f i = ∑ k, f k + x := by
  rw [Finset.sum_update_of_mem (Finset.mem_univ i), ← Finset.erase_eq,
    ← Finset.add_sum_erase Finset.univ f (Finset.mem_univ i)]
  omega

theorem sum_move {f : ι → ℕ} {i : ι} {v : ℕ} (h : v ≤ f i) (j : ι) :
    ∑ k, move f i j v k = ∑ k, f k := by
  have h₁ := sum_update_add f i (f i - v)
  have h₂ := sum_update_add (Function.update f i (f i - v)) j
    (Function.update f i (f i - v) j + v)
  unfold move
  omega

theorem Transfers.sum_eq {f f' : ι → ℕ} (h : Transfers f f') : ∑ k, f' k = ∑ k, f k := by
  induction h with
  | refl => rfl
  | tail _ hstep ih =>
    obtain ⟨i, j, v, hle, rfl⟩ := hstep
    rw [sum_move hle j, ih]

end

end Lib
