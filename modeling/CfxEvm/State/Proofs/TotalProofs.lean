import CfxEvm.State.Proofs.BalanceProofs
import Mathlib.Algebra.Order.BigOperators.Group.Finset

/-!
# Proofs: the sum of the balances

What the operations of the ledger do to the sum of all balances and to the number of issued tokens.
-/

open Lib Lib.Prog

namespace CfxEvm

variable [Keccak] {w w' : Ledger} {a b : Address} {v nonce : U256}

namespace Ledger

/-! ## Sums -/

section
omit [Keccak]

theorem balances_le_total (w : Ledger) (a : Address) : w.balances a ≤ w.totalBalance :=
  Finset.single_le_sum (fun _ _ => Nat.zero_le _) (Finset.mem_univ a)

/-- Two different addresses hold no more than all of them. -/
theorem balances_add_le_total (w : Ledger) (h : a ≠ b) :
    w.balances a + w.balances b ≤ w.totalBalance := by
  have hmoved := Lib.sum_move (le_refl (w.balances a)) b
  have hle : Lib.move w.balances a b (w.balances a) b ≤ ∑ k,
      Lib.move w.balances a b (w.balances a) k :=
    Finset.single_le_sum (fun _ _ => Nat.zero_le _) (Finset.mem_univ b)
  rw [hmoved, Lib.move, Function.update_self, Function.update_of_ne h.symm] at hle
  unfold totalBalance
  omega

theorem totalBalance_of_balances (h : w'.balances = w.balances) :
    w'.totalBalance = w.totalBalance := by
  unfold totalBalance
  rw [h]

end

omit [Keccak] in
theorem totalBalance_setAccount (w : Ledger) (a : Address) (u : AccountView) :
    (w.setAccount a u).totalBalance + w.balances a = w.totalBalance + u.balance.toNat := by
  unfold totalBalance
  rw [balances_setAccount]
  exact sum_update_add w.balances a u.balance.toNat

/-! ## Operations -/

omit [Keccak] in
theorem Debited.total (h : Debited a v w w') : w'.totalBalance + v.toNat = w.totalBalance := by
  obtain ⟨hle, hbalances⟩ := h.balances
  have hsum := sum_update_add w.balances a (w.balances a - v.toNat)
  rw [← hbalances] at hsum
  unfold totalBalance
  omega

theorem Received.total (h : Received a v nonce w w') :
    w'.totalBalance = w.totalBalance + v.toNat := by
  have hsum := sum_update_add w.balances a (w.balances a + v.toNat)
  rw [← h.balances] at hsum
  unfold totalBalance
  omega

theorem Sent.total (h : Sent a b v nonce w w') : w'.totalBalance = w.totalBalance := by
  obtain ⟨w₁, hdebited, hreceived⟩ := h
  rw [hreceived.total, hdebited.total]

omit [Keccak] in
theorem Debited.issued (h : Debited a v w w') : w'.total_issued_tokens = w.total_issued_tokens := by
  unfold Debited at h
  split at h
  · rw [h]
  · obtain ⟨u, -, -, rfl⟩ := h
    rfl

theorem Received.issued (h : Received a v nonce w w') :
    w'.total_issued_tokens = w.total_issued_tokens := by
  rcases h with ⟨-, rfl⟩ | ⟨-, rfl⟩ <;> rfl

theorem Sent.issued (h : Sent a b v nonce w w') :
    w'.total_issued_tokens = w.total_issued_tokens := by
  obtain ⟨w₁, hdebited, hreceived⟩ := h
  rw [hreceived.issued, hdebited.issued]

end Ledger

theorem State.issued_eq {db : StateDb} {saved : List Ledger} {s : State} (h : Rep db saved s w) :
    s.total_issued_tokens = w.total_issued_tokens := by
  obtain ⟨_, h⟩ := h
  rw [← h.ledger_eq]
  rfl

end CfxEvm
