import CfxEvm.Execution.Proofs.TransactProofs
import Mathlib.Data.BitVec

/-!
# Proofs: arithmetic before and after the frames

The checks of a transaction compute with the gas, the price, the value and the nonce that the sender
chose, and the settlement with the gas that is left. Which of these computations overflow is decided
by a few bounds: the checks leave a gas limit without one if the price is zero.
-/

open Lib Lib.Prog

namespace CfxEvm

/-! ## The bounds -/

/-- What is refunded; a product that is too large is cut off. -/
def refundValue (tx : Transaction) (gas_left : U256) : ℕ :=
  min (gasRefunded tx gas_left * tx.gas_price.toNat) (2 ^ 256 - 1)

/-- What a transaction costs before it runs: a part for its kind, and one for each byte of its
    data. -/
def baseGas (spec : Spec) (tx : Transaction) : ℕ :=
  (if tx.action = .Create then spec.tx_create_gas else spec.tx_gas) +
    (tx.data.map fun b => if b = 0 then spec.tx_data_zero_gas else spec.tx_data_non_zero_gas).sum

theorem gas_required_for_eq (spec : Spec) (tx : Transaction) :
    gas_required_for (tx.action = .Create) tx.data spec =
      if baseGas spec tx < 2 ^ 64 then some (baseGas spec tx) else none := by
  have hfold : ∀ (data : Bytes) (n : ℕ), data.foldl (fun g b => g +
      if b = 0 then spec.tx_data_zero_gas else spec.tx_data_non_zero_gas) n = n + (data.map fun b =>
        if b = 0 then spec.tx_data_zero_gas else spec.tx_data_non_zero_gas).sum := by
    intro data
    induction data with
    | nil => exact fun _ => rfl
    | cons b data ih =>
      intro n
      rw [List.foldl_cons, ih, List.map_cons, List.sum_cons, Nat.add_assoc]
  unfold gas_required_for baseGas
  simp only [hfold, decide_eq_true_eq]

section
variable [Keccak]

/-- The transaction has another nonce than its sender, or a base gas of 64 bits. -/
def BaseGasFits (g : Globals) (tx : Transaction) (w : Ledger) : Prop :=
  w.nonceOf tx.sender = tx.nonce → baseGas g.spec tx < 2 ^ 64

/-- The sums and products of the settlement are words. -/
structure SettlementFits (tx : Transaction) (output : FrameStackOutput) (balance : ℕ) : Prop where
  estimate : ∀ m, output.observer.gas_man = some m → m.gas_limit.toNat * 7 < 2 ^ 256 ∧
    m.gas_limit.toNat * 7 / 6 + output.base_gas_required < 2 ^ 256
  threefold : 3 * (TXExecutor.gas_left output.result).toNat < 2 ^ 256
  refund : balance + refundValue tx (TXExecutor.gas_left output.result) < 2 ^ 256

variable {g : Globals} {tx : Transaction} {options : TransactOptions} {db : StateDb}
  {saved : List Ledger} {w : Ledger} {t : TxState}

/-! ## The checks -/

namespace Ledger

theorem inc_nonce_returns {a : Address} {nonce : U256}
    (h : (w.accountOrNew a nonce).nonce.toNat + 1 < 2 ^ 256) :
    wp (inc_nonce a nonce) (fun _ => False) (fun _ w' => w'.balances = w.balances) w := by
  refine wp_bind.mpr (wp_gets.mpr ?_)
  show wp (write_account a (w.accountOrNew a nonce).inc_nonce) _ _ w
  rcases hadd : U256.checked_add (w.accountOrNew a nonce).nonce 1 with _ | n
  · have hone : (1 : U256).toNat = 1 := rfl
    have hover := U256.checked_add_eq_none.mp hadd
    omega
  · simp only [AccountView.inc_nonce, hadd]
    exact balances_bump w a nonce n

/-- A credit overflows just if the sum is no word. -/
theorem add_balance_overflows (a : Address) (v nonce : U256) (mode : CleanupMode) (w : Ledger) :
    wp (add_balance a v mode nonce) (fun _ => 2 ^ 256 ≤ w.balances a + v.toNat)
      (fun _ _ => w.balances a + v.toNat < 2 ^ 256) w := by
  by_cases hlt : w.balances a + v.toNat < 2 ^ 256
  · exact wp_mono (add_balance_returns hlt mode nonce) (fun _ h => h.elim) fun _ _ _ => hlt
  · refine wp_bind.mpr (wp_gets.mpr (wp_bind.mpr (wp_when (fun _ => ?_) fun hv => ?_)))
    · refine wp_bind.mpr (wp_gets.mpr ?_)
      show wp (write_account a ((w.accountOrNew a nonce).add_balance v)) _ _ w
      have hnone : U256.checked_add (w.accountOrNew a nonce).balance v = none := by
        rw [U256.checked_add_eq_none, balance_accountOrNew]
        exact not_lt.mp hlt
      simp only [AccountView.add_balance, hnone]
      exact not_lt.mp hlt
    · rw [Bool.or_eq_false_iff] at hv
      have hzero : v = 0 := by simpa using hv.1
      have hword : w.balances a < 2 ^ 256 := (w.balanceOf a).isLt
      rw [hzero] at hlt
      exact absurd hword hlt

end Ledger

namespace TXExecutor

/-- The nonce is counted up and the cost is taken without a panic. -/
theorem bump_and_charge_returns {β : Type} {cost : U256} {mode : CleanupMode}
    (hrep : Rep db saved t.state w) (hcost : cost.toNat ≤ w.balances tx.sender)
    (hbump : (w.accountOrNew tx.sender g.spec.account_start_nonce).nonce.toNat + 1 < 2 ^ 256)
    {f : CleanupMode → TxM β} {Q : Except DbError β → TxState → Prop} (hQ : ∀ e t', Q (.error e) t')
    (hf : ∀ mode' t' w', Rep db saved t'.state w' → wp (f mode') (fun _ => False) Q t') :
    wp (onState (State.inc_nonce tx.sender g.spec.account_start_nonce) >>= fun _ =>
      onState (State.sub_balance tx.sender cost mode) >>= f) (fun _ => False) Q t := by
  refine wp_bind.mpr (wp_onState (inc_nonce_refines _ _) hrep
    (wp_post (Ledger.inc_nonce_returns hbump) ?_))
  rintro (e | _) w₁ hw₁ s₁ hrep₁
  · exact hQ e _
  refine wp_bind.mpr (wp_onState (sub_balance_refines _ _ _) (by exact hrep₁)
    (wp_post (Ledger.sub_balance_returns (by rw [hw₁]; exact hcost) mode) ?_))
  rintro (e | mode') w₂ - s₂ hrep₂
  · exact hQ e _
  · exact hf mode' _ w₂ hrep₂

theorem nonce_accountOrNew (hspec : g.spec.GenesisConstants) (hlt : tx.nonce.toNat < 2 ^ 256 - 1)
    (hnonce : w.nonceOf tx.sender = tx.nonce) :
    (w.accountOrNew tx.sender g.spec.account_start_nonce).nonce.toNat + 1 < 2 ^ 256 := by
  have hstart : g.spec.account_start_nonce = 0 := congrArg Spec.account_start_nonce hspec
  unfold Ledger.nonceOf at hnonce
  unfold Ledger.accountOrNew
  rcases hacc : w.accounts tx.sender with _ | v
  · rw [hstart]
    show (0 : U256).toNat + 1 < 2 ^ 256
    decide
  · rw [hacc] at hnonce
    have hv : v.nonce = tx.nonce := hnonce
    rw [Option.getD_some, hv]
    omega

omit [Keccak] in
/-- What a transaction costs has room in 512 bits. -/
theorem exists_total_cost (tx : Transaction) (options : TransactOptions) : ∃ total,
    U512.checked_add (U512.of_u256 tx.value) (gas_cost tx options) = some total := by
  rcases htotal : U512.checked_add (U512.of_u256 tx.value) (gas_cost tx options) with _ | total
  · have hle := U512.checked_add_eq_none.mp htotal
    rw [U512.toNat_of_u256, toNat_gas_cost] at hle
    have hvalue := tx.value.isLt
    have hproduct : tx.gas.toNat * tx.gas_price.toNat ≤ (2 ^ 256 - 1) * (2 ^ 256 - 1) :=
      Nat.mul_le_mul (Nat.le_pred_of_lt tx.gas.isLt) (Nat.le_pred_of_lt tx.gas_price.isLt)
    have hcost : gasCost tx options ≤ tx.gas.toNat * tx.gas_price.toNat := by
      unfold gasCost
      split
      · exact le_rfl
      · exact Nat.zero_le _
    omega
  · exact ⟨total, rfl⟩

/-- The checks panic just if the base gas overflows. -/
theorem transact_preprocessing_panics (options : TransactOptions)
    (hspec : g.spec.GenesisConstants)
    (hlt : tx.nonce.toNat < 2 ^ 256 - 1) (hrep : Rep db saved t.state w) :
    wp (transact_preprocessing g tx options) (fun _ => ¬BaseGasFits g tx w)
      (fun _ _ => BaseGasFits g tx w) t := by
  refine wp_bind.mpr (wp_onState (nonce_refines _) hrep (wp_gets.mpr ?_))
  intro s₁ hrep₁
  refine wp_ite (fun hold hnonce => ?_) fun hold => wp_ite (fun hnew hnonce => ?_) fun hnew => ?_
  · rw [hnonce] at hold
    exact absurd hold (lt_irrefl _)
  · rw [hnonce] at hnew
    exact absurd hnew (lt_irrefl _)
  have hnonce : w.nonceOf tx.sender = tx.nonce := BitVec.eq_of_toNat_eq (by omega)
  have hbump := nonce_accountOrNew hspec hlt hnonce
  rw [gas_required_for_eq]
  refine wp_bind.mpr (wp_expect (fun hnone hfits => ?_) fun base hbase => ?_)
  · rw [if_pos (hfits hnonce)] at hnone
    cases hnone
  obtain ⟨hlow, hbase⟩ : baseGas g.spec tx < 2 ^ 64 ∧ some (baseGas g.spec tx) = some base := by
    split at hbase
    · exact ⟨‹_›, hbase⟩
    · cases hbase
  obtain rfl := Option.some.inj hbase
  have hfits : BaseGasFits g tx w := fun _ => hlow
  have hany : ∀ {x : TxM PreCheckResult} {t' : TxState},
    wp x (fun _ => False) (fun _ _ => True) t' →
      wp x (fun _ => ¬BaseGasFits g tx w) (fun _ _ => BaseGasFits g tx w) t' :=
    fun hx => wp_mono hx (fun _ h => h.elim) fun _ _ _ => hfits
  refine wp_ite (fun hgas => ?_) fun hgas => ?_
  · -- The gas is below the base gas, which is a `u64`.
    refine wp_bind.mpr (wp_expect (fun hnone => ?_) fun _ _ => hfits)
    have hhigh := U256.as_u64_eq_none.mp hnone
    omega
  refine wp_bind.mpr (wp_onState (balance_refines _) (by exact hrep₁) (wp_gets.mpr ?_))
  intro s₂ hrep₂
  have hbalance : w.balances tx.sender < 2 ^ 256 := (w.balanceOf tx.sender).isLt
  have hsender : (U512.of_u256 (w.balanceOf tx.sender)).toNat = w.balances tx.sender :=
    U512.toNat_of_u256 _
  obtain ⟨total, htotal⟩ := exists_total_cost tx options
  refine wp_bind.mpr (wp_expect (fun hnone => ?_) fun total' htotal' => ?_)
  · rw [htotal] at hnone
    cases hnone
  obtain rfl := Option.some.inj (htotal.symm.trans htotal')
  have hvalue : total.toNat = tx.value.toNat + gasCost tx options := by
    rw [U512.checked_add_eq_some htotal, U512.toNat_of_u256, toNat_gas_cost]
  refine wp_ite (fun hcash => hany ?_) fun hcash => hany ?_
  · -- What is taken is at most the balance.
    refine wp_bind.mpr (wp_expect (fun hnone => ?_) fun cost hcost => ?_)
    · have hlarge := U256.try_from_eq_none.mp hnone
      rw [toNat_lesser, hsender] at hlarge
      omega
    refine wp_bind.mpr (wp_onState (exists_refines _) (by exact hrep₂) (wp_gets.mpr ?_))
    intro s₃ hrep₃
    refine wp_ite (fun _ => trivial) fun _ => ?_
    refine bump_and_charge_returns (by exact hrep₃) ?_ hbump (fun _ _ => trivial)
      fun _ _ _ _ => trivial
    rw [U256.try_from_eq_some.mp hcost, toNat_lesser, hsender]
    exact min_le_right _ _
  · rw [hsender, hvalue, not_lt] at hcash
    obtain ⟨cost, hpaid, hcost⟩ := exists_paid hcash
    show wp (charge g tx options (w.nonceOf tx.sender) (baseGas g.spec tx)
      (gas_cost tx options)) _ _ _
    unfold charge
    rw [hpaid]
    refine bump_and_charge_returns (by exact hrep₂) (by omega) hbump (fun _ _ => trivial) ?_
    intro mode' t' w' hrep'
    refine wp_bind.mpr (wp_expect (fun hnone => ?_) fun init_gas _ => ?_)
    · rw [checked_sub_base (by omega)] at hnone
      cases hnone
    refine wp_bind.mpr (wp_post (top_frame_spec hrep') ?_)
    rintro (e | frame) t'' - <;> trivial

/-! ## The settlement -/

omit [Keccak] in
theorem estimate_panics {output : FrameStackOutput} (hbase : output.base_gas_required < 2 ^ 64) :
    wp (estimate output)
      (fun _ => ¬∀ m, output.observer.gas_man = some m → m.gas_limit.toNat * 7 < 2 ^ 256 ∧
        m.gas_limit.toNat * 7 / 6 + output.base_gas_required < 2 ^ 256)
      (fun r t' => t' = t ∧ (∃ limit, r = .ok limit) ∧ ∀ m, output.observer.gas_man = some m →
        m.gas_limit.toNat * 7 < 2 ^ 256 ∧
        m.gas_limit.toNat * 7 / 6 + output.base_gas_required < 2 ^ 256) t := by
  unfold estimate
  rcases output.observer.gas_man with _ | m
  · exact ⟨rfl, ⟨_, rfl⟩, fun _ h => (nomatch h)⟩
  have hseven : (7 : U256).toNat = 7 := rfl
  have hsix : (6 : U256).toNat = 6 := rfl
  have hword : (BitVec.ofNat 256 output.base_gas_required).toNat = output.base_gas_required := by
    rw [BitVec.toNat_ofNat, Nat.mod_eq_of_lt (by omega)]
  -- The limit is there just if neither the product nor the sum overflows.
  have hlimit : (∃ limit, estimated_gas_limit m output.base_gas_required = some limit) ↔
      m.gas_limit.toNat * 7 < 2 ^ 256 ∧
        m.gas_limit.toNat * 7 / 6 + output.base_gas_required < 2 ^ 256 := by
    unfold estimated_gas_limit U256.checked_mul
    rw [hseven]
    split
    · rename_i hmul
      have hraised : ((m.gas_limit * 7) / 6).toNat = m.gas_limit.toNat * 7 / 6 := by
        rw [BitVec.toNat_udiv, BitVec.toNat_mul, hseven, hsix, Nat.mod_eq_of_lt hmul]
      show (∃ limit, U256.checked_add _ _ = some limit) ↔ _
      unfold U256.checked_add
      rw [hraised, hword]
      split
      · rename_i hadd
        exact ⟨fun _ => ⟨hmul, hadd⟩, fun _ => ⟨_, rfl⟩⟩
      · rename_i hadd
        exact ⟨fun ⟨_, h⟩ => (nomatch h), fun h => absurd h.2 hadd⟩
    · rename_i hmul
      exact ⟨fun ⟨_, h⟩ => (nomatch h), fun h => absurd h.1 hmul⟩
  refine wp_bind.mpr (wp_expect (fun hnone hall => ?_) fun limit hsome => ?_)
  · obtain ⟨limit, h⟩ := hlimit.mpr (hall m rfl)
    rw [hnone] at h
    cases h
  · refine ⟨rfl, ⟨_, rfl⟩, ?_⟩
    rintro _ ⟨⟩
    exact hlimit.mp ⟨limit, hsome⟩

omit [Keccak] in
theorem settle_panics {gas_left : U256} (hle : gas_left.toNat ≤ tx.gas.toNat) :
    wp (settle tx gas_left) (fun _ => 2 ^ 256 ≤ 3 * gas_left.toNat)
      (fun r t' => t' = t ∧ 3 * gas_left.toNat < 2 ^ 256 ∧
        ∃ p, r = .ok p ∧ p.2.2.2.toNat = refundValue tx gas_left) t := by
  refine wp_bind.mpr (wp_expect (fun hnone => ?_) fun gas_used hused => ?_)
  · exact absurd (U256.checked_sub_eq_none.mp hnone) (not_lt.mpr hle)
  have hused := U256.checked_sub_eq_some.mp hused
  refine wp_bind.mpr (wp_expect (fun hnone => ?_) fun twice htwice => ?_)
  · have := U256.checked_add_eq_none.mp hnone
    omega
  have htwice := U256.checked_add_eq_some.mp htwice
  refine wp_bind.mpr (wp_expect (fun hnone => ?_) fun thrice hthrice => ?_)
  · have := U256.checked_add_eq_none.mp hnone
    omega
  have hthrice := U256.checked_add_eq_some.mp hthrice
  have hlt := thrice.isLt
  have hshift : (tx.gas >>> 2).toNat = tx.gas.toNat / 4 := by
    rw [BitVec.toNat_ushiftRight, Nat.shiftRight_eq_div_pow]
  refine wp_ite (fun hquarter => ?_) fun hquarter => ⟨rfl, by omega, _, rfl, ?_⟩
  · refine wp_bind.mpr (wp_expect (fun hnone => ?_) fun gas_charged _ =>
      ⟨rfl, by omega, _, rfl, ?_⟩)
    · have hless := U256.checked_sub_eq_none.mp hnone
      omega
    · rw [U256.toNat_saturating_mul, hshift, refundValue, gasRefunded, if_pos (by omega)]
  · rw [U256.toNat_saturating_mul, refundValue, gasRefunded, if_neg (by omega)]

variable [HashOrder]

/-- The settlement panics just if one of its sums or products is no word. -/
theorem transact_postprocessing_panics {output : FrameStackOutput}
    (hbase : output.base_gas_required < 2 ^ 64)
    (hle : (gas_left output.result).toNat ≤ tx.gas.toNat)
    (hdata : ∀ res, output.result = .ok res → res.return_data.deref.isSome)
    (hrep : Rep db saved t.state w) :
    wp (transact_postprocessing g tx output)
      (fun _ => ¬SettlementFits tx output (w.balances tx.sender))
      (fun _ _ => SettlementFits tx output (w.balances tx.sender)) t := by
  unfold transact_postprocessing
  have hbytes : wp (output_bytes output.result) (fun _ => False)
      (fun r t' => t' = t ∧ ∃ b, r = .ok b) t := by
    unfold output_bytes
    rcases hresult : output.result with e | res
    · exact ⟨rfl, _, rfl⟩
    · obtain ⟨bytes, hbytes⟩ := Option.isSome_iff_exists.mp (hdata res hresult)
      simp only [hbytes]
      exact ⟨rfl, _, rfl⟩
  refine wp_bind.mpr (wp_mono hbytes (fun _ h => h.elim) ?_)
  rintro _ _ ⟨rfl, bytes, rfl⟩
  refine wp_bind.mpr (wp_mono (estimate_panics hbase) (fun _ h hfits => h hfits.estimate) ?_)
  rintro _ _ ⟨rfl, ⟨limit, rfl⟩, hestimate⟩
  refine wp_bind.mpr (wp_mono (settle_panics hle)
    (fun _ h hfits => absurd hfits.threefold (not_lt.mpr h)) ?_)
  rintro _ _ ⟨rfl, hthree, ⟨gas_used, gas_charged, fee, refund⟩, rfl, hrefund⟩
  have hrefund : refund.toNat = refundValue tx (gas_left output.result) := hrefund
  refine wp_bind.mpr (wp_onState (add_balance_refines _ _ _ _) hrep
    (wp_mono (Ledger.add_balance_overflows _ _ _ _ w) ?_ ?_))
  · intro _ hover hfits
    have := hfits.refund
    omega
  rintro (e | mode) w₁ hlt s₁ hrep₁
  · exact ⟨hestimate, hthree, hrefund ▸ hlt⟩
  have hfits : SettlementFits tx output (w.balances tx.sender) := ⟨hestimate, hthree, hrefund ▸ hlt⟩
  refine wp_bind.mpr (wp_mono (kills_spec _ _ (by exact hrep₁)) (fun _ h => h.elim) ?_)
  rintro _ t₂ ⟨hrep₂, rfl⟩
  exact wp_mono (outcome_spec _ _ t₂) (fun _ h => h.elim) fun _ _ _ => hfits

/-- Which arithmetic of the executor overflows. The checks of a transaction complete just if its
    base gas fits in 64 bits, and the settlement of a frame result just if the estimate, three times
    the gas that is left, and the balance of the sender with the refund are words. -/
theorem executor_arithmetic_fits_iff (hspec : g.spec.GenesisConstants)
    (hnonce : tx.nonce.toNat < 2 ^ 256 - 1) {t₂ : TxState} {output : FrameStackOutput}
    (hstate : t.state.Reachable) (hstate₂ : t₂.state.Reachable)
    (hbase : output.base_gas_required < 2 ^ 64)
    (hleft : (gas_left output.result).toNat + output.base_gas_required ≤ tx.gas.toNat)
    (hdata : ∀ res, output.result = .ok res → res.return_data.deref.isSome) :
    ((∃ r t', (transact_preprocessing g tx options).run t = .ok (r, t')) ∧
      ∃ r t', (transact_postprocessing g tx output).run t₂ = .ok (r, t')) ↔
    BaseGasFits g tx t.state.ledger ∧ SettlementFits tx output (t₂.state.balances tx.sender) := by
  obtain ⟨db, saved, w, hrep⟩ := hstate.rep
  obtain ⟨db₂, saved₂, w₂, hrep₂⟩ := hstate₂.rep
  rw [hrep.ledger_eq, State.balances_eq hrep₂]
  have hle : (gas_left output.result).toNat ≤ tx.gas.toNat := by omega
  exact and_congr
    (completes_iff_of_wp (transact_preprocessing_panics options hspec hnonce hrep))
    (completes_iff_of_wp (transact_postprocessing_panics hbase hle hdata hrep₂))

end TXExecutor

end

section
attribute [local instance] keccakOfEmpty HashOrder.asListed

/-- A transaction that calls an address without code, at no price, with a choice of gas. -/
def unpricedCall (gas : U256) : Transaction where
  sender := 7
  nonce := 0
  gas := gas
  gas_price := 0
  data := []
  action := .Call 9
  value := 0

/-- A frame that leaves the gas given. -/
def leavesGas (gas_left : U256) : FrameStackOutput :=
  ⟨.ok ⟨gas_left, true, .empty⟩, .new, .with_no_tracing, 21000⟩

def fromEmpty : TxState := ⟨.new .empty, .new 0⟩

/-- The arithmetic of a small transaction fits. -/
theorem small_gas_fits :
    (∃ r t', (TXExecutor.transact_preprocessing bareMachine (unpricedCall 30000)
        ⟨.with_no_tracing, ⟨true, true⟩⟩).run fromEmpty = .ok (r, t')) ∧
      ∃ r t', (TXExecutor.transact_postprocessing bareMachine (unpricedCall 30000)
        (leavesGas 9000)).run fromEmpty = .ok (r, t') := by
  refine (TXExecutor.executor_arithmetic_fits_iff (by decide) (by decide) ⟨.empty, [], _, rfl⟩
    ⟨.empty, [], _, rfl⟩ (by decide) (by decide) ?_).mpr ⟨?_, ?_, by decide, by decide⟩
  · rintro _ ⟨⟩
    rfl
  · exact fun _ => by decide
  · rintro _ ⟨⟩

/-- A gas limit beyond a third of the words makes the settlement panic, in a transaction that passes
    all checks. -/
theorem boundless_gas_panics :
    (TXExecutor.transact bareMachine (unpricedCall (2 ^ 255 + 21000)) 3
        ⟨.with_no_tracing, ⟨true, true⟩⟩).value fromEmpty = .error .executor_overflow ∧
      ¬∃ r t', (TXExecutor.transact_postprocessing bareMachine (unpricedCall (2 ^ 255 + 21000))
        (leavesGas (2 ^ 255))).run fromEmpty = .ok (r, t') := by
  refine ⟨by decide +kernel, ?_⟩
  rintro ⟨r, t', hrun⟩
  have hpanics : (TXExecutor.transact_postprocessing bareMachine (unpricedCall (2 ^ 255 + 21000))
      (leavesGas (2 ^ 255))).value fromEmpty = .error .executor_overflow := by decide +kernel
  rw [value_eq_ok.mpr ⟨t', hrun⟩] at hpanics
  cases hpanics

end

end CfxEvm
