import CfxEvm.Execution.CallTree
import CfxEvm.Evm.Proofs.PricingProofs

/-!
# Proofs: the estimated gas limit

Over the numbers, a call tree has net costs, a least gas with which it runs, and a minimum as the
gas observer counts it. The observer adds up net costs: of a call with a value it takes the stipend
off the price, although the price has to be there before the stipend comes back. So the estimate is
enough just if the sixth that is added to it makes up for that.
-/

open Lib Lib.Prog

namespace CfxEvm

namespace CallTree

/-! ## Trees as numbers -/

/-- The least gas of which all but a 64th is at least `n`. -/
def inflated (n : Nat) : Nat := if n = 0 then 0 else 64 * (n - 1) / 63 + 1

theorem le_passed_iff (n r : Nat) : n ≤ r - r / 64 ↔ inflated n ≤ r := by
  unfold inflated
  split <;> omega

section
variable {spec : Spec}

/-- What a frame pays itself, less the stipends that its calls bring back. -/
def level : CallTree spec → Nat
  | .done => 0
  | .own cost rest => cost.toNat + rest.level
  | .sub kind cost _ _ rest => cost.toNat - kind.stipend spec + rest.level
  | .refused kind cost _ rest => cost.toNat - kind.stipend spec + rest.level

/-- What a frame and its calls pay. -/
def net : CallTree spec → Nat
  | .done => 0
  | .own cost rest => cost.toNat + rest.net
  | .sub kind cost _ callee rest => cost.toNat - kind.stipend spec + callee.net + rest.net
  | .refused kind cost _ rest => cost.toNat - kind.stipend spec + rest.net

/-- What the calls of a frame pay. -/
def subNet : CallTree spec → Nat
  | .done => 0
  | .own _ rest => rest.subNet
  | .sub _ _ _ callee rest => callee.net + rest.subNet
  | .refused _ _ _ rest => rest.subNet

/-- The sum of the minimums of the calls of a frame. -/
def subMinimum : CallTree spec → Nat
  | .done => 0
  | .own _ rest => rest.subMinimum
  | .sub _ _ _ callee rest =>
    callee.level + (64 * callee.subMinimum + 62) / 63 + rest.subMinimum
  | .refused _ _ _ rest => rest.subMinimum

/-- What a frame pays itself, and 64/63 of the minimums of its calls. -/
def minimum (t : CallTree spec) : Nat := t.level + (64 * t.subMinimum + 62) / 63

/-- The least gas with which a frame runs to its end: at each call its price must be there, and so
    much that the callee gets what it needs beyond the stipend. -/
def needed : CallTree spec → Nat
  | .done => 0
  | .own cost rest => cost.toNat + rest.needed
  | .sub kind cost _ callee rest =>
    max (cost.toNat + inflated (callee.needed - kind.stipend spec))
      (cost.toNat - kind.stipend spec + callee.net + rest.needed)
  | .refused kind cost _ rest => max cost.toNat (cost.toNat - kind.stipend spec + rest.needed)

/-- No call with a value is refused, and each one's callee needs the stipend by the minimum that is
    counted for it. -/
def UsesStipends : CallTree spec → Prop
  | .done => True
  | .own _ rest => rest.UsesStipends
  | .sub kind _ _ callee rest =>
    kind.stipend spec ≤ callee.minimum ∧ callee.UsesStipends ∧ rest.UsesStipends
  | .refused kind _ _ rest => kind.stipend spec = 0 ∧ rest.UsesStipends

theorem net_eq (t : CallTree spec) : t.net = t.level + t.subNet := by
  induction t with
  | done => rfl
  | own cost rest ih => simp only [net, level, subNet, ih]; omega
  | sub kind cost h callee rest _ ih => simp only [net, level, subNet, ih]; omega
  | refused kind cost h rest ih => simp only [net, level, subNet, ih]; omega

theorem net_le_needed (t : CallTree spec) : t.net ≤ t.needed := by
  induction t with
  | done => exact le_rfl
  | own cost rest ih => simp only [net, needed]; omega
  | sub kind cost h callee rest _ ih => simp only [net, needed]; omega
  | refused kind cost h rest ih => simp only [net, needed]; omega

theorem subNet_le_subMinimum (t : CallTree spec) : t.subNet ≤ t.subMinimum := by
  induction t with
  | done => exact le_rfl
  | own cost rest ih => exact ih
  | sub kind cost h callee rest ihCallee ih =>
    have hcallee := net_eq callee
    simp only [subNet, subMinimum]
    omega
  | refused kind cost h rest ih => exact ih

/-- Where the stipends are used, the minimum is enough. -/
theorem needed_le_minimum {t : CallTree spec} (h : t.UsesStipends) :
    t.needed ≤ t.level + (64 * t.subMinimum + 62) / 63 := by
  induction t with
  | done => exact Nat.zero_le _
  | own cost rest ih =>
    have hrest := ih h
    simp only [needed, level, subMinimum]
    omega
  | sub kind cost hcost callee rest ihCallee ih =>
    obtain ⟨hstipend, hcallee, hrest⟩ := h
    have hneeds := ihCallee hcallee
    have hrest := ih hrest
    have hnet := net_eq callee
    have hsubs := subNet_le_subMinimum callee
    unfold minimum at hstipend
    simp only [needed, level, subMinimum, inflated]
    split <;> omega
  | refused kind cost hcost rest ih =>
    obtain ⟨hstipend, hrest⟩ := h
    have hrest := ih hrest
    simp only [needed, level, subMinimum, hstipend]
    omega

end

/-! ## Runs -/

section
variable {spec : Spec} {c : CostType} {o : Option GasMan} {E : Panic → Prop}

theorem stipend_lt (hspec : spec.GenesisConstants) (kind : SubFrame) :
    kind.stipend spec < kind.price spec ∧ kind.stipend spec < 2 ^ 64 := by
  have hstipend : spec.call_stipend = 2300 := congrArg Spec.call_stipend hspec
  have hcall : spec.call_gas = 700 := congrArg Spec.call_gas hspec
  have hvalue : spec.call_value_transfer_gas = 9000 := congrArg Spec.call_value_transfer_gas hspec
  have hcreate : spec.create_gas = 32000 := congrArg Spec.create_gas hspec
  rcases kind with (_ | _) | _ <;> simp only [SubFrame.stipend, SubFrame.price] <;> omega

/-- An instruction is paid for, or there is not enough gas. -/
theorem pay_spec (m : Gasometer c) (cost : U256) :
    wp (pay m cost) E (fun r o' => o' = o ∧
      (cost.toNat ≤ m.current_gas.toNat →
        ∃ m', r = .ok m' ∧ m'.current_gas.toNat = m.current_gas.toNat - cost.toNat) ∧
      (m.current_gas.toNat < cost.toNat → r = .error .OutOfGas)) o := by
  have hlt := m.current_gas.isLt
  refine wp_from_u256 (fun hlarge => ?_) fun gas_cost hcost => ?_
  · exact ⟨rfl, fun hle => absurd hle (by omega), fun _ => rfl⟩
  rw [← hcost]
  refine wp_bind.mpr (wp_ofExcept.mpr ?_)
  by_cases hless : m.current_gas.toNat < gas_cost.toNat
  · rw [Gasometer.verify_gas, if_pos hless]
    exact ⟨rfl, fun hle => absurd hle (by omega), fun _ => rfl⟩
  · rw [Gasometer.verify_gas, if_neg hless]
    refine ⟨rfl, fun hle => ⟨_, rfl, ?_⟩, fun h => absurd h hless⟩
    exact BitVec.toNat_sub_of_le (BitVec.le_def.mpr hle)

/-- A call is paid for together with all but a 64th of what is left, or there is not enough gas. -/
theorem provide_spec (hspec : spec.GenesisConstants) (kind : SubFrame) (m : Gasometer c)
    {cost : U256}
    (hprice : kind.price spec ≤ cost.toNat) :
    wp (provide spec kind m cost) E (fun r o' => o' = o ∧
      (cost.toNat ≤ m.current_gas.toNat → ∃ m' call_gas provided, r = .ok (m', call_gas) ∧
        provided = m.current_gas.toNat - cost.toNat - (m.current_gas.toNat - cost.toNat) / 64 ∧
        call_gas.toNat = provided + kind.stipend spec ∧
        m'.current_gas.toNat = m.current_gas.toNat - cost.toNat - provided) ∧
      (m.current_gas.toNat < cost.toNat → r = .error .OutOfGas)) o := by
  have hlt := m.current_gas.isLt
  obtain ⟨hstipend, hsmall⟩ := stipend_lt hspec kind
  refine wp_from_u256 (fun hlarge => ?_) fun needed hneeded => ?_
  · exact ⟨rfl, fun hle => absurd hle (by omega), fun _ => rfl⟩
  rw [← hneeded] at hprice ⊢
  obtain ⟨hprovided, hrefused⟩ := Gasometer.gas_provided_exact hspec m needed kind.requested
  refine wp_bind.mpr (wp_ofExcept.mpr ?_)
  rcases hres : m.gas_provided spec needed kind.requested with e | provided
  · obtain ⟨rfl, hless⟩ := hrefused e hres
    exact ⟨rfl, fun hle => absurd hle (by omega), fun _ => rfl⟩
  have hvalue := hprovided provided hres
  by_cases hle : needed.toNat ≤ m.current_gas.toNat
  · have hall : provided.toNat =
        m.current_gas.toNat - needed.toNat - (m.current_gas.toNat - needed.toNat) / 64 := by
      rw [hvalue]
      unfold passedOn
      rw [if_pos hle]
      cases kind with
      | call value =>
        have hbits : 2 ^ c.bits ≤ 2 ^ 256 := Nat.pow_le_pow_right (by decide) Cost.bits_le
        have hones : (BitVec.allOnes 256).toNat = 2 ^ 256 - 1 := BitVec.toNat_allOnes
        refine Nat.min_eq_right ?_
        rw [hones]
        omega
      | create => rfl
    refine wp_overflow_add (fun hover => absurd hover (by omega)) fun gas_cost hcost => ?_
    refine wp_bind.mpr (wp_ofExcept.mpr ?_)
    have hverify : m.verify_gas gas_cost = .ok () := if_neg (by omega)
    rw [hverify]
    have hfrom : (Cost.from (kind.stipend spec) : Cost c).toNat = kind.stipend spec :=
      Cost.toNat_from hsmall
    refine wp_bind.mpr (wp_expect (fun hnone => ?_) fun call_gas hcall => ?_)
    · rw [Cost.checked_add_of_lt (by omega)] at hnone
      cases hnone
    · refine ⟨rfl, fun _ => ⟨_, _, _, rfl, hall, ?_, ?_⟩, fun h => absurd h (by omega)⟩
      · rw [Cost.toNat_of_checked_add hcall, hfrom]
      · show (m.current_gas - gas_cost).toNat = _
        rw [BitVec.toNat_sub_of_le (BitVec.le_def.mpr (by omega)), hcost]
        omega
  · have hmore : m.current_gas.toNat < needed.toNat := not_le.mp hle
    refine wp_overflow_add (fun _ => ?_) fun gas_cost hcost => ?_
    · exact ⟨rfl, fun h => absurd h hle, fun _ => rfl⟩
    refine wp_bind.mpr (wp_ofExcept.mpr ?_)
    have hverify : m.verify_gas gas_cost = .error .OutOfGas := if_pos (by omega)
    rw [hverify]
    exact ⟨rfl, fun h => absurd h hle, fun _ => rfl⟩

/-- Unused gas is taken back. -/
theorem unused_spec (m : Gasometer c) {gas : Cost c}
    (h : m.current_gas.toNat + gas.toNat < 2 ^ c.bits) :
    wp (unused m gas) E (fun r o' => o' = o ∧
      ∃ m', r = .ok m' ∧ m'.current_gas.toNat = m.current_gas.toNat + gas.toNat) o := by
  refine wp_bind.mpr (wp_expect (fun hnone => ?_) fun current_gas hsum => ?_)
  · rw [Cost.checked_add_of_lt h] at hnone
    cases hnone
  · exact ⟨rfl, _, rfl, Cost.toNat_of_checked_add hsum⟩

/-- What a minimum is, unless it overflows. -/
theorem toNat_of_minimum_init_gas {level : ExecutiveLevel} {gas_left gas : U256}
    (h : level.minimum_init_gas gas_left EVM_RATIO = some gas) :
    gas.toNat = level.init_gas.toNat - gas_left.toNat - level.gas_cost_in_subcall.toNat +
      (64 * level.gas_limit_for_subcall.toNat + 62) / 63 := by
  unfold ExecutiveLevel.minimum_init_gas at h
  obtain ⟨scaled, hscaled, h⟩ := Option.bind_eq_some_iff.mp h
  obtain ⟨raised, hraised, h⟩ := Option.bind_eq_some_iff.mp h
  rw [U256.checked_mul_eq_some] at hscaled
  rw [U256.checked_add_eq_some] at hraised h
  have h64 : (BitVec.ofNat 256 EVM_RATIO.1).toNat = 64 := rfl
  have h63 : (BitVec.ofNat 256 EVM_RATIO.2).toNat = 63 := rfl
  have h1 : (1 : U256).toNat = 1 := rfl
  rw [h64] at hscaled
  rw [h63] at hraised
  have hless : (raised - 1).toNat = raised.toNat - 1 :=
    BitVec.toNat_sub_of_le (BitVec.le_def.mpr (by omega))
  rw [h, ExecutiveLevel.gas_cost_this_level, ExecutiveLevel.gas_cost, U256.toNat_saturating_sub,
    U256.toNat_saturating_sub, BitVec.toNat_udiv, hless, h63]
  omega

/-- What the observer has seen of the frame it is in, or of the outermost one: what was paid there,
    and the minimum for it. -/
inductive Seen (net minimum : Nat) : Option GasMan → Option GasMan → Prop
  | unobserved : Seen net minimum none none
  | inFrame {limit : U256} {level level' : ExecutiveLevel} {levels : List ExecutiveLevel}
      (init_gas : level'.init_gas = level.init_gas)
      (ratio : level'.cross_space_internal = level.cross_space_internal)
      (cost : level'.gas_cost_in_subcall.toNat = level.gas_cost_in_subcall.toNat + net)
      (sub_limit : level'.gas_limit_for_subcall.toNat =
        level.gas_limit_for_subcall.toNat + minimum) :
      Seen net minimum (some ⟨limit, level :: levels⟩) (some ⟨limit, level' :: levels⟩)
  | outermost {limit gas : U256} (h : gas.toNat = minimum) :
      Seen net minimum (some ⟨limit, []⟩) (some ⟨gas, []⟩)

/-- The observer is in a frame, if there is one. -/
def InFrame (o : Option GasMan) : Prop := ∀ m, o = some m → m.gas_record ≠ []

theorem Seen.refl (h : InFrame o) : Seen 0 0 o o := by
  rcases o with _ | ⟨limit, _ | ⟨level, levels⟩⟩
  · exact .unobserved
  · exact absurd rfl (h _ rfl)
  · exact .inFrame rfl rfl rfl rfl

theorem Seen.inFrame_right {net minimum : Nat} {o' : Option GasMan} (ho : InFrame o)
    (h : Seen net minimum o o') : InFrame o' := by
  cases h with
  | unobserved => exact ho
  | inFrame => rintro _ ⟨⟩ hnil; cases hnil
  | outermost => exact absurd rfl (ho _ rfl)

theorem Seen.trans {net₁ net₂ minimum₁ minimum₂ : Nat} {o₁ o₂ : Option GasMan} (ho : InFrame o)
    (h₁ : Seen net₁ minimum₁ o o₁) (h₂ : Seen net₂ minimum₂ o₁ o₂) :
    Seen (net₁ + net₂) (minimum₁ + minimum₂) o o₂ := by
  cases h₁ with
  | unobserved => cases h₂; exact .unobserved
  | inFrame init ratio cost limit =>
    cases h₂ with
    | inFrame init' ratio' cost' limit' =>
      exact .inFrame (init'.trans init) (ratio'.trans ratio) (by omega) (by omega)
  | outermost => exact absurd rfl (ho _ rfl)

/-- A run of a frame, or of the rest of one, with the given gas: it ends just if it has what is
    needed, and then pays its net costs, and the observer sees them. -/
structure Runs (t : CallTree spec) (gas net minimum : Nat) {α : Type} (left : α → Nat)
    (o : Option GasMan) (r : Except VmError α) (o' : Option GasMan) : Prop where
  ends : t.needed ≤ gas → ∃ a, r = .ok a ∧ left a = gas - t.net ∧ Seen net minimum o o'
  fails : gas < t.needed → r = .error .OutOfGas

theorem Runs.error {t : CallTree spec} {gas net minimum : Nat} {α : Type} {left : α → Nat}
    {o' : Option GasMan} (h : gas < t.needed) :
    Runs t gas net minimum left o (.error .OutOfGas) o' :=
  ⟨fun hle => absurd h (not_lt.mpr hle), fun _ => rfl⟩

/-- A run goes on as one of the rest does. -/
theorem Runs.step {t rest : CallTree spec} {gas gas' net net' minimum minimum' : Nat} {α : Type}
    {left : α → Nat} {r : Except VmError α} {o₁ o' : Option GasMan}
    (h : Runs rest gas' net minimum left o₁ r o') (hneeded : t.needed ≤ gas ↔ rest.needed ≤ gas')
    (hnet : rest.needed ≤ gas' → gas' - rest.net = gas - t.net)
    (hseen : Seen net minimum o₁ o' → Seen net' minimum' o o') :
    Runs t gas net' minimum' left o r o' where
  ends hle := by
    obtain ⟨a, hr, hleft, hobserved⟩ := h.ends (hneeded.mp hle)
    exact ⟨a, hr, hleft.trans (hnet (hneeded.mp hle)), hseen hobserved⟩
  fails hlt := h.fails (not_le.mp fun hle => absurd (hneeded.mpr hle) (not_le.mpr hlt))

/-- The observer takes up the result of a frame. -/
theorem record_result_spec {t : CallTree spec} {gas gas_left : U256}
    (hleft : gas_left.toNat = gas.toNat - t.net) (hle : t.net ≤ gas.toNat) {o₁ : Option GasMan}
    (hseen : Seen t.subNet t.subMinimum (o.map (·.record_call_create gas false)) o₁) :
    wp (GasM.record_result gas_left) (fun _ => o.isSome)
      (fun r o' => r = .ok () ∧ Seen t.net t.minimum o o') o₁ := by
  have hnet := net_eq t
  refine wp_bind.mpr (wp_gets.mpr ?_)
  rcases o with _ | ⟨limit, levels⟩
  · cases hseen
    exact ⟨rfl, .unobserved⟩
  · cases hseen with
    | inFrame init ratio cost sub =>
      rename_i level'
      have hcost : level'.gas_cost_in_subcall.toNat = t.subNet := cost.trans (Nat.zero_add _)
      have hsub : level'.gas_limit_for_subcall.toNat = t.subMinimum := sub.trans (Nat.zero_add _)
      refine wp_bind.mpr (wp_ofPanic (fun _ _ => rfl) fun m hm => ?_)
      refine ⟨rfl, ?_⟩
      have hratio : (if level'.cross_space_internal then CROSS_SPACE_RATIO else EVM_RATIO) =
          EVM_RATIO := by rw [ratio]; rfl
      simp only [GasMan.record_return, hratio] at hm
      rcases hgas : level'.minimum_init_gas gas_left EVM_RATIO with _ | gas'
      · simp [hgas] at hm
      have hvalue := toNat_of_minimum_init_gas hgas
      rw [init, hcost, hsub] at hvalue
      have hminimum : gas'.toNat = t.minimum := by
        rw [hvalue, minimum]
        show gas.toNat - _ - _ + _ = _
        omega
      rw [hgas] at hm
      rcases levels with _ | ⟨parent, levels⟩
      · cases hm
        exact .outermost hminimum
      · have hpaid : (level'.gas_cost gas_left).toNat = t.net := by
          rw [ExecutiveLevel.gas_cost, U256.toNat_saturating_sub, init]
          show gas.toNat - _ = _
          omega
        dsimp only at hm
        split at hm
        · rename_i cost' limit' hcost' hlimit'
          cases hm
          rw [U256.checked_add_eq_some] at hcost' hlimit'
          exact .inFrame rfl rfl (hcost'.trans (by rw [hpaid])) (hlimit'.trans (by rw [hminimum]))
        · cases hm

/-- A frame that runs as its body does. -/
theorem enter_spec {t : CallTree spec} {gas : U256}
    (hbody : ∀ (o₁ : Option GasMan) (m : Gasometer (costType gas)), InFrame o₁ →
      wp (t.exec m) (fun _ => o₁.isSome)
        (Runs t m.current_gas.toNat t.subNet t.subMinimum (·.current_gas.toNat) o₁) o₁) :
    wp (enter gas fun start => t.exec start) (fun _ => o.isSome)
      (Runs t gas.toNat t.net t.minimum BitVec.toNat o) o := by
  have hfits : gas.toNat < 2 ^ (costType gas).bits := by
    have hlt := gas.isLt
    unfold costType
    split
    · assumption
    · exact hlt
  refine wp_bind.mpr (wp_update.mpr ?_)
  refine wp_from_u256 (fun hlarge => absurd hlarge (not_le.mpr hfits)) fun start hstart => ?_
  have hframe : InFrame (o.map (·.record_call_create gas false)) := by
    rintro m hm hnil
    obtain ⟨m', -, rfl⟩ := Option.map_eq_some_iff.mp hm
    cases hnil
  refine wp_bind.mpr (wp_mono (hbody _ (.new start) hframe) (fun _ hsome => ?_)
    fun r o₁ hruns => ?_)
  · rwa [Option.isSome_map] at hsome
  rw [show (Gasometer.new start).current_gas.toNat = gas.toNat from hstart] at hruns
  by_cases hneeded : t.needed ≤ gas.toNat
  · obtain ⟨finish, rfl, hleft, hseen⟩ := hruns.ends hneeded
    have hle := (net_le_needed t).trans hneeded
    have hvalue : finish.current_gas.as_u256.toNat = gas.toNat - t.net :=
      (Cost.toNat_as_u256 _).trans hleft
    refine wp_bind.mpr (wp_post (record_result_spec hvalue hle hseen) ?_)
    rintro _ o₂ ⟨rfl, hseen₂⟩
    exact ⟨fun _ => ⟨_, rfl, hvalue, hseen₂⟩, fun hless => absurd hneeded (not_le.mpr hless)⟩
  · have hless := not_le.mp hneeded
    obtain rfl := hruns.fails hless
    exact .error hless

/-- The gas that a callee leaves fits the type of the caller. -/
theorem gasLeft_spec {gas_left : U256} (h : gas_left.toNat < 2 ^ c.bits) :
    wp (gasLeft gas_left : GasM (Cost c)) E
      (fun r o' => o' = o ∧ ∃ gas, r = .ok gas ∧ gas.toNat = gas_left.toNat) o := by
  have hres := Cost.from_u256_of_lt h
  unfold gasLeft
  rw [hres]
  exact ⟨rfl, _, rfl, Cost.toNat_of_from_u256 hres⟩

/-- A frame runs to its end just if it has the gas that is needed. -/
theorem exec_spec (hspec : spec.GenesisConstants) (t : CallTree spec) :
    ∀ {c : CostType} (m : Gasometer c) (o : Option GasMan), InFrame o →
      wp (t.exec m) (fun _ => o.isSome)
        (Runs t m.current_gas.toNat t.subNet t.subMinimum (·.current_gas.toNat) o) o := by
  induction t with
  | done =>
    intro c m o ho
    exact ⟨fun _ => ⟨m, rfl, rfl, .refl ho⟩, fun hless => absurd hless (Nat.not_lt_zero _)⟩
  | own cost rest ih =>
    intro c m o ho
    have hneeded : (own cost rest).needed = cost.toNat + rest.needed := rfl
    have hnet : (own cost rest).net = cost.toNat + rest.net := rfl
    refine wp_bind.mpr (wp_post (pay_spec m cost) ?_)
    rintro r _ ⟨rfl, hpaid, hless⟩
    by_cases hle : cost.toNat ≤ m.current_gas.toNat
    · obtain ⟨m', rfl, hgas⟩ := hpaid hle
      clear hpaid hless
      refine wp_post (ih m' _ ho) fun r o' hruns => ?_
      exact hruns.step (by omega) (by omega) id
    · obtain rfl := hless (not_le.mp hle)
      exact .error (by omega)
  | refused kind cost hprice rest ih =>
    intro c m o ho
    have hneeded : (refused kind cost hprice rest).needed =
      max cost.toNat (cost.toNat - kind.stipend spec + rest.needed) := rfl
    have hnet : (refused kind cost hprice rest).net =
      cost.toNat - kind.stipend spec + rest.net := rfl
    have hstipend := (stipend_lt hspec kind).1
    have hlt := m.current_gas.isLt
    refine wp_bind.mpr (wp_post (provide_spec hspec kind m hprice) ?_)
    rintro r _ ⟨rfl, hpaid, hless⟩
    by_cases hle : cost.toNat ≤ m.current_gas.toNat
    · obtain ⟨m', call_gas, provided, rfl, hprovided, hcall, hgas⟩ := hpaid hle
      clear hpaid hless
      refine wp_bind.mpr (wp_post (unused_spec m' (by omega)) ?_)
      rintro _ _ ⟨rfl, m'', rfl, hback⟩
      refine wp_post (ih m'' _ ho) fun r o' hruns => ?_
      exact hruns.step (by omega) (by omega) id
    · obtain rfl := hless (not_le.mp hle)
      exact .error (by omega)
  | sub kind cost hprice callee rest ihCallee ih =>
    intro c m o ho
    have hneeded : (sub kind cost hprice callee rest).needed =
      max (cost.toNat + inflated (callee.needed - kind.stipend spec))
        (cost.toNat - kind.stipend spec + callee.net + rest.needed) := rfl
    have hnet : (sub kind cost hprice callee rest).net =
      cost.toNat - kind.stipend spec + callee.net + rest.net := rfl
    have hstipend := (stipend_lt hspec kind).1
    have hlt := m.current_gas.isLt
    refine wp_bind.mpr (wp_post (provide_spec hspec kind m hprice) ?_)
    rintro r _ ⟨rfl, hpaid, hless⟩
    by_cases hle : cost.toNat ≤ m.current_gas.toNat
    · obtain ⟨m', call_gas, provided, rfl, hprovided, hcall, hgas⟩ := hpaid hle
      clear hpaid hless
      have hpassed := le_passed_iff (callee.needed - kind.stipend spec)
        (m.current_gas.toNat - cost.toNat)
      rw [← hprovided] at hpassed
      have hcalleeNet := net_le_needed callee
      refine wp_bind.mpr (wp_post (enter_spec fun o₁ start ho₁ => ihCallee start o₁ ho₁) ?_)
      intro r o₁ hruns
      rw [Cost.toNat_as_u256, hcall] at hruns
      by_cases hcallee : callee.needed ≤ provided + kind.stipend spec
      · obtain ⟨gas_left, rfl, hleft, hseen⟩ := hruns.ends hcallee
        clear hruns
        refine wp_bind.mpr (wp_post (gasLeft_spec (by omega)) ?_)
        rintro _ _ ⟨rfl, gas, rfl, hsame⟩
        refine wp_bind.mpr (wp_post (unused_spec m' (by omega)) ?_)
        rintro _ _ ⟨rfl, m'', rfl, hback⟩
        refine wp_mono (ih m'' _ (hseen.inFrame_right ho)) (fun _ hsome => ?_) fun r o' hruns => ?_
        · cases hseen <;> exact hsome
        · exact hruns.step (by omega) (by omega) (hseen.trans ho)
      · have hless := not_le.mp hcallee
        obtain rfl := hruns.fails hless
        clear hruns
        exact .error (by omega)
    · obtain rfl := hless (not_le.mp hle)
      exact .error (by omega)

/-- A transaction runs as its first frame does with the gas beyond the base gas. -/
theorem transact_spec (hspec : spec.GenesisConstants) (t : CallTree spec) {base : ℕ} {gas : U256}
    (hbase : base ≤ gas.toNat) :
    wp (t.transact base gas) (fun _ => o.isSome)
      (Runs t (gas.toNat - base) t.net t.minimum BitVec.toNat o) o := by
  have hlt := gas.isLt
  have hvalue : (BitVec.ofNat 256 base).toNat = base := by
    rw [BitVec.toNat_ofNat, Nat.mod_eq_of_lt (by omega)]
  have hrest : (gas - BitVec.ofNat 256 base).toNat = gas.toNat - base := by
    rw [BitVec.toNat_sub_of_le (BitVec.le_def.mpr (by omega)), hvalue]
  unfold transact
  rw [if_neg (not_lt.mpr hbase), ← hrest]
  exact enter_spec fun o₁ m ho₁ => exec_spec hspec t m o₁ ho₁

/-- A run that was observed from the outside ends with the minimum. -/
theorem gas_limit_of_transact (hspec : spec.GenesisConstants) {t : CallTree spec} {base : ℕ}
    {gas gas_left : U256} {m : GasMan}
    (hrun : (t.transact base gas).run (some .default) = .ok (.ok gas_left, some m)) :
    m.gas_limit.toNat = t.minimum := by
  have hbase : base ≤ gas.toNat := by
    by_contra hless
    rw [transact, if_pos (not_le.mp hless)] at hrun
    cases hrun
  have hruns := wp_of_run (transact_spec hspec t hbase) hrun
  by_cases hneeded : t.needed ≤ gas.toNat - base
  · obtain ⟨_, -, -, hseen⟩ := hruns.ends hneeded
    cases hseen with
    | outermost h => exact h
  · have herror := hruns.fails (not_le.mp hneeded)
    cases herror

/-- The estimate that follows a run with enough gas is itself enough just if 7/6 of the minimum is
    what the tree needs. It is so if the stipends are used. -/
theorem estimate_suffices_iff (hspec : spec.GenesisConstants) {t : CallTree spec} {base : ℕ}
    {gas gas_left limit : U256} {m : GasMan} (hbase : base < 2 ^ 64)
    (hrun : (t.transact base gas).run (some .default) = .ok (.ok gas_left, some m))
    (hlimit : TXExecutor.estimated_gas_limit m base = some limit) :
    ((∃ gas_left', (t.transact base limit).run none = .ok (.ok gas_left', none)) ↔
      6 * t.needed ≤ 7 * t.minimum) ∧
    (t.UsesStipends → 6 * t.needed ≤ 7 * t.minimum) := by
  have hminimum := gas_limit_of_transact hspec hrun
  have hvalue : limit.toNat = 7 * t.minimum / 6 + base := by
    unfold TXExecutor.estimated_gas_limit at hlimit
    obtain ⟨raised, hraised, hlimit⟩ := Option.bind_eq_some_iff.mp hlimit
    rw [U256.checked_mul_eq_some] at hraised
    rw [U256.checked_add_eq_some] at hlimit
    have h7 : (7 : U256).toNat = 7 := rfl
    have h6 : (6 : U256).toNat = 6 := rfl
    rw [hlimit, BitVec.toNat_udiv, hraised, hminimum, h7, h6, BitVec.toNat_ofNat,
      Nat.mod_eq_of_lt (by omega), Nat.mul_comm]
  have hle : base ≤ limit.toNat := by omega
  refine ⟨⟨?_, fun hneeded => ?_⟩, fun h => ?_⟩
  · rintro ⟨gas_left', hrerun⟩
    have hruns := wp_of_run (transact_spec hspec t hle) hrerun
    by_contra hneeded
    have herror := hruns.fails (by omega)
    cases herror
  · obtain ⟨r, o, hrerun, hruns⟩ :=
      exists_run_of_wp (wp_mono (transact_spec (o := none) hspec t hle)
      (fun _ hsome => by cases hsome) fun _ _ hruns => hruns)
    obtain ⟨gas_left', rfl, -, hseen⟩ := hruns.ends (by omega)
    cases hseen
    exact ⟨gas_left', hrerun⟩
  · have hneeded := needed_le_minimum h
    unfold minimum
    omega

end

/-- A call without a value whose callee pays for some instructions. -/
def plainCall : CallTree .genesis_spec :=
  .own 100 (.sub (.call false) 700 (by decide) (.own 500 .done) .done)

/-- The estimate of a plain call is enough for it. -/
theorem plain_call_estimate_suffices :
    ∃ gas_left, (plainCall.transact 21000 22526).run none = .ok (.ok gas_left, none) := by
  have hrun : (plainCall.transact 21000 100000).run (some .default) =
    .ok (.ok 77700, some ⟨1308, []⟩) := by decide +kernel
  have hlimit : TXExecutor.estimated_gas_limit ⟨1308, []⟩ 21000 = some 22526 := by decide +kernel
  have hspec : Spec.genesis_spec.GenesisConstants := by decide
  obtain ⟨henough, hstipends⟩ := estimate_suffices_iff hspec (by decide) hrun hlimit
  exact henough.mpr (hstipends ⟨by decide, trivial, trivial⟩)

/-- A call that transfers a value to an account without code. Its seven operands are pushed
    before. -/
def valueTransfer : CallTree .genesis_spec :=
  .own 21 (.sub (.call true) 9700 (by decide) .done .done)

/-- The estimate of a transfer is less than its price, so that it runs out of gas. -/
theorem value_transfer_runs_out_of_gas :
    (valueTransfer.transact 21000 100000).run (some .default) =
        .ok (.ok 71579, some ⟨7421, []⟩) ∧
      TXExecutor.estimated_gas_limit ⟨7421, []⟩ 21000 = some 29657 ∧
      (valueTransfer.transact 21000 29657).run none = .ok (.error .OutOfGas, none) := by
  decide +kernel

end CallTree

end CfxEvm
