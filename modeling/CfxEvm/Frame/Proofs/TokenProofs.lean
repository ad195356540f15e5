import CfxEvm.Execution.Runs
import CfxEvm.Frame.Proofs.SiteProofs
import CfxEvm.State.Proofs.TotalProofs

/-!
# Proofs: tokens along the frames

The code of a frame moves balances, burns what a contract holds that destroys itself in its own
favour, and makes new contracts with what was sent to them. None of this raises the sum of the
balances, as long as no contract is made at the address of its creator, and what is lost is no
longer issued.
-/

open Lib Lib.Prog

namespace CfxEvm

variable [Keccak] {g : Globals} {w w' : Ledger} {a b : Address} {v : U256}

/-! ## Creations and destructions -/

/-- The creation of a contract loses tokens only if there are too many of them to be counted. -/
theorem Ledger.Endowed.total (h : Endowed a b v w w') (hne : b ≠ a) :
    w'.totalBalance ≤ w.totalBalance ∧
      (w.totalBalance < 2 ^ 256 → w'.totalBalance = w.totalBalance) ∧
      w'.total_issued_tokens = w.total_issued_tokens := by
  obtain ⟨w₁, hdebited, rfl⟩ := h
  have hset := w₁.totalBalance_setAccount b (.contract b (U256.saturating_add v (w.balanceOf b)) 1
    ((w₁.accounts b).any AccountView.invalidated_storage) (w₁.stored b))
  obtain ⟨hle, hbalances⟩ := hdebited.balances
  have htotal := hdebited.total
  have hsum := w.balances_add_le_total hne.symm
  have hb : w₁.balances b = w.balances b := by rw [hbalances, Function.update_of_ne hne]
  have hnew : (U256.saturating_add v (w.balanceOf b)).toNat =
      min (v.toNat + w.balances b) (2 ^ 256 - 1) := U256.toNat_saturating_add
  change _ = _ + (U256.saturating_add v (w.balanceOf b)).toNat at hset
  rw [hb, hnew] at hset
  refine ⟨by omega, fun hlt => by omega, hdebited.issued⟩

/-- What a contract holds when it destroys itself goes to the refund address, or is burnt if that is
    the contract itself. -/
inductive Ledger.Destroyed (a refund : Address) (nonce : U256) (w : Ledger) : Ledger → Prop
  | burnt {w₁ : Ledger} (hself : refund = a) (hdebited : Debited a (w.balanceOf a) w w₁) :
      Destroyed a refund nonce w { w₁ with
        total_issued_tokens := U256.saturating_sub w.total_issued_tokens (w.balanceOf a) }
  | sent {w' : Ledger} (hother : refund ≠ a) (hsent : Sent a refund (w.balanceOf a) nonce w w') :
      Destroyed a refund nonce w w'

section
variable {db : StateDb} {saved : List Ledger} {h : Host State}

/-- A contract destroys itself; this fails only if there is none. -/
theorem suicide_spec (hrep : Rep db saved h.state w) (a refund : Address) (spec : Spec)
    (nonce : U256) :
    wp (suicide a refund spec nonce) (fun _ => True) (fun r h' => ∃ w', Rep db saved h'.state w' ∧
      (r = .ok () → w.Destroyed a refund nonce w') ∧ ∀ e, r = .error e → w' = w) h := by
  refine wp_bind.mpr (wp_update.mpr ?_)
  refine wp_bind.mpr (wp_mapErr.mpr (wp_inState (balance_refines a) (by exact hrep)
    (wp_gets.mpr fun s₁ hrep₁ => ?_)))
  refine wp_ite (fun hself => ?_) fun hother => ?_
  · refine wp_bind.mpr (wp_update.mpr (wp_bind.mpr (wp_mapErr.mpr (wp_inTouched
      (fun _ => sub_balance_refines _ _ _) (by exact hrep₁)
      (wp_post (Ledger.sub_balance_debits _ _ _ w) ?_)))))
    rintro (e | mode) w₂ ⟨hok, herr⟩ s₂ hrep₂
    · exact ⟨w₂, hrep₂, by rintro ⟨⟩, fun _ _ => (herr e rfl).1⟩
    · have hdebited := hok mode rfl
      refine wp_mapErr.mpr (wp_inState (subtract_total_issued_refines _) (by exact hrep₂)
        (wp_update.mpr fun s₃ hrep₃ => ?_))
      refine ⟨_, hrep₃, fun _ => ?_, by rintro _ ⟨⟩⟩
      rw [hdebited.issued]
      exact .burnt hself hdebited
  · refine wp_bind.mpr (wp_update.mpr (wp_mapErr.mpr (wp_inTouched
      (fun _ => transfer_balance_refines _ _ _ _ _) (by exact hrep₁)
      (wp_post (Ledger.transfer_balance_sent _ _ _ _ _ w) ?_))))
    rintro (e | mode) w₂ ⟨hok, herr⟩ s₂ hrep₂
    · exact ⟨w₂, hrep₂, by rintro ⟨⟩, fun _ _ => (herr e rfl).1⟩
    · exact ⟨w₂, hrep₂, fun _ => .sent hother (hok mode rfl), by rintro _ ⟨⟩⟩

end

/-! ## Relations that look at tokens alone -/

/-- A relation between ledgers that allows whatever keeps the sum of the balances, and to burn a
    balance. -/
structure TokenLaw (P : Ledger → Ledger → Prop) : Prop where
  refl : ∀ w, P w w
  trans : ∀ {w₁ w₂ w₃}, P w₁ w₂ → P w₂ w₃ → P w₁ w₃
  same : ∀ {w w' : Ledger}, w'.totalBalance ≤ w.totalBalance →
    (w.totalBalance < 2 ^ 256 → w'.totalBalance = w.totalBalance) →
    w'.total_issued_tokens = w.total_issued_tokens → P w w'
  burnt : ∀ {w w' : Ledger} {v : U256}, w'.totalBalance + v.toNat = w.totalBalance →
    w'.total_issued_tokens = U256.saturating_sub w.total_issued_tokens v → P w w'

namespace TokenLaw

variable {P : Ledger → Ledger → Prop} (hP : TokenLaw P)
include hP

omit [Keccak] in
theorem of_balances (h : w'.balances = w.balances)
    (hissued : w'.total_issued_tokens = w.total_issued_tokens) : P w w' := by
  have htotal := Ledger.totalBalance_of_balances h
  exact hP.same htotal.le (fun _ => htotal) hissued

theorem sent {nonce : U256} (h : Ledger.Sent a b v nonce w w') : P w w' :=
  hP.same h.total.le (fun _ => h.total) h.issued

theorem transfer_balance (from_ to_ : Address) (v : U256) (mode : CleanupMode) (nonce : U256) :
    Keeps P (Ledger.transfer_balance from_ to_ v mode nonce) := by
  intro w
  refine wp_post (Ledger.transfer_balance_sent from_ to_ v nonce mode w) ?_
  rintro (e | mode') w' ⟨hok, herr⟩
  · rw [(herr e rfl).1]
    exact hP.refl w
  · exact hP.sent (hok mode' rfl)

theorem inc_nonce (a : Address) (nonce : U256) : Keeps P (Ledger.inc_nonce a nonce) := by
  intro w
  refine wp_post (Ledger.inc_nonce_spec a nonce w) ?_
  rintro _ w' ⟨-, -, rfl⟩
  exact hP.of_balances (w.balances_bump a nonce _) rfl

omit [Keccak] in
/-- An account is written with the balance that it has. -/
theorem modify_existing (f : AccountView → AccountView) (hf : ∀ u, (f u).balance = u.balance)
    (a : Address) : Keeps P (Ledger.modify_existing a fun u => .ok (f u)) := by
  intro w
  refine wp_bind.mpr (wp_gets.mpr ?_)
  rcases hacc : w.accounts a with _ | u
  · exact hP.refl w
  · refine hP.of_balances (Ledger.balances_setAccount_self ?_) rfl
    rw [hf, Ledger.balances_of_account hacc]

omit [Keccak] in
theorem set_storage (a : Address) (key : Bytes) (value : U256) :
    Keeps P (Ledger.set_storage a key value) := by
  have : IsPreorder Ledger P := { refl := hP.refl, trans := fun _ _ _ => hP.trans }
  exact .bind (.gets _) fun _ => .when fun _ =>
    hP.modify_existing (AccountView.set_storage key value) (fun _ => rfl) a

theorem init_code (a : Address) (code : Bytes) : Keeps P (Ledger.init_code a code) :=
  hP.modify_existing (AccountView.init_code code) (fun _ => rfl) a

theorem destroyed {refund : Address} {nonce : U256} (h : w.Destroyed a refund nonce w') :
    P w w' := by
  cases h with
  | @burnt w₁ hself hdebited => exact hP.burnt hdebited.total rfl
  | sent hother hsent => exact hP.sent hsent

/-- The effect with this relation. -/
def effect : Effect where
  ledger := P
  substate _ := True
  refl := hP.refl
  trans := hP.trans
  new := trivial
  accrue _ _ := trivial
  touched _ _ := trivial

theorem suicide (a refund : Address) (spec : Spec) (nonce : U256) :
    Keeps hP.effect.On (CfxEvm.suicide a refund spec nonce) := by
  intro h
  refine wp_intro (fun _ _ => trivial) fun r h' hrun =>
    ⟨fun db saved w hrep => ?_, fun _ => trivial⟩
  obtain ⟨w', hrep', hok, herr⟩ := wp_of_run (suicide_spec hrep a refund spec nonce) hrun
  refine ⟨w', hrep', ?_⟩
  cases r with
  | error e =>
    rw [herr e rfl]
    exact hP.refl w
  | ok _ => exact hP.destroyed (hok rfl)

/-- The value of a creation is moved to another account than the one of the creator. -/
theorem pre_exec_create {params : ActionParams} (hne : params.address ≠ params.sender) :
    Keeps hP.effect.On (CallCreateFrame.pre_exec params g.spec true) := by
  intro h
  refine wp_intro (fun _ _ => trivial) fun r h' hrun =>
    ⟨fun db saved w hrep => ?_, fun _ => trivial⟩
  cases hvalue : params.value with
  | Apparent val =>
    have habort : CallCreateFrame.pre_exec params g.spec true = abort .create_value_apparent := by
      show CallCreateFrame.transfer_exec_balance_and_init_contract params g.spec = _
      unfold CallCreateFrame.transfer_exec_balance_and_init_contract
      rw [hvalue]
    rw [habort] at hrun
    cases hrun
  | Transfer val =>
    obtain ⟨hok, herr⟩ :=
      wp_of_run (transfer_exec_balance_and_init_contract_spec hrep hvalue) hrun
    cases r with
    | error e => exact ⟨w, (herr e rfl).1, hP.refl w⟩
    | ok _ =>
      obtain ⟨w', hrep', hendowed⟩ := hok rfl
      obtain ⟨hle, heq, hissued⟩ := hendowed.total hne
      exact ⟨w', hrep', hP.same hle heq hissued⟩

/-- The sites at which any code may run. -/
def sites (holds : Ledger → Prop) : Sites where
  effect := hP.effect
  holds := holds
  runsAt _ _ := True

/-- Code that runs anywhere has the effect. -/
theorem sites_lawful {holds : Ledger → Prop} {I : FrameStack → Prop}
    (helsewhere : ∀ {s}, I s → s.CreatesElsewhere)
    (hlasts : ∀ {w w'}, P w w' → holds w → holds w')
    (hdeploy : ∀ {s frame internal params}, I s →
      s.phase = .Execute frame (.InternalContractExec internal params) → internal.Deploys g params →
      Keeps hP.effect.On deploy_eip1820) : (hP.sites holds).Lawful g I where
  lasts := hlasts
  stays _ _ := trivial
  found _ _ := .inl trivial
  created _ _ _ _ := trivial
  pre_exec_call _ := pre_exec_call_keeps fun _ _ => hP.transfer_balance _ _ _ _ _
  pre_exec_create hI hphase hstatus haddress _ :=
    hP.pre_exec_create (helsewhere hI _ _ hphase hstatus haddress)
  writes _ :=
    { set_storage := fun _ _ => hP.set_storage _ _ _
      inc_nonce := fun _ => hP.inc_nonce _ _
      log := fun _ _ => trivial
      suicide := fun _ _ => hP.suicide _ _ _ _ }
  init_code _ code := hP.init_code _ code
  functions :=
    { transfer := fun _ _ _ _ => hP.transfer_balance _ _ _ _ _
      inc_nonce := fun _ => hP.inc_nonce _ _
      log := fun _ _ => trivial }
  deploy := hdeploy
  note_created _ _ := trivial

end TokenLaw

end CfxEvm
