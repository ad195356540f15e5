import CfxEvm.Frame.Proofs.SiteProofs

/-!
# Proofs: guards of the frames

Frames take from a balance what was seen to be there, and write to accounts that exist. So whatever
the operations on such balances and accounts may panic or fail with is all that a round of the
frames may panic or fail with, as far as balances and the database are concerned.
-/

open Lib Lib.Prog

namespace CfxEvm

variable {g : Globals}

/-! ## What is allowed -/

/-- An error of the virtual machine; one of the database has to be allowed. -/
def VmError.Allowed (F : DbError → Prop) : VmError → Prop
  | .StateDbError e => F e
  | _ => True

theorem VmError.allowed_of_not {F : DbError → Prop} {e : VmError} (h : ¬e.OfDb) : e.Allowed F := by
  cases e with
  | StateDbError e => exact absurd trivial h
  | _ => trivial

variable [Keccak]

/-- Where the property of the sites holds, the operations on balances that are there and on accounts
    that exist panic only with `E` and fail only with `F`. -/
structure Sites.Guards (S : Sites) (E : Panic → Prop) (F : DbError → Prop) : Prop where
  panic : ∀ {p}, ¬BalancePanic p → E p
  sub_balance : ∀ {w a v}, S.holds w → v.toNat ≤ w.balances a →
    ∀ mode, Tame E F (Ledger.sub_balance a v mode) w
  transfer_balance : ∀ {w a v}, S.holds w → v.toNat ≤ w.balances a →
    ∀ b mode nonce, Tame E F (Ledger.transfer_balance a b v mode nonce) w
  code : ∀ {w}, S.holds w → ∀ a, Tame E F (Ledger.account_with_code a) w
  set_storage : ∀ {w a}, S.runsAt a w → ∀ key value, Tame E F (Ledger.set_storage a key value) w
  init_code : ∀ {w a}, S.runsAt a w ∨ (w.accounts a).isSome = true →
    ∀ code, Tame E F (Ledger.init_code a code) w

section
variable {E : Panic → Prop} {F : DbError → Prop}

/-- A nonce that is counted up may overflow, and that is all. -/
theorem Ledger.inc_nonce_tame (hE : E .nonce_overflow) (a : Address) (nonce : U256) (w : Ledger) :
    Tame E F (Ledger.inc_nonce a nonce) w := by
  refine wp_bind.mpr (wp_gets.mpr ?_)
  show wp (Ledger.write_account a (w.accountOrNew a nonce).inc_nonce) _ _ w
  unfold AccountView.inc_nonce
  cases U256.checked_add (w.accountOrNew a nonce).nonce 1 with
  | none => exact hE
  | some nonce' => exact fun _ h => nomatch h

theorem Sites.Guards.lenient {S : Sites} (hG : S.Guards E F) : Lenient E (VmError.Allowed F) :=
  ⟨hG.panic, VmError.allowed_of_not⟩

theorem Sites.Guards.read_code {S : Sites} (hG : S.Guards E F) {w : Ledger} (hw : S.holds w)
    (a : Address) : Tame E F (Ledger.code a) w :=
  .bind (hG.code hw a) fun _ _ _ => .pure _

theorem Sites.Guards.read_code_size {S : Sites} (hG : S.Guards E F) {w : Ledger} (hw : S.holds w)
    (a : Address) : Tame E F (Ledger.code_size a) w :=
  .bind (hG.code hw a) fun _ _ _ => .pure _

end

/-! ## From the ledger to the host -/

section
variable {db : StateDb} {saved : List Ledger} {h : Host State} {w : Ledger} {α : Type}
  {E : Panic → Prop} {F : DbError → Prop}

theorem tame_inState {x : StateM α} {y : LedgerM α} (hxy : StateRefines x y)
    (hrep : Rep db saved h.state w) (hy : Tame E F y w) : Tame E F (Host.inState x) h :=
  wp_inState hxy hrep (wp_post hy fun _ _ he _ _ => he)

theorem tame_inTouched {spec : Spec} {x : CleanupMode → StateM CleanupMode}
    {y : CleanupMode → LedgerM CleanupMode} (hxy : ∀ mode, StateRefines (x mode) (y mode))
    (hrep : Rep db saved h.state w) (hy : ∀ mode, Tame E F (y mode) w) :
    Tame E F (Host.inTouched spec x) h := by
  refine wp_inTouched hxy hrep (wp_post (hy _) ?_)
  rintro (e | mode) w' he s' hrep'
  · rintro _ ⟨⟩
    exact he e rfl
  · rintro _ ⟨⟩

theorem tame_onState {x : StateM α} {y : LedgerM α} (hxy : StateRefines x y)
    (hrep : Rep db saved h.state w) (hy : Tame E F y w) :
    Tame E (VmError.Allowed F) (Host.onState x) h :=
  .mapErr (tame_inState hxy hrep hy)

theorem tame_onTouched {spec : Spec} {x : CleanupMode → StateM CleanupMode}
    {y : CleanupMode → LedgerM CleanupMode} (hxy : ∀ mode, StateRefines (x mode) (y mode))
    (hrep : Rep db saved h.state w) (hy : ∀ mode, Tame E F (y mode) w) :
    Tame E (VmError.Allowed F) (Host.onTouched spec x) h :=
  .mapErr (tame_inTouched hxy hrep hy)

/-- What only reads the ledger neither panics nor fails. -/
theorem tame_read {x : StateM α} {f : Ledger → α} (hxy : StateRefines x (gets f))
    (hrep : Rep db saved h.state w) : Tame E (VmError.Allowed F) (Host.onState x) h :=
  tame_onState hxy hrep fun _ he => nomatch he

end

namespace Sites

variable {S : Sites} {I : FrameStack → Prop} {E : Panic → Prop} {F : DbError → Prop}
  {db : StateDb} {saved : List Ledger} {ctx : FrameContext} {P : Ledger → Prop} {α : Type}

/-- The host stands for a ledger with the property of the sites, and with `P`. -/
def Stands (S : Sites) (db : StateDb) (saved : List Ledger) (P : Ledger → Prop) (h : Host State) :
    Prop :=
  ∃ w, Rep db saved h.state w ∧ S.holds w ∧ P w

/-- What lasts holds after each effect. -/
theorem Lawful.stands (hS : S.Lawful g I) (hP : ∀ w w', S.effect.ledger w w' → P w → P w')
    {h h' : Host State} (hon : S.effect.On h h') (hh : S.Stands db saved P h) :
    S.Stands db saved P h' := by
  obtain ⟨w, hrep, hw, hp⟩ := hh
  obtain ⟨w', hrep', hgrows⟩ := hon.state db saved w hrep
  exact ⟨w', hrep', hS.lasts hgrows hw, hP w w' hgrows hp⟩

/-- A program with the effect is safe if it is from each of the ledgers. -/
theorem Lawful.safe (hS : S.Lawful g I) (hP : ∀ w w', S.effect.ledger w w' → P w → P w')
    {ε : Type} {G : ε → Prop} {x : Prog Panic (Host State) ε α} (hkeeps : Keeps S.effect.On x)
    (htame : ∀ h w, Rep db saved h.state w → S.holds w → P w → Tame E G x h) :
    Safe E G (S.Stands db saved P) x :=
  .of_tame hkeeps (fun _ _ hon => hS.stands hP hon) fun h ⟨w, hrep, hw, hp⟩ => htame h w hrep hw hp

/-! ## The context -/

theorem Guards.extcode (hG : S.Guards E F) {h : Host State} {w : Ledger}
    (hrep : Rep db saved h.state w) (hw : S.holds w) (a : Address) :
    Tame E (VmError.Allowed F) (Context.extcode g a) h := by
  unfold Context.extcode
  cases g.machine.contract a g.spec with
  | none => exact tame_onState (code_refines a) hrep (hG.read_code hw a)
  | some _ => exact .pure _

theorem Guards.extcodesize (hG : S.Guards E F) {h : Host State} {w : Ledger}
    (hrep : Rep db saved h.state w) (hw : S.holds w) (a : Address) :
    Tame E (VmError.Allowed F) (Context.extcodesize g a) h := by
  unfold Context.extcodesize
  cases g.machine.contract a g.spec with
  | none => exact tame_onState (code_size_refines a) hrep (hG.read_code_size hw a)
  | some _ => exact .pure _

theorem Guards.extcodehash (_ : S.Guards E F) {h : Host State} {w : Ledger}
    (hrep : Rep db saved h.state w) (a : Address) :
    Tame E (VmError.Allowed F) (Context.extcodehash g a) h := by
  unfold Context.extcodehash
  cases g.machine.contract a g.spec with
  | none => exact tame_read (code_hash_refines a) hrep
  | some _ => exact .pure _

/-- A contract that destroys itself gives away what it has. -/
theorem Guards.suicide (hG : S.Guards E F) {h : Host State} {w : Ledger}
    (hrep : Rep db saved h.state w) (hw : S.holds w) (a refund : Address) (spec : Spec)
    (nonce : U256) : Tame E (VmError.Allowed F) (CfxEvm.suicide a refund spec nonce) h := by
  have hall : (w.balanceOf a).toNat ≤ w.balances a := le_rfl
  refine wp_bind.mpr (wp_update.mpr (wp_bind.mpr (wp_mapErr.mpr (wp_inState (balance_refines a)
    (by exact hrep) (wp_gets.mpr fun s₁ hrep₁ => ?_)))))
  refine wp_ite (fun _ => ?_) fun _ => ?_
  · refine wp_bind.mpr (wp_update.mpr (wp_bind.mpr (wp_mapErr.mpr (wp_inTouched
      (fun _ => sub_balance_refines _ _ _) (by exact hrep₁)
      (wp_post (hG.sub_balance hw hall _) ?_)))))
    rintro (e | mode) w₂ he s₂ hrep₂
    · rintro _ ⟨⟩
      exact he e rfl
    · exact tame_onState (subtract_total_issued_refines _) (by exact hrep₂) fun _ h => nomatch h
  · exact wp_bind.mpr (wp_update.mpr (tame_onTouched (fun _ => transfer_balance_refines _ _ _ _ _)
      (by exact hrep₁) fun mode => hG.transfer_balance hw hall refund mode nonce))

/-- What code that runs at the address of the frame asks its context for is safe. -/
theorem Guards.contextSafe (hG : S.Guards E F) (hS : S.Lawful g I) {w₀ : Ledger}
    (hruns : S.runsAt ctx.origin.address w₀) :
    ContextSafe g ctx E (VmError.Allowed F) (S.Stands db saved (S.runsAt ctx.origin.address)) := by
  have hkeeps : ContextKeeps g ctx S.effect.On := Effect.contextKeeps fun _ => hS.writes hruns
  have hstays : ∀ w w', S.effect.ledger w w' → S.runsAt ctx.origin.address w →
      S.runsAt ctx.origin.address w' := fun _ _ => hS.stays
  have hstatic : VmError.Allowed F .MutableCallInStaticContext := trivial
  exact
    { shared_cache := fun _ _ => id
      storage_at := fun key => hS.safe hstays (hkeeps.storage_at key) fun _ _ hrep _ _ =>
        tame_read (storage_at_refines _ key) hrep
      set_storage := fun key value => hS.safe hstays (hkeeps.set_storage key value)
        fun _ _ hrep _ hr => .ite (fun _ => .fail hstatic) fun _ =>
          tame_onState (set_storage_refines _ key value) hrep (hG.set_storage hr key value)
      «exists» := fun a => hS.safe hstays (hkeeps.exists a) fun _ _ hrep _ _ =>
        tame_read (exists_refines a) hrep
      exists_and_not_null := fun a => hS.safe hstays (hkeeps.exists_and_not_null a)
        fun _ _ hrep _ _ => tame_read (exists_and_not_null_refines a) hrep
      balance := fun a => hS.safe hstays (hkeeps.balance a) fun _ _ hrep _ _ =>
        tame_read (balance_refines a) hrep
      create := fun gas value code scheme => hS.safe hstays (hkeeps.create gas value code scheme)
        fun h w hrep _ _ => by
          refine wp_bind.mpr (wp_mapErr.mpr (wp_inState (nonce_refines _) hrep
            (wp_gets.mpr fun s₁ hrep₁ => ?_)))
          refine Tame.bind (.when fun _ => ?_) fun _ _ _ => .pure _
          exact tame_onState (inc_nonce_refines _ _) (by exact hrep₁)
            (Ledger.inc_nonce_tame (hG.panic id) _ _ _)
      extcode := fun a => hS.safe hstays (hkeeps.extcode a) fun _ _ hrep hw _ =>
        hG.extcode hrep hw a
      extcodehash := fun a => hS.safe hstays (hkeeps.extcodehash a) fun _ _ hrep _ _ =>
        hG.extcodehash hrep a
      extcodesize := fun a => hS.safe hstays (hkeeps.extcodesize a) fun _ _ hrep hw _ =>
        hG.extcodesize hrep hw a
      log := fun topics data => hS.safe hstays (hkeeps.log topics data) fun _ _ _ _ _ =>
        .ite (fun _ => .fail hstatic) fun _ => fun _ he => nomatch he
      suicide := fun refund nonce => hS.safe hstays (hkeeps.suicide refund nonce)
        fun _ _ hrep hw _ => .ite (fun _ => .fail hstatic) fun _ =>
          hG.suicide hrep hw _ refund _ nonce }

end Sites

end CfxEvm
