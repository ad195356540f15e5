import CfxEvm.Frame.Proofs.AtomicityProofs
import CfxEvm.Frame.Proofs.PlainProofs
import CfxEvm.State.Proofs.BalanceProofs
import CfxEvm.State.Proofs.CodeProofs

/-!
# Proofs: what a frame asks for

The calls and creations that the code of a frame or an internal contract asks for, in terms of the
ledger at that moment: where their code comes from, at which address it is to run, and that the
value they move is there.
-/

open Lib Lib.Prog

namespace CfxEvm

/-! ## Calls and creations -/

/-- The code that is read at an address whose code is there. -/
def Ledger.codeOf (w : Ledger) (a : Address) : Option Bytes :=
  ((w.accounts a).bind AccountView.code).map CodeInfo.code

/-- The accounts show the codes that their hashes stand for. -/
def Ledger.Coded [Keccak] (w : Ledger) : Prop := ∀ a v, w.accounts a = some v → v.Coded a

/-- The hash that is given with a code, if there is one, is the hash of the code. -/
def ActionParams.Hashed [Keccak] (p : ActionParams) : Prop :=
  ∀ hash code, p.code_hash = some hash → p.code = some code → keccak code = hash

/-- How the value and the addresses of a call go with its kind. -/
def ActionParams.OfKind (p : ActionParams) : Prop :=
  match p.call_type with
  | .None => False
  | .Call => ∃ v, p.value = .Transfer v
  | .CallCode => (∃ v, p.value = .Transfer v) ∧ p.sender = p.address
  | .DelegateCall => ∃ v, p.value = .Apparent v
  | .StaticCall => p.value = .Transfer 0

/-- A call that is asked for by what runs at the address `a`. -/
structure CallAsked [Keccak] (g : Globals) (a : Address) (w : Ledger) (p : ActionParams) :
    Prop where
  code : g.machine.contract p.code_address g.spec = none → p.code = w.codeOf p.code_address
  hashed : w.Coded → p.Hashed
  place : p.address = p.code_address ∨
    p.address = a ∧ (p.call_type = .CallCode ∨ p.call_type = .DelegateCall)
  funds : ∀ v, p.value = .Transfer v → v.toNat ≤ w.balances p.sender
  kind : p.OfKind

/-- A creation that is asked for. -/
structure CreateAsked [Keccak] (w : Ledger) (p : ActionParams) : Prop where
  place : p.address = p.code_address
  hashed : p.Hashed
  funds : ∃ v, p.value = .Transfer v ∧ v.toNat ≤ w.balances p.sender
  code : p.code.isSome = true

def Asked [Keccak] (g : Globals) (a : Address) (w : Ledger) : TrapKind → Prop
  | .Call p => CallAsked g a w p
  | .Create p => CreateAsked w p

/-! ## Reading the code -/

variable [Keccak]

theorem Ledger.code_spec (a : Address) (w : Ledger) :
    wp (Ledger.code a) (fun _ => False) (fun r w' => w' = w ∧
      (∀ code, r = .ok code → code = w.codeOf a) ∧
      ∀ e, r = .error e → ¬∀ b v, w.accounts b = some v → v.CodeOk b) w := by
  refine wp_bind.mpr (wp_bind.mpr (wp_gets.mpr ?_))
  have hcode : w.codeOf a = ((w.accounts a).bind AccountView.code).map CodeInfo.code := rfl
  rcases hacc : w.accounts a with _ | v
  · rw [hacc] at hcode
    refine ⟨rfl, ?_, by rintro _ ⟨⟩⟩
    rintro _ ⟨⟩
    exact hcode.symm
  · rw [hacc] at hcode
    refine wp_ite (fun hmissing => ?_) fun _ => ?_
    · refine ⟨rfl, by rintro _ ⟨⟩, fun _ _ hok => ?_⟩
      simp only [Bool.and_eq_true, Option.isNone_iff_eq_none, bne_iff_ne] at hmissing
      obtain ⟨c, hc, -⟩ := hok a v hacc hmissing.2
      rw [hmissing.1] at hc
      cases hc
    · refine ⟨rfl, ?_, by rintro _ ⟨⟩⟩
      rintro _ ⟨⟩
      exact hcode.symm

/-- The code and the hash that are read at an address belong together. -/
theorem Ledger.Coded.hashed {w : Ledger} (h : w.Coded) {a : Address} {hash : H256} {code : Bytes}
    (hhash : (w.accounts a).map AccountView.code_hash = some hash)
    (hcode : w.codeOf a = some code) :
    keccak code = hash := by
  obtain ⟨v, hv, rfl⟩ := Option.map_eq_some_iff.mp hhash
  unfold codeOf at hcode
  rw [hv] at hcode
  obtain ⟨c, hc, rfl⟩ := Option.map_eq_some_iff.mp hcode
  exact (h a v hv).hash c hc

/-- The hash of a code that a contract is created with. -/
theorem contract_address_hash (scheme : CreateContractAddress) (sender : Address) (nonce : U256)
    (code : Bytes) : (contract_address scheme sender nonce code).2 = some (keccak code) := by
  cases scheme <;> rfl

theorem hashed_of_create {p : ActionParams} {scheme : CreateContractAddress} {sender : Address}
    {nonce : U256} {code : Bytes} (hcode : p.code = some code)
    (hhash : p.code_hash = (contract_address scheme sender nonce code).2) : p.Hashed := by
  intro hash code' hhash' hcode'
  rw [hhash, contract_address_hash] at hhash'
  obtain rfl := Option.some_inj.mp (hcode.symm.trans hcode')
  exact Option.some_inj.mp hhash'

/-- Counting a nonce up changes no hash and no code. -/
theorem Ledger.coded_of_bump {w : Ledger} {a : Address} {nonce n : U256}
    (h : (w.setAccount a { w.accountOrNew a nonce with nonce := n }).Coded) : w.Coded := by
  intro b v hv
  by_cases hb : b = a
  · subst hb
    have hbumped := h b _ (setAccount_same _ _ _)
    unfold accountOrNew at hbumped
    rw [hv] at hbumped
    exact ⟨hbumped.code, hbumped.hash⟩
  · exact h b v ((setAccount_of_ne hb _ _).trans hv)

/-- Counting a nonce up changes no code. -/
theorem Ledger.codeOf_bump (w : Ledger) (a : Address) (nonce n : U256) (b : Address) :
    (w.setAccount a { w.accountOrNew a nonce with nonce := n }).codeOf b = w.codeOf b := by
  unfold codeOf
  by_cases hb : b = a
  · subst hb
    rw [setAccount_same]
    unfold accountOrNew
    cases w.accounts b with
    | none => rfl
    | some u => rfl
  · rw [setAccount_of_ne hb]

/-! ## The interpreter -/

section
variable {g : Globals} {ctx : FrameContext} {params : InterpreterParams} {c : CostType}
  {db : StateDb} {saved : List Ledger}

/-- A call or creation as `Asked` says, in the ledger that the host stands for. -/
def AskedIn (g : Globals) (db : StateDb) (saved : List Ledger) (a : Address) (trap : TrapKind)
    (h : Host State) : Prop :=
  ∃ w, Rep db saved h.state w ∧ Asked g a w trap

namespace Interpreter

variable {T : TrapKind → Host State → Prop} {l : Local} {h : Host State} {α : Type}

section
omit [Keccak]

/-- A part of an instruction that works on the local part alone. -/
theorem traps_local {x : LocalM α} {f : α → ExecM (InstructionResult c)}
    (hf : ∀ a l', wp (f a) (fun _ => True) (fun r p => TrapsInto T r p.2) (l', h)) :
    wp (onLocal x >>= f) (fun _ => True) (fun r p => TrapsInto T r p.2) (l, h) := by
  refine wp_bind.mpr (wp_zoom.mpr (wp_intro (fun _ _ => trivial) ?_))
  rintro (e | a) l' -
  · intro trap htrap
    cases htrap
  · exact hf a l'

theorem traps_expect {p : Panic} {o : Option α} {f : α → ExecM (InstructionResult c)}
    (hf : ∀ a, o = some a → wp (f a) (fun _ => True) (fun r p => TrapsInto T r p.2) (l, h)) :
    wp (expect p o >>= f) (fun _ => True) (fun r p => TrapsInto T r p.2) (l, h) :=
  wp_bind.mpr (wp_expect (fun _ => trivial) hf)

/-- A part that asks the host. -/
theorem traps_host {x : HostM α} {f : α → ExecM (InstructionResult c)} {R : α → Host State → Prop}
    (hx : wp x (fun _ => True) (fun r h' => ∀ a, r = .ok a → R a h') h)
    (hf : ∀ a h', R a h' → wp (f a) (fun _ => True) (fun r p => TrapsInto T r p.2) (l, h')) :
    wp (onHost x >>= f) (fun _ => True) (fun r p => TrapsInto T r p.2) (l, h) := by
  refine wp_bind.mpr (wp_zoom.mpr (wp_post hx ?_))
  rintro (e | a) h' hr
  · intro trap htrap
    cases htrap
  · exact hf a h' (hr a rfl)

theorem traps_other {result : InstructionResult c} (hresult : ∀ trap, result ≠ .Trap trap) :
    wp (pure result : ExecM (InstructionResult c)) (fun _ => True)
      (fun r p => TrapsInto T r p.2) (l, h) := by
  intro trap htrap
  cases htrap
  exact absurd rfl (hresult trap)

end

end Interpreter

/-- What a balance is read as. -/
theorem wp_context_balance {h : Host State} {w : Ledger} (hrep : Rep db saved h.state w)
    (a : Address) :
    wp (Context.balance a) (fun _ => True) (fun r h' => ∀ b, r = .ok b →
      Rep db saved h'.state w ∧ b.toNat = w.balances a) h := by
  refine wp_mapErr.mpr (wp_inState (balance_refines a) hrep (wp_gets.mpr fun s' hrep' => ?_))
  rintro _ ⟨⟩
  exact ⟨hrep', rfl⟩

/-- The parameters of a creation. -/
theorem wp_context_create {h : Host State} {w : Ledger} (hrep : Rep db saved h.state w)
    {gas value : U256} (hvalue : value.toNat ≤ w.balances ctx.origin.address) (code : Bytes)
    (scheme : CreateContractAddress) :
    wp (Context.create g ctx gas value code scheme) (fun _ => True) (fun r h' => ∀ trap,
      r = .ok trap → AskedIn g db saved ctx.origin.address trap h') h := by
  refine wp_bind.mpr (wp_mapErr.mpr (wp_inState (nonce_refines _) hrep
    (wp_gets.mpr fun s₁ hrep₁ => ?_)))
  refine wp_bind.mpr (wp_when (fun _ => ?_) fun _ => ?_)
  · refine wp_mapErr.mpr (wp_inState (inc_nonce_refines _ _) (by exact hrep₁)
      (wp_post (Ledger.inc_nonce_spec _ _ w) ?_))
    rintro _ w₂ ⟨rfl, -, rfl⟩ s₂ hrep₂
    rintro _ ⟨⟩
    refine ⟨_, hrep₂, rfl, hashed_of_create rfl rfl, ⟨value, rfl, ?_⟩, rfl⟩
    show value.toNat ≤ Ledger.balances _ ctx.origin.address
    rw [Ledger.balances_bump]
    exact hvalue
  · rintro _ ⟨⟩
    exact ⟨w, hrep₁, rfl, hashed_of_create rfl rfl, ⟨value, rfl, hvalue⟩, rfl⟩

/-- The parameters of a message call. -/
theorem wp_context_call {h : Host State} {w : Ledger} (hrep : Rep db saved h.state w) (gas : U256)
    (sender_address receive_address : Address) (value : Option U256) (data : Bytes)
    (code_address : Address) (call_type : CallType) :
    wp (Context.call g ctx gas sender_address receive_address value data code_address call_type)
      (fun _ => True) (fun r h' => ∀ trap, r = .ok trap → Rep db saved h'.state w ∧
        ∃ p : ActionParams, trap = .Call p ∧ p.sender = sender_address ∧
          p.address = receive_address ∧ p.code_address = code_address ∧ p.call_type = call_type ∧
          p.value = Interpreter.callValue ctx value ∧
          (g.machine.contract code_address g.spec = none → p.code = w.codeOf code_address) ∧
          (w.Coded → p.Hashed)) h := by
  have hextcode : wp (Context.extcode g code_address) (fun _ => True) (fun r h' => ∀ code,
      r = .ok code → Rep db saved h'.state w ∧
        (g.machine.contract code_address g.spec = none → code = w.codeOf code_address) ∧
        ((g.machine.contract code_address g.spec).isSome → code = some InternalContract.code))
            h := by
    unfold Context.extcode
    cases g.machine.contract code_address g.spec with
    | some _ =>
      rintro _ ⟨⟩
      exact ⟨hrep, fun h => (nomatch h), fun _ => rfl⟩
    | none =>
      refine wp_mapErr.mpr (wp_inState (code_refines _) hrep
        (wp_mono (Ledger.code_spec code_address w) (fun _ h => h.elim) ?_))
      rintro (e | code) _ ⟨rfl, hok, -⟩ s' hrep'
      · rintro _ ⟨⟩
      · rintro _ ⟨⟩
        exact ⟨hrep', fun _ => hok code rfl, fun h => nomatch h⟩
  have hextcodehash : ∀ h, Rep db saved h.state w → wp (Context.extcodehash g code_address)
      (fun _ => True) (fun r h' => ∀ hash, r = .ok hash → Rep db saved h'.state w ∧
        (g.machine.contract code_address g.spec = none →
          hash = (w.accounts code_address).map AccountView.code_hash) ∧
        ((g.machine.contract code_address g.spec).isSome →
          hash = some InternalContract.code_hash)) h := by
    intro h hrep
    unfold Context.extcodehash
    cases g.machine.contract code_address g.spec with
    | some _ =>
      rintro _ ⟨⟩
      exact ⟨hrep, fun h => (nomatch h), fun _ => rfl⟩
    | none =>
      refine wp_mapErr.mpr (wp_inState (code_hash_refines _) hrep (wp_gets.mpr fun s' hrep' => ?_))
      rintro _ ⟨⟩
      exact ⟨hrep', fun _ => rfl, fun h => nomatch h⟩
  refine wp_bind.mpr (wp_post hextcode ?_)
  rintro (e | code) h₁ hcode
  · rintro _ ⟨⟩
  obtain ⟨hrep₁, hcode, hinternal⟩ := hcode code rfl
  refine wp_bind.mpr (wp_post (hextcodehash h₁ hrep₁) ?_)
  rintro (e | code_hash) h₂ hhash
  · rintro _ ⟨⟩
  obtain ⟨hrep₂, hhash, hinternal_hash⟩ := hhash code_hash rfl
  rintro _ ⟨⟩
  refine ⟨hrep₂, _, rfl, rfl, rfl, rfl, rfl, rfl, hcode, fun hw hash code' hh hc => ?_⟩
  have hh : code_hash = some hash := hh
  have hc : code = some code' := hc
  rcases hcontract : g.machine.contract code_address g.spec with _ | internal
  · exact hw.hashed ((hhash hcontract).symm.trans hh) ((hcode hcontract).symm.trans hc)
  · have hsome : (g.machine.contract code_address g.spec).isSome := by rw [hcontract]; rfl
    obtain rfl := Option.some_inj.mp ((hinternal hsome).symm.trans hc)
    exact Option.some_inj.mp ((hinternal_hash hsome).symm.trans hh)

namespace Interpreter

variable {l : Local} {h : Host State} {w : Ledger}

theorem exec_create_asked (hplace : params.address = ctx.origin.address)
    (hrep : Rep db saved h.state w) (instruction : Instruction) (provided : Option (Cost c)) :
    wp (exec_create g ctx params instruction provided) (fun _ => True)
      (fun r p => TrapsInto (AskedIn g db saved ctx.origin.address) r p.2) (l, h) := by
  refine traps_local fun endowment l => traps_local fun _ l => traps_local fun _ l =>
    traps_local fun _ l => traps_expect fun _ _ => wp_ite (fun _ => ?_) fun _ => ?_
  · intro trap htrap
    cases htrap
  refine traps_local fun _ l => traps_host (wp_context_balance hrep _) fun balance h₁ hbalance => ?_
  obtain ⟨hrep₁, hbalance⟩ := hbalance
  refine wp_ite (fun hfunds => ?_) fun _ => traps_local fun _ l => traps_other fun _ h => nomatch h
  rw [Bool.and_eq_true, decide_eq_true_eq] at hfunds
  refine traps_local fun _ l => traps_host (wp_context_create hrep₁ ?_ _ _) fun trap h₂ hasked => ?_
  · rw [← hplace, ← hbalance]
    exact hfunds.1
  · intro trap' htrap
    cases htrap
    exact hasked

/-- What is known of a call by its instruction. -/
structure TargetOf (w : Ledger) (params : InterpreterParams) (code_address : Address)
    (value : Option U256) (target : Address × Address × Bool × CallType) : Prop where
  place : target.2.1 = code_address ∨ target.2.1 = params.address ∧
    (target.2.2.2 = .CallCode ∨ target.2.2.2 = .DelegateCall)
  funds : target.2.2.1 = true → ∀ v, value = some v → v.toNat ≤ w.balances target.1
  kind : match target.2.2.2 with
    | .None => False
    | .Call => ∃ v, value = some v
    | .CallCode => (∃ v, value = some v) ∧ target.1 = target.2.1
    | .DelegateCall => value = none
    | .StaticCall => value = some 0

theorem call_target_asked (hrep : Rep db saved h.state w) {instruction : Instruction}
    (hcall : is_call instruction) {value : Option U256} (code_address : Address)
    (hvalue : ValueOf instruction value) :
    wp (call_target ctx params instruction code_address value) (fun _ => True)
      (fun r h' => ∀ target, r = .ok target → Rep db saved h'.state w ∧
        TargetOf w params code_address value target) h := by
  rcases hvalue with ⟨rfl, rfl⟩ | ⟨rfl, rfl⟩ | ⟨rfl | rfl, v, rfl⟩
  · rintro _ ⟨⟩
    exact ⟨hrep, .inr ⟨rfl, .inr rfl⟩, fun _ _ h => (nomatch h), rfl⟩
  · rintro _ ⟨⟩
    refine ⟨hrep, .inl rfl, fun _ v hv => ?_, rfl⟩
    obtain rfl := Option.some_inj.mp hv
    exact Nat.zero_le _
  · refine wp_ite (fun _ => ?_) fun _ => ?_
    · rintro _ ⟨⟩
    refine wp_bind.mpr (wp_post (wp_context_balance hrep _) ?_)
    rintro (e | balance) h₁ hbalance
    · rintro _ ⟨⟩
    · obtain ⟨hrep₁, hbalance⟩ := hbalance balance rfl
      rintro _ ⟨⟩
      refine ⟨hrep₁, .inl rfl, fun hhas u hu => ?_, v, rfl⟩
      obtain rfl := Option.some_inj.mp hu
      rw [← hbalance]
      simpa using hhas
  · refine wp_bind.mpr (wp_post (wp_context_balance hrep _) ?_)
    rintro (e | balance) h₁ hbalance
    · rintro _ ⟨⟩
    · obtain ⟨hrep₁, hbalance⟩ := hbalance balance rfl
      rintro _ ⟨⟩
      refine ⟨hrep₁, .inr ⟨rfl, .inl rfl⟩, fun hhas u hu => ?_, ⟨v, rfl⟩, rfl⟩
      obtain rfl := Option.some_inj.mp hu
      rw [← hbalance]
      simpa using hhas

/-- A call with a target as its instruction says is as `Asked` says. -/
theorem TargetOf.asked {code_address : Address} {value : Option U256}
    {target : Address × Address × Bool × CallType}
    (ht : TargetOf w params code_address value target)
    (hhas : target.2.2.1 = true) (hplace : params.address = ctx.origin.address) {p : ActionParams}
    (hsender : p.sender = target.1) (haddress : p.address = target.2.1)
    (hcode_address : p.code_address = code_address) (htype : p.call_type = target.2.2.2)
    (hvalue : p.value = callValue ctx value)
    (hcode : g.machine.contract code_address g.spec = none → p.code = w.codeOf code_address)
    (hhashed : w.Coded → p.Hashed) : CallAsked g ctx.origin.address w p where
  code := by rw [hcode_address]; exact hcode
  hashed := hhashed
  place := by
    rw [haddress, hcode_address, htype, ← hplace]
    exact ht.place
  funds v hv := by
    rw [hvalue] at hv
    cases value with
    | none => cases hv
    | some u =>
      cases hv
      rw [hsender]
      exact ht.funds hhas v rfl
  kind := by
    have hkind := ht.kind
    unfold ActionParams.OfKind
    rw [htype]
    split at hkind
    · exact hkind
    · obtain ⟨v, rfl⟩ := hkind
      exact ⟨v, hvalue⟩
    · obtain ⟨⟨v, rfl⟩, hself⟩ := hkind
      exact ⟨⟨v, hvalue⟩, by rw [hsender, haddress, hself]⟩
    · subst hkind
      exact ⟨_, hvalue⟩
    · subst hkind
      exact hvalue

theorem exec_call_asked (hplace : params.address = ctx.origin.address)
    (hrep : Rep db saved h.state w) {instruction : Instruction} (hcall : is_call instruction)
    (provided : Option (Cost c)) :
    wp (exec_call g ctx params instruction provided) (fun _ => True)
      (fun r p => TrapsInto (AskedIn g db saved ctx.origin.address) r p.2) (l, h) := by
  refine wp_bind.mpr (wp_assert (fun _ => trivial) fun _ => ?_)
  refine traps_local fun _ l => traps_expect fun _ _ => traps_local fun code_address l => ?_
  refine wp_bind.mpr (wp_zoom.mpr (wp_post (call_value_yields hcall l) ?_))
  rintro (e | value) l hvalue
  · intro trap htrap
    cases htrap
  refine traps_local fun _ l => traps_local fun _ l => traps_local fun _ l => traps_local fun _ l =>
    traps_expect fun _ _ => traps_host (call_target_asked hrep hcall _ (hvalue value rfl))
    fun target h₁ htarget => traps_local fun _ l => wp_ite (fun hhas => ?_) fun _ =>
    traps_local fun _ l => traps_other fun _ h => nomatch h
  obtain ⟨hrep₁, htarget⟩ := htarget
  rw [Bool.and_eq_true] at hhas
  refine traps_local fun _ l => traps_host (wp_context_call hrep₁ _ _ _ _ _ _ _)
    fun trap h₂ hcall => traps_local fun _ l => ?_
  obtain ⟨hrep₂, p, rfl, hsender, haddress, hcode_address, htype, hval, hcode, hhashed⟩ := hcall
  intro trap' htrap
  cases htrap
  exact ⟨w, hrep₂,
    htarget.asked hhas.1 hplace hsender haddress hcode_address htype hval hcode hhashed⟩

theorem trapsAllowed_asked (hplace : params.address = ctx.origin.address) :
    TrapsAllowed c g ctx params (fun h => ∃ w, Rep db saved h.state w)
      (AskedIn g db saved ctx.origin.address) where
  create instruction provided l h := by
    rintro ⟨w, hrep⟩
    exact exec_create_asked hplace hrep instruction provided
  call instruction hcall provided l h := by
    rintro ⟨w, hrep⟩
    exact exec_call_asked hplace hrep hcall provided

/-- An interpreter asks for calls and creations as `Asked` says. -/
theorem step_asked [HashOrder] {i : Interpreter c} (hplace : i.params.address = ctx.origin.address)
    (hres : i.Resumable) (hrep : Rep db saved h.state w) :
    wp (step g ctx) (fun _ => True) (fun r p => ∀ trap, r = .ok (.Trap trap) →
      AskedIn g db saved ctx.origin.address trap p.2) (i, h) := by
  refine step_traps ?_ (trapsAllowed_asked hplace) hres ⟨w, hrep⟩
  refine ⟨(context_any ctx).toHostKeeps.mono fun h h' hon => ?_, fun _ _ h => h⟩
  rintro ⟨w, hrep⟩
  obtain ⟨w', hrep', -⟩ := hon.state db saved w hrep
  exact ⟨w', hrep'⟩

end Interpreter

/-! ## Internal contracts -/

/-- The state of the host stays as it is. -/
def SameState (h h' : Host State) : Prop := h'.state = h.state

instance : IsPreorder (Host State) SameState where
  refl _ := rfl
  trans _ _ _ h h' := h'.trans h

theorem SameState.rep {h h' : Host State} (hs : SameState h h') {w : Ledger}
    (hrep : Rep db saved h.state w) : Rep db saved h'.state w := by
  rw [hs]
  exact hrep

theorem log_event_sameState {α β : Type} [EventIndexEncodable α] [ABIEncodable β] (event_sig : H256)
    (ctx : FrameContext) (indexed : α) (non_indexed : β) (params : ActionParams) :
    Keeps SameState (log_event event_sig ctx indexed non_indexed params) :=
  .bind (.ofPanic _) fun _ => .bind (.ofPanic _) fun _ =>
    .ite (fun _ => .fail _) fun _ => .update fun _ => rfl

variable {h : Host State} {w : Ledger} {p : ActionParams}

/-- The value of a call is handed on to the mapped account of the caller. -/
theorem forward_value_spec (hrep : Rep db saved h.state w) :
    wp (forward_value g p) (fun _ => True) (fun r h' => r = .ok () → ∃ w',
      Rep db saved h'.state w' ∧ p.value.value.toNat ≤ w'.balances (evm_map p.sender)) h := by
  refine wp_bind.mpr (wp_mapErr.mpr (wp_inTouched (fun _ => transfer_balance_refines _ _ _ _ _) hrep
    (wp_post (Ledger.transfer_balance_sent _ _ _ _ _ w) ?_)))
  rintro (e | mode) w' ⟨hok, -⟩ s' hrep'
  · intro h
    cases h
  · intro _
    obtain ⟨hle, hmove⟩ := (hok mode rfl).balances
    refine ⟨w', hrep', ?_⟩
    rw [hmove]
    exact le_move _ _ _ _

omit [Keccak] in
theorem wp_split_gas (spec : Spec) (gas_left value : U256) :
    wp (split_gas spec gas_left value) (fun _ => True) (fun _ h' => h' = h) h := by
  refine wp_bind.mpr (wp_ite (fun _ => ?_) fun _ => trivial)
  exact rfl

/-- What an internal contract asks for. -/
def AnswerAsked (g : Globals) (db : StateDb) (saved : List Ledger) (a : Address) {α : Type}
    (r : Except VmError (Answer α)) (h : Host State) : Prop :=
  ∀ trap resume, r = .ok (.SubCallCreate trap resume) → AskedIn g db saved a trap h

theorem call_to_evmcore_asked (hrep : Rep db saved h.state w) (a receiver : Address) (data : Bytes)
    {call_type : CallType} (htype : call_type = .Call ∨ call_type = .StaticCall ∧ p.value.value = 0)
    (gas_left : U256) :
    wp (call_to_evmcore g ctx receiver data call_type p gas_left) (fun _ => True)
      (AnswerAsked g db saved a) h := by
  refine wp_ite (fun _ => ?_) fun _ => ?_
  · rintro _ _ ⟨⟩
  refine wp_bind.mpr (wp_post (wp_split_gas _ _ _) ?_)
  rintro (e | ⟨call_gas, reserved_gas⟩) _ rfl
  · rintro _ _ ⟨⟩
  refine wp_bind.mpr (wp_post (forward_value_spec hrep) ?_)
  rintro (e | _) h₁ hforward
  · rintro _ _ ⟨⟩
  obtain ⟨w₁, hrep₁, hfunds⟩ := hforward rfl
  refine wp_bind.mpr (wp_mapErr.mpr (wp_inState (code_refines _) hrep₁
    (wp_mono (Ledger.code_spec receiver w₁) (fun _ hp => hp.elim) ?_)))
  rintro (e | code) w₁ ⟨rfl, hcode, -⟩ s₂ hrep₂
  · rintro _ _ ⟨⟩
  obtain rfl := hcode code rfl
  refine wp_bind.mpr (wp_mapErr.mpr (wp_inState (code_hash_refines _) (by exact hrep₂)
    (wp_gets.mpr fun s₃ hrep₃ => ?_)))
  have hasked : ∀ w', w'.balances = w₁.balances → (∀ b, w'.codeOf b = w₁.codeOf b) →
      (w'.Coded → w₁.Coded) → ∀ call_gas, CallAsked g a w'
        { sender := evm_map p.sender, address := receiver, value := .Transfer p.value.value,
          code_address := receiver, original_sender := evm_map p.original_sender, gas := call_gas,
          gas_price := p.gas_price, code := w₁.codeOf receiver,
          code_hash := (w₁.accounts receiver).map AccountView.code_hash,
          data := some data, call_type := call_type, create_type := .None,
          params_type := .Separate } := by
    intro w' hbalances hcodes hcoded call_gas
    refine ⟨fun _ => (hcodes receiver).symm, fun hw _ _ => (hcoded hw).hashed, .inl rfl, ?_, ?_⟩
    · rintro _ ⟨⟩
      rw [hbalances]
      exact hfunds
    · rcases htype with rfl | ⟨rfl, hzero⟩
      · exact ⟨_, rfl⟩
      · exact congrArg ActionValue.Transfer hzero
  refine wp_bind.mpr (wp_when (fun _ => ?_) fun _ => ?_)
  · refine wp_bind.mpr (wp_mapErr.mpr (wp_inState (nonce_refines _) (by exact hrep₃)
      (wp_gets.mpr fun s₄ hrep₄ => ?_)))
    refine wp_bind.mpr (wp_mapErr.mpr (wp_inState (inc_nonce_refines _ _) (by exact hrep₄)
      (wp_post (Ledger.inc_nonce_spec _ _ w₁) ?_)))
    rintro _ w₅ ⟨rfl, -, rfl⟩ s₅ hrep₅
    refine wp_post (log_event_sameState _ _ _ _ _ _) ?_
    rintro (e | _) h₆ hsame
    · rintro _ _ ⟨⟩
    · rintro _ _ ⟨⟩
      exact ⟨_, hsame.rep hrep₅,
        hasked _ (Ledger.balances_bump _ _ _ _) (Ledger.codeOf_bump _ _ _ _)
        Ledger.coded_of_bump _⟩
  · rintro _ _ ⟨⟩
    exact ⟨w₁, hrep₃, hasked w₁ rfl (fun _ => rfl) id _⟩

theorem create_to_evmcore_asked (hrep : Rep db saved h.state w) (a : Address) (init : Bytes)
    (salt : Option H256) (gas_left : U256) :
    wp (create_to_evmcore g ctx init salt p gas_left) (fun _ => True)
      (AnswerAsked g db saved a) h := by
  refine wp_ite (fun _ => ?_) fun _ => ?_
  · rintro _ _ ⟨⟩
  refine wp_bind.mpr (wp_post (wp_split_gas _ _ _) ?_)
  rintro (e | ⟨call_gas, reserved_gas⟩) _ rfl
  · rintro _ _ ⟨⟩
  refine wp_bind.mpr (wp_post (forward_value_spec hrep) ?_)
  rintro (e | _) h₁ hforward
  · rintro _ _ ⟨⟩
  obtain ⟨w₁, hrep₁, hfunds⟩ := hforward rfl
  refine wp_bind.mpr (wp_mapErr.mpr (wp_inState (nonce_refines _) hrep₁
    (wp_gets.mpr fun s₂ hrep₂ => ?_)))
  refine wp_bind.mpr (wp_mapErr.mpr (wp_inState (nonce_refines _) (by exact hrep₂)
    (wp_gets.mpr fun s₃ hrep₃ => ?_)))
  refine wp_bind.mpr (wp_mapErr.mpr (wp_inState (inc_nonce_refines _ _) (by exact hrep₃)
    (wp_post (Ledger.inc_nonce_spec _ _ w₁) ?_)))
  rintro _ w₄ ⟨rfl, -, rfl⟩ s₄ hrep₄
  refine wp_bind.mpr (wp_post (log_event_sameState _ _ _ _ _ _) ?_)
  rintro (e | _) h₅ hsame
  · rintro _ _ ⟨⟩
  · rintro _ _ ⟨⟩
    refine ⟨_, hsame.rep hrep₄, rfl, hashed_of_create rfl rfl, ⟨p.value.value, rfl, ?_⟩, rfl⟩
    show p.value.value.toNat ≤ Ledger.balances _ (evm_map p.sender)
    rw [Ledger.balances_bump]
    exact hfunds

section
/-- A function asks for what its body asks for. -/
theorem run_function_asked {α β : Type} [ABIDecodable α] [ABIEncodable β] {spec : Spec}
    {t : FunctionType} {payment : α → HostM U256} {body : α → U256 → HostM (Answer β)} {a : Address}
    (hpayment : ∀ x, Keeps Effect.any.On (payment x))
    (hbody : pre_execution_check t p = .ok () → ∀ x gas h w, Rep db saved h.state w →
      wp (body x gas) (fun _ => True) (AnswerAsked g db saved a) h)
    (hrep : Rep db saved h.state w) (input : Bytes) :
    wp (run_function spec t payment body input p) (fun _ => True) (AnswerAsked g db saved a) h := by
  refine wp_bind.mpr (wp_ofExcept.mpr ?_)
  rcases hcheck : pre_execution_check t p with e | ⟨⟩
  · rintro _ _ ⟨⟩
  refine wp_bind.mpr (wp_ofExcept.mpr ?_)
  rcases (abi_decode input).mapError abi_decode_error with e | x
  · rintro _ _ ⟨⟩
  refine wp_bind.mpr (wp_post (hpayment x h) ?_)
  rintro (e | cost) h₁ hon
  · rintro _ _ ⟨⟩
  obtain ⟨w₁, hrep₁, -⟩ := hon.state db saved w hrep
  refine wp_ite (fun _ => ?_) fun _ => ?_
  · rintro _ _ ⟨⟩
  refine wp_bind.mpr (wp_post (hbody hcheck x _ h₁ w₁ hrep₁) ?_)
  rintro (e | output | ⟨trap, resume⟩) h₂ hasked
  · rintro _ _ ⟨⟩
  · refine wp_bind.mpr (wp_ofPanic (fun _ _ => trivial) fun _ _ => wp_ite (fun _ => ?_) fun _ => ?_)
    · rintro _ _ ⟨⟩
    · rintro _ _ ⟨⟩
  · rintro _ _ ⟨⟩
    exact hasked trap resume rfl

theorem simple_asked {α β : Type} (body : α → HostM β) (x : α) (gas : U256) (a : Address)
    (h : Host State) : wp (simple body x gas) (fun _ => True) (AnswerAsked g db saved a) h := by
  refine wp_bind.mpr (wp_intro (fun _ _ => trivial) ?_)
  rintro (e | y) h' -
  · rintro _ _ ⟨⟩
  · rintro _ _ ⟨⟩

omit [Keccak] in
theorem value_of_query (hcheck : pre_execution_check .query p = .ok ()) : p.value.value = 0 := by
  unfold pre_execution_check at hcheck
  split at hcheck
  · cases hcheck
  · rename_i hne
    simpa [FunctionType.query, U256.is_zero] using hne

theorem internal_exec_askedAt (hrep : Rep db saved h.state w) (internal : InternalContract)
    (a : Address) :
    wp (internal.exec g ctx p) (fun _ => True) (AnswerAsked g db saved a) h := by
  refine wp_ite (fun _ => ?_) fun _ => ?_
  swap
  · rintro _ _ ⟨⟩
  refine wp_bind.mpr (wp_ofExcept.mpr ?_)
  rcases InternalContract.load_solidity_fn p.data internal.get_func_table g.spec with e | ⟨f, input⟩
  · rintro _ _ ⟨⟩
  have hquery : ∀ answer, wp (SolidityFunction.block_query g answer input p) (fun _ => True)
      (AnswerAsked g db saved a) h := fun answer =>
    run_function_asked (fun _ => gas_sum_keeps _) (fun _ x gas h _ _ => simple_asked _ x gas a h)
      hrep input
  have hany : FunctionsKeep g Effect.any.On := functions_any.functionsKeep
  show wp (f.execute g ctx input p) _ _ h
  unfold SolidityFunction.execute
  cases f with
  | CreateToEVM =>
    exact run_function_asked (fun _ => create_gas_keeps _ _)
      (fun _ _ _ _ _ hrep => create_to_evmcore_asked hrep a _ _ _) hrep input
  | TransferToEVM =>
    exact run_function_asked (fun _ => hany.call_gas _ _ _ _)
      (fun _ _ _ _ _ hrep => call_to_evmcore_asked hrep a _ _ (.inl rfl) _) hrep input
  | CallToEVM =>
    exact run_function_asked (fun _ => hany.call_gas _ _ _ _)
      (fun _ _ _ _ _ hrep => call_to_evmcore_asked hrep a _ _ (.inl rfl) _) hrep input
  | StaticCallToEVM =>
    exact run_function_asked (fun _ => gas_sum_keeps _)
      (fun hcheck _ _ _ _ hrep => call_to_evmcore_asked hrep a _ _
        (.inr ⟨rfl, value_of_query hcheck⟩) _) hrep input
  | Withdraw =>
    exact run_function_asked (fun _ => gas_sum_keeps _)
      (fun _ x gas h _ _ => simple_asked _ x gas a h) hrep input
  | MappedBalance =>
    exact run_function_asked (fun _ => gas_sum_keeps _)
      (fun _ x gas h _ _ => simple_asked _ x gas a h) hrep input
  | MappedNonce =>
    exact run_function_asked (fun _ => gas_sum_keeps _)
      (fun _ x gas h _ _ => simple_asked _ x gas a h) hrep input
  | DeployEip1820 =>
    exact run_function_asked (fun _ => gas_sum_keeps _)
      (fun _ x gas h _ _ => simple_asked _ x gas a h) hrep input
  | EpochNumber => exact hquery _
  | PoSHeight => exact hquery _
  | FinalizedEpoch => exact hquery _

/-- An internal contract asks for calls and creations as `Asked` says, whichever address it runs
    at. -/
theorem internal_exec_asked (hrep : Rep db saved h.state w) (internal : InternalContract) :
    wp (internal.exec g ctx p) (fun _ => True)
      (fun r h' => ∀ a, AnswerAsked g db saved a r h') h :=
  wp_intro (fun _ _ => trivial) fun _ _ hrun a =>
    wp_of_run (internal_exec_askedAt hrep internal a) hrun

end

end

/-! ## What runs in a frame -/

/-- The object belongs to the frame: an interpreter runs at the address of the frame. -/
def Exec.Placed (ctx : FrameContext) : Exec → Prop
  | Interpreter _ i => i.params.address = ctx.origin.address ∧ i.Resumable
  | _ => True

/-- The object that waits belongs to the frame. -/
def Suspended.Placed (ctx : FrameContext) : Suspended → Prop
  | Interpreter _ i => i.params.address = ctx.origin.address
  | Resume _ => True

/-- What a step of an object of the frame comes to. -/
def Progress.Asked (g : Globals) (db : StateDb) (saved : List Ledger) (ctx : FrameContext)
    (h : Host State) : Progress → Prop
  | .Continue exec => exec.Placed ctx ∧ ∃ c i, exec = .Interpreter c i
  | .Output (.Return _) => True
  | .Output (.SubCallCreate trap resume) => resume.Placed ctx ∧
      ∀ a, ((∃ c i, resume = .Interpreter c i) → a = ctx.origin.address) →
        AskedIn g db saved a trap h

variable {g : Globals} {ctx : FrameContext} {db : StateDb} {saved : List Ledger} {h : Host State}
  {w : Ledger}

/-- A step of what belongs to the frame belongs to the frame, and asks for what `Asked` says. -/
theorem exec_step_asked [HashOrder] {exec : Exec} (hplaced : exec.Placed ctx)
    (hrep : Rep db saved h.state w) :
    wp (exec.step g ctx) (fun _ => True) (fun r h' => ∀ progress, r = .ok progress →
      progress.Asked g db saved ctx h') h := by
  cases exec with
  | NoopExec gas =>
    rintro _ ⟨⟩
    trivial
  | BuiltinExec builtin params =>
    rintro _ ⟨⟩
    trivial
  | InternalContractExec internal params =>
    refine wp_bind.mpr (wp_result.mpr (wp_post (internal_exec_asked hrep internal) ?_))
    rintro (e | output | ⟨trap, resume⟩) h' hasked
    · rintro _ ⟨⟩
      trivial
    · rintro _ ⟨⟩
      trivial
    · rintro _ ⟨⟩
      exact ⟨trivial, fun a _ => hasked a trap resume rfl⟩
  | PassResult pass =>
    refine wp_bind.mpr (wp_result.mpr (wp_intro (fun _ _ => trivial) ?_))
    rintro r h' -
    rintro _ ⟨⟩
    trivial
  | Interpreter c i =>
    refine wp_bind.mpr (wp_withPart.mpr (wp_post (wp_and (Interpreter.step_sameCode (i, h))
      (Interpreter.step_asked hplaced.1 hplaced.2 hrep)) ?_))
    rintro (e | _ | value | _ | trap) ⟨i', h'⟩ ⟨⟨hparams, -, hres⟩, hasked⟩
    · rintro _ ⟨⟩
      trivial
    · trivial
    · rintro _ ⟨⟩
      trivial
    · rintro _ ⟨⟩
      have hi' : i'.params.address = ctx.origin.address :=
        (congrArg InterpreterParams.address hparams).trans hplaced.1
      exact ⟨⟨hi', hres hplaced.2⟩, c, i', rfl⟩
    · rintro _ ⟨⟩
      have hi' : i'.params.address = ctx.origin.address :=
        (congrArg InterpreterParams.address hparams).trans hplaced.1
      refine ⟨hi', fun a ha => ?_⟩
      rw [ha ⟨c, i', rfl⟩]
      exact hasked trap rfl

end CfxEvm
