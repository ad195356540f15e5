import CfxEvm.Evm.Proofs.OwnCodeProofs
import CfxEvm.Frame.Proofs.SiteProofs

/-!
# Proofs: the code of a frame and its hash

The code of a call and the hash of that code are read from the ledger one after the other, those of
a creation are made together. As long as the accounts show the codes that their hashes stand for,
every frame is given the hash of its own code, or none, and what runs in it looks up the jump
destinations of its own code.
-/

open Lib Lib.Prog

namespace CfxEvm

variable [Keccak] {g : Globals} {stored : Address → Bytes → U256}
  {P : Address → AccountView → Prop}

/-! ## Properties that all accounts keep -/

/-- The effect of code that keeps a property of all accounts. -/
def lastingEffect (stored : Address → Bytes → U256) (P : Address → AccountView → Prop) :
    Effect where
  ledger := Ledger.Lasts stored P
  substate _ := True
  refl := refl_of (Ledger.Lasts stored P)
  trans := trans_of (Ledger.Lasts stored P)
  new := trivial
  accrue _ _ := trivial
  touched _ _ := trivial

/-- Code that keeps it may run anywhere. -/
def lastingSites (stored : Address → Bytes → U256) (P : Address → AccountView → Prop) : Sites where
  effect := lastingEffect stored P
  holds := Ledger.All stored P
  runsAt _ _ := True

/-- A property that lasts, and that new contracts have, is kept by all frames. -/
theorem Lasting.sites_lawful (hP : Lasting stored P) (hnew : ∀ a balance nonce invalidated,
    P a (.contract a balance nonce invalidated (stored a))) {I : FrameStack → Prop} :
    (lastingSites stored P).Lawful g I where
  lasts h := h.all
  stays _ _ := trivial
  found _ _ := .inl trivial
  created _ _ _ _ := trivial
  pre_exec_call _ := pre_exec_call_keeps fun _ _ => hP.keeps_transfer_balance _ _ _ _ _
  pre_exec_create _ _ _ _ _ := pre_exec_create_keeps (fun _ _ => hP.keeps_sub_balance _ _ _)
    fun _ => new_contract_lasts (hnew _) _ _
  writes _ :=
    { set_storage := fun _ _ => hP.keeps_set_storage _ _ _
      inc_nonce := fun _ => hP.keeps_inc_nonce _ _
      log := fun _ _ => trivial
      suicide := fun _ _ => suicide_keeps (fun _ => trivial) (fun _ _ => hP.keeps_sub_balance _ _ _)
        (fun _ => subtract_total_issued_lasts _) fun _ _ => hP.keeps_transfer_balance _ _ _ _ _ }
  init_code _ code := hP.keeps_init_code _ code
  functions :=
    { transfer := fun _ _ _ _ => hP.keeps_transfer_balance _ _ _ _ _
      inc_nonce := fun _ => hP.keeps_inc_nonce _ _
      log := fun _ _ => trivial }
  deploy _ _ _ := deploy_eip1820_keeps (new_contract_lasts (hnew _) _ _)
    (fun _ => hP.keeps_init_code _ _) fun _ => trivial
  note_created _ _ := trivial

theorem coded_lawful {I : FrameStack → Prop} :
    (lastingSites stored AccountView.Coded).Lawful g I :=
  (coded_lasting stored).sites_lawful fun a balance nonce invalidated =>
    coded_contract a balance nonce invalidated (stored a)

/-! ## What runs in a frame -/

/-- An interpreter looks up the destinations of its own code. -/
def Exec.OwnCode : Exec → Prop
  | Interpreter _ i => i.OwnCode
  | _ => True

def Suspended.OwnCode : Suspended → Prop
  | Interpreter _ i => i.OwnCode
  | Resume _ => True

def FrameStatus.OwnCode : FrameStatus → Prop
  | ResumeCall resume => resume.OwnCode
  | ResumeCreate resume => resume.OwnCode
  | _ => True

def Progress.OwnCode : Progress → Prop
  | Continue exec => exec.OwnCode
  | Output (.Return _) => True
  | Output (.SubCallCreate _ resume) => resume.OwnCode

/-- The cache is the same in both hosts. -/
def SameCache (h h' : Host State) : Prop := h'.shared_cache = h.shared_cache

instance : IsPreorder (Host State) SameCache where
  refl _ := rfl
  trans _ _ _ h h' := h'.trans h

omit [Keccak] in
theorem overlooks_cache : Overlooks SameCache :=
  ⟨fun _ _ => rfl, fun _ _ => rfl, fun _ _ _ _ => rfl⟩

/-- A step of what looks up its own destinations goes on so, and leaves the cache in order. -/
theorem exec_step_ownCode {ctx : FrameContext} {exec : Exec} {h : Host State} (hown : exec.OwnCode)
    (hhashed : h.shared_cache.Hashed) :
    wp (exec.step g ctx) (fun _ => True) (fun r h' => h'.shared_cache.Hashed ∧
      ∀ progress, r = .ok progress → progress.OwnCode) h := by
  cases exec with
  | NoopExec gas =>
    refine ⟨hhashed, ?_⟩
    rintro _ ⟨⟩
    trivial
  | BuiltinExec builtin params =>
    refine ⟨hhashed, ?_⟩
    rintro _ ⟨⟩
    trivial
  | InternalContractExec internal params =>
    refine wp_bind.mpr (wp_result.mpr (wp_post
      (overlooks_cache.functions.exec (fun _ => overlooks_cache.deploy_eip1820) ctx h) ?_))
    rintro r h' hsame
    refine ⟨by rw [hsame]; exact hhashed, ?_⟩
    rintro _ ⟨⟩
    rcases r with e | output | ⟨trap, resume⟩ <;> trivial
  | PassResult pass =>
    refine wp_bind.mpr (wp_result.mpr (wp_post
      (overlooks_cache.functions (g := g).pass_result ctx pass h) ?_))
    rintro r h' hsame
    refine ⟨by rw [hsame]; exact hhashed, ?_⟩
    rintro _ ⟨⟩
    trivial
  | Interpreter c i =>
    refine wp_bind.mpr (wp_withPart.mpr (wp_post (Interpreter.step_staysInOrder (i, h)) ?_))
    rintro (e | _ | value | _ | trap) ⟨i', h'⟩ hstays
    all_goals obtain ⟨hown', hhashed'⟩ := hstays ⟨hown, hhashed⟩
    · refine ⟨hhashed', ?_⟩
      rintro _ ⟨⟩
      trivial
    · trivial
    · refine ⟨hhashed', ?_⟩
      rintro _ ⟨⟩
      trivial
    · refine ⟨hhashed', ?_⟩
      rintro _ ⟨⟩
      exact hown'
    · refine ⟨hhashed', ?_⟩
      rintro _ ⟨⟩
      exact hown'

/-- What is made for a frame with its own hash looks up its own destinations. -/
theorem exec_object_ownCode {kind : FrameKind} {params : ActionParams} {exec : Exec}
    (hparams : params.Hashed) (hobject : CallCreateFrame.exec_object kind params = .ok exec) :
    exec.OwnCode := by
  have hcreate : Exec.create params = .ok exec → exec.OwnCode := by
    intro h
    unfold Exec.create at h
    split at h
    · rename_i code hcode
      obtain rfl := Except.ok.inj h
      have hhash : params.code_hash = none ∨ params.code_hash = some (keccak code) := by
        rcases hh : params.code_hash with _ | hash
        · exact .inl rfl
        · exact .inr (congrArg some (hparams hash code hh hcode).symm)
      split
      · exact Interpreter.ownCode_new hhash
      · exact Interpreter.ownCode_new hhash
    · cases h
  cases kind with
  | Transfer =>
    cases hobject
    trivial
  | CallBuiltin builtin =>
    cases hobject
    trivial
  | CallInternalContract internal =>
    cases hobject
    trivial
  | ExecCall => exact hcreate hobject
  | ExecCreate => exact hcreate hobject

/-- What takes up a result has the code of what waited for it. -/
theorem resume_object_ownCode {status : FrameStatus} {r : Except VmError FrameReturn} {exec : Exec}
    (h : status.OwnCode) (hresume : CallCreateFrame.resume_object status r = .ok exec) :
    exec.OwnCode := by
  cases status with
  | ResumeCall resume =>
    cases resume with
    | Interpreter c i =>
      simp only [CallCreateFrame.resume_object, Suspended.resume_call] at hresume
      rcases hr : i.resume_call (into_message_call_result r) with p | i' <;> rw [hr] at hresume <;>
        cases hresume
      exact Interpreter.OwnCode.of_sameJumps h (Interpreter.resume_call_resumed hr).jumps
    | Resume resume =>
      simp only [CallCreateFrame.resume_object, Suspended.resume_call] at hresume
      rcases hr : resume.resume_call (into_message_call_result r) with p | pass <;>
        rw [hr] at hresume <;> cases hresume
      trivial
  | ResumeCreate resume =>
    simp only [CallCreateFrame.resume_object, bind, Except.bind] at hresume
    split at hresume
    · cases hresume
    rename_i result _
    cases resume with
    | Interpreter c i =>
      simp only [Suspended.resume_create] at hresume
      rcases hr : i.resume_create result with p | i' <;> rw [hr] at hresume <;> cases hresume
      exact Interpreter.OwnCode.of_sameJumps h (Interpreter.resume_create_resumed hr).jumps
    | Resume resume =>
      simp only [Suspended.resume_create] at hresume
      rcases hr : resume.resume_create result with p | pass <;> rw [hr] at hresume <;> cases hresume
      trivial
  | Input params => cases hresume
  | Running => cases hresume
  | Done => cases hresume

/-! ## Whole runs -/

/-- A frame that is made for a call or creation has the hash of its own code. -/
theorem Sites.EntersAs.hashed {S : Sites} {w : Ledger} {frame : CallCreateFrame}
    (h : S.EntersAs g w frame) (hw : w.Coded) {params : ActionParams}
    (hstatus : frame.status = .Input params) : params.Hashed := by
  cases h with
  | @call params₁ a depth flag hasked hsite =>
    obtain rfl : params₁ = params := FrameStatus.Input.inj hstatus
    exact hasked.hashed hw
  | @create params₁ depth flag hasked =>
    obtain rfl : params₁ = params := FrameStatus.Input.inj hstatus
    exact hasked.hashed

/-- What is known along a run over accounts with the codes of their hashes. -/
def ownCourse (g : Globals) (db : StateDb) (stored : Address → Bytes → U256) : Course Ledger :=
  let C := (lastingSites stored AccountView.Coded).course g db
  { C with
    stands := fun saved h w => C.stands saved h w ∧ h.shared_cache.Hashed
    running := fun frame exec t w => C.running frame exec t w ∧ exec.OwnCode
    asking := fun kind caller w => C.asking kind caller w ∧ caller.status.OwnCode
    waiting := fun frame w => C.waiting frame w ∧ frame.status.OwnCode }

variable [HashOrder]

theorem ownCourse_kept (db : StateDb) (I : FrameStack → Prop) : (ownCourse g db stored).Kept g I :=
  have hlawful : (lastingSites stored AccountView.Coded).Lawful g I := coded_lawful
  have hC := hlawful.kept db
  { refl := hC.refl
    trans := hC.trans
    activate := fun t h => ⟨hC.activate t h.1, h.2⟩
    lasts := fun h hgrows => ⟨hC.lasts h.1 hgrows, h.2⟩
    enter := by
      intro s frame frame' exec saved w h' hI hphase henter hstands hrun
      obtain ⟨b, hb, hgrows, hrunning⟩ := hC.enter hI hphase henter hstands.1 hrun
      obtain ⟨params, h₁, hbegins⟩ := frame_exec_inv hrun
      have hcache := (overlooks_cache.pre_exec _ _ _).of_run hbegins.pre_exec
      refine ⟨b, ⟨hb, ?_⟩, hgrows, hrunning, ?_⟩
      · rw [hcache, hbegins.shared_cache]
        exact hstands.2
      · have hparams : params.Hashed := henter.2.2.hashed henter.1.holds hbegins.status
        exact exec_object_ownCode hparams hbegins.object
    go_on := by
      intro s frame exec exec' saved w h' hI hphase hrunning hstands hrun
      obtain ⟨b, hb, hgrows, hrunning'⟩ := hC.go_on hI hphase hrunning.1 hstands.1 hrun
      obtain ⟨hhashed, hown⟩ := wp_of_run (exec_step_ownCode hrunning.2 hstands.2) hrun
      exact ⟨b, ⟨hb, hhashed⟩, hgrows, hrunning', hown _ rfl⟩
    returns := by
      intro s frame exec result r old saved w h₁ h' hI hphase hrunning hstands hold hrun hret
      obtain ⟨b, hb, hgrows, hreturned⟩ :=
        hC.returns hI hphase hrunning.1 hstands.1 hold hrun hret
      obtain ⟨hhashed, -⟩ := wp_of_run (exec_step_ownCode hrunning.2 hstands.2) hrun
      obtain ⟨fin, h₂, substate, h₃, hends⟩ := process_return_inv hret
      have hfinalize := (overlooks_cache.finalize result).of_run hends.finalize
      have hclose := (overlooks_cache.close frame _).of_run hends.close
      refine ⟨b, ⟨hb, ?_⟩, hgrows, hreturned⟩
      rw [hends.shared_cache, hclose, hfinalize]
      exact hhashed
    traps := by
      intro s frame exec kind resume saved w h' hI hphase hrunning hstands hrun
      obtain ⟨b, hb, hgrows, hasking⟩ := hC.traps hI hphase hrunning.1 hstands.1 hrun
      obtain ⟨hhashed, hown⟩ := wp_of_run (exec_step_ownCode hrunning.2 hstands.2) hrun
      refine ⟨b, ⟨hb, hhashed⟩, hgrows, hasking, ?_⟩
      cases kind with
      | Call params => exact hown _ rfl
      | Create params => exact hown _ rfl
    calls := by
      intro kind caller w hasking
      obtain ⟨hwaiting, hentering⟩ := hC.calls hasking.1
      exact ⟨⟨hwaiting, hasking.2⟩, hentering⟩
    resumes := by
      intro parent parent' r exec w hwaiting hhanded hresume
      exact ⟨hC.resumes hwaiting.1 hhanded hresume,
        resume_object_ownCode hwaiting.2 (resume_inv hresume).1⟩ }

end CfxEvm
