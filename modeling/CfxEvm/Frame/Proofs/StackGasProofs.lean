import CfxEvm.Frame.Proofs.StackProofs
import CfxEvm.InternalContract.Proofs.GasSplitProofs
import Mathlib.Algebra.GroupWithZero.Nat

/-!
# Proofs: gas of the stack of frames

The gas that all live frames hold together never grows, and every round of the loop makes a measure
smaller that is made of this gas, the number of frames and the phase.
-/

open Lib Lib.Prog

namespace CfxEvm

/-! ## The gas of live frames -/

/-- The gas that a suspended object keeps. -/
def Suspended.gas : Suspended → Nat
  | Interpreter _ i => i.gas
  | Resume r => r.gas_retained.toNat

/-- What the gas of a suspended object is counted in: all that it can be given back stays below. -/
def Suspended.capacity : Suspended → Nat
  | Interpreter c _ => 2 ^ c.bits
  | Resume _ => 2 ^ 256

/-- The gas of what runs in a frame, with the gas that has come back to it. -/
def Exec.gas : Exec → Nat
  | NoopExec gas => gas.toNat
  | BuiltinExec _ params => params.gas.toNat
  | InternalContractExec _ params => params.gas.toNat
  | Interpreter _ i => i.gas + i.pending
  | PassResult pass => pass.gas_left.toNat + pass.resume.gas_retained.toNat

def FrameStatus.gas : FrameStatus → Nat
  | Input params => params.gas.toNat
  | ResumeCall resume | ResumeCreate resume => resume.gas
  | Running | Done => 0

/-- The gas that the result of a frame hands back. -/
def result_gas (r : Except VmError FrameReturn) : Nat :=
  match r with
  | .ok r => r.gas_left.toNat
  | .error _ => 0

/-- The gas of the current frame, and of the one that it is about to call. -/
def Phase.gas : Phase → Nat
  | Enter frame => frame.status.gas
  | Execute _ exec => exec.gas
  | LastRes (.Return r) => result_gas r
  | LastRes (.SubCallCreate kind caller) => kind.params.gas.toNat + caller.status.gas

/-- The gas that all frames hold. -/
def FrameStack.gas (s : FrameStack) : Nat :=
  s.phase.gas + (s.frame_stack.map fun f => f.status.gas).sum

/-! ## What fits -/

/-- The gas of what runs in a frame can be counted. -/
def Exec.Fits : Exec → Prop
  | Interpreter c i => i.Resumable ∧ i.gas + i.pending < 2 ^ c.bits
  | PassResult pass => pass.gas_left.toNat + pass.resume.gas_retained.toNat < 2 ^ 256
  | _ => True

/-- A waiting frame can count its gas together with `given`. -/
def FrameStatus.Fits (given : Nat) : FrameStatus → Prop
  | ResumeCall resume | ResumeCreate resume => resume.gas + given < resume.capacity
  | _ => True

/-- Every waiting frame can count its gas together with the gas of all frames that it has called,
    of which there is `given` above the first one. -/
def WaitingFit (given : Nat) : List CallCreateFrame → Prop
  | [] => True
  | f :: rest => f.status.Fits given ∧ WaitingFit (given + f.status.gas) rest

def Phase.Fits : Phase → Prop
  | Execute _ exec => exec.Fits
  | LastRes (.SubCallCreate kind caller) => caller.status.Fits kind.params.gas.toNat
  | _ => True

/-- The gas of all frames can be counted by each of them, whatever is handed back. -/
def FrameStack.GasFits (s : FrameStack) : Prop :=
  s.phase.Fits ∧ WaitingFit s.phase.gas s.frame_stack

theorem FrameStatus.Fits.mono {given given' : Nat} (hle : given' ≤ given) {status : FrameStatus}
    (h : status.Fits given) : status.Fits given' := by
  cases status <;> simp only [FrameStatus.Fits] at h ⊢ <;> omega

theorem WaitingFit.mono {given given' : Nat} (hle : given' ≤ given) {stack : List CallCreateFrame}
    (h : WaitingFit given stack) : WaitingFit given' stack := by
  induction stack generalizing given given' with
  | nil => trivial
  | cons f rest ih => exact ⟨h.1.mono hle, ih (Nat.add_le_add_right hle _) h.2⟩

/-! ## Beginning, steps and end of a frame -/

/-- How far an execution is from its end when no gas is used: a result has to be taken up first. -/
def Exec.rank : Exec → Nat
  | Interpreter _ i => if i.resume_result.isSome then 3 else 2
  | _ => 2

/-- What one step costs at least if the execution goes on. -/
def Exec.cost : Exec → Nat
  | Interpreter _ i => i.step_cost
  | _ => 0

section
variable {g : Globals} {ctx : FrameContext}

theorem new_interpreter_gas {c : CostType} {params : ActionParams} {code : Bytes}
    (h : params.gas.toNat < 2 ^ c.bits) :
    (Interpreter.new params code : Interpreter c).gas = params.gas.toNat := by
  simp only [Interpreter.gas, Interpreter.new, Cost.from_u256_of_lt h, Gasometer.new,
    BitVec.toNat_ofNat, Nat.mod_eq_of_lt h]

theorem new_interpreter_fits {c : CostType} {params : ActionParams} {code : Bytes}
    (h : params.gas.toNat < 2 ^ c.bits) :
    (Exec.Interpreter c (.new params code)).gas = params.gas.toNat ∧
      (Exec.Interpreter c (.new params code)).Fits ∧
      (Exec.Interpreter c (.new params code)).rank = 2 := by
  have hgas : (Interpreter.new params code : Interpreter c).gas = params.gas.toNat :=
    new_interpreter_gas h
  refine ⟨hgas, ⟨.inl rfl, ?_⟩, rfl⟩
  exact hgas.trans_lt h

/-- A frame begins with the gas that it was given. -/
theorem exec_object_gas {kind : FrameKind} {params : ActionParams} {exec : Exec}
    (h : CallCreateFrame.exec_object kind params = .ok exec) :
    exec.gas = params.gas.toNat ∧ exec.Fits ∧ exec.rank = 2 := by
  have hcreate : Exec.create params = .ok exec →
      exec.gas = params.gas.toNat ∧ exec.Fits ∧ exec.rank = 2 := by
    intro h
    unfold Exec.create at h
    split at h
    · obtain rfl := Except.ok.inj h
      split
      · exact new_interpreter_fits ‹_›
      · exact new_interpreter_fits params.gas.isLt
    · cases h
  cases kind with
  | Transfer => cases h; exact ⟨rfl, trivial, rfl⟩
  | CallBuiltin builtin => cases h; exact ⟨rfl, trivial, rfl⟩
  | CallInternalContract internal => cases h; exact ⟨rfl, trivial, rfl⟩
  | ExecCall => exact hcreate h
  | ExecCreate => exact hcreate h

/-- What a step of an object with some gas may come to. -/
def Progress.Within (spec : Spec) (gas cost : Nat) : Progress → Prop
  | .Continue exec => exec.gas + cost ≤ gas ∧ exec.Fits ∧ exec.rank = 2
  | .Output (.Return result) => ∀ output, result = .ok output → output.gas.toNat ≤ gas
  | .Output (.SubCallCreate trap resume) =>
    resume.gas + trap.params.gas.toNat + trap.base_price spec ≤ gas ∧
      resume.gas + trap.params.gas.toNat < resume.capacity

variable [Keccak]

theorem interpreter_step_gas (hspec : g.spec.GenesisConstants) {c : CostType} {i : Interpreter c}
    (hfits : (Exec.Interpreter c i).Fits) :
    Yields (Progress.Within g.spec (i.gas + i.pending) i.step_cost)
      (Exec.interpreter_step g ctx i) := by
  intro h
  refine wp_bind.mpr (wp_withPart.mpr (wp_post (Interpreter.step_gas hspec hfits.1 h) ?_))
  rintro (e | result) ⟨i', h'⟩ hstep
  · intro progress hr
    cases hr
    intro output ho
    cases ho
  have hgas := hstep result rfl
  have hlt : i.gas + i.pending < 2 ^ c.bits := hfits.2
  cases result with
  | Stopped => trivial
  | Done value =>
    intro progress hr
    cases hr
    rintro output rfl
    exact hgas
  | Continue =>
    intro progress hr
    cases hr
    have hle : i'.gas + i.step_cost ≤ i.gas + i.pending := hgas.1
    have hnone : i'.resume_result = none := hgas.2
    have hpending : i'.pending = 0 := by simp only [Interpreter.pending, hnone]
    refine ⟨?_, ⟨.inl hnone, show i'.gas + i'.pending < 2 ^ c.bits by omega⟩, ?_⟩
    · simpa only [Exec.gas, hpending, Nat.add_zero] using hle
    · simp [Exec.rank, hnone]
  | Trap trap =>
    intro progress hr
    cases hr
    have hle : i'.gas + trap.params.gas.toNat + trap.base_price g.spec ≤ i.gas + i.pending := hgas.1
    exact ⟨hle, show i'.gas + trap.params.gas.toNat < 2 ^ c.bits by omega⟩

/-- An interpreter that traps was not waiting for a result, and is the object that waits now. -/
theorem interpreter_step_trap (hspec : g.spec.GenesisConstants) {c : CostType} {i : Interpreter c}
    (hres : i.Resumable) :
    Yields (fun progress => ∀ trap resume, progress = .Output (.SubCallCreate trap resume) →
        i.pending = 0 ∧ ∃ i', resume = .Interpreter c i') (Exec.interpreter_step g ctx i) := by
  intro h
  refine wp_bind.mpr (wp_withPart.mpr (wp_post (Interpreter.step_gas hspec hres h) ?_))
  rintro (e | result) ⟨i', h'⟩ hstep
  · intro progress hr trap resume hp
    cases hr
    cases hp
  have hgas := hstep result rfl
  cases result with
  | Stopped => trivial
  | Trap trap' =>
    intro progress hr trap resume hp
    cases hr
    cases hp
    have hcost : 0 < i.step_cost := hgas.2
    refine ⟨?_, i', rfl⟩
    unfold Interpreter.step_cost at hcost
    unfold Interpreter.pending
    cases hi : i.resume_result with
    | none => rfl
    | some result => simp [hi] at hcost
  | _ =>
    intro progress hr trap resume hp
    cases hr
    cases hp

omit [Keccak] in
theorem builtin_exec_gas {builtin : Builtin} {params : ActionParams} {output : GasLeft}
    (h : BuiltinExec.exec builtin params = .ok output) : output.gas.toNat ≤ params.gas.toNat := by
  unfold BuiltinExec.exec at h
  simp only at h
  split at h
  · rename_i hle
    split at h
    · cases h
      have hsub := toNat_sub_add hle
      simp only [GasLeft.gas]
      omega
    · cases h
  · cases h

theorem pass_result_gas {pass : PassResult} :
    Yields (fun output => output.gas.toNat ≤
      pass.gas_left.toNat + pass.resume.gas_retained.toNat) (pass.exec g ctx) := by
  refine .seq fun _ => .seq fun data => .bind (.expect fun gas_left h => h) fun gas_left hsum =>
    .ite (fun _ => .fail _) fun hcost => .pure ?_
  have hlt := gas_left.isLt
  have hcost' : (BitVec.ofNat 256 ((data.len + 31) / 32 * g.spec.memory_gas)).toNat =
      (data.len + 31) / 32 * g.spec.memory_gas := by
    rw [BitVec.toNat_ofNat, Nat.mod_eq_of_lt (by omega)]
  have hsub := toNat_sub_add (x := gas_left) (hcost'.trans_le (Nat.le_of_not_lt hcost))
  have hadd : gas_left.toNat = pass.gas_left.toNat + pass.resume.gas_retained.toNat := by
    unfold U256.checked_add at hsum
    split at hsum
    · rw [← Option.some_inj.mp hsum, BitVec.toNat_add, Nat.mod_eq_of_lt ‹_›]
    · cases hsum
  simp only [GasLeft.gas]
  omega

/-- A step of what runs in a frame adds no gas. -/
theorem exec_step_gas (hspec : g.spec.GenesisConstants) {exec : Exec} (hfits : exec.Fits) :
    Yields (Progress.Within g.spec exec.gas exec.cost) (exec.step g ctx) := by
  cases exec with
  | NoopExec gas =>
    refine .pure fun output ho => ?_
    cases ho
    exact Nat.le_refl _
  | BuiltinExec builtin params => exact .pure fun output ho => builtin_exec_gas ho
  | InternalContractExec internal params =>
    intro h
    refine wp_bind.mpr (wp_result.mpr (wp_post (internal_exec_gas hspec internal h) ?_))
    rintro (e | answer) h' hr <;> intro progress hp <;> cases hp
    · intro output ho
      cases ho
    · obtain ⟨hwithin, hout⟩ := hr answer rfl
      cases answer with
      | Return output =>
        intro output' ho
        cases ho
        exact hout output rfl
      | SubCallCreate trap resume =>
        have hlt := params.gas.isLt
        simp only [Answer.Within] at hwithin
        exact ⟨hwithin, show resume.gas_retained.toNat + _ < 2 ^ 256 by omega⟩
  | Interpreter c i => exact interpreter_step_gas hspec hfits
  | PassResult pass =>
    intro h
    refine wp_bind.mpr (wp_result.mpr (wp_post (pass_result_gas h) ?_))
    intro r h' hr progress hp
    cases hp
    exact fun output ho => hr output ho

theorem ret_gas (gas : U256) (data : ReturnData) (apply_state : Bool) :
    Yields (fun gas_left => gas_left.toNat ≤ gas.toNat)
      (Context.ret g ctx gas data apply_state) := by
  refine .ite (fun _ => .seq fun code => .ite (fun _ => ?_) fun hcost => ?_)
    fun _ => .pure (Nat.le_refl _)
  · exact .ite (fun _ => .fail _) fun _ => .pure (Nat.le_refl _)
  · refine .seq fun _ => .pure ?_
    have hle : code.length * (g.spec.create_data_gas * g.spec.evm_gas_ratio) ≤ gas.toNat := by
      simp only [Bool.or_eq_true, decide_eq_true_eq, not_or] at hcost
      omega
    have hcost' : (BitVec.ofNat 256 (code.length *
        (g.spec.create_data_gas * g.spec.evm_gas_ratio))).toNat =
        code.length * (g.spec.create_data_gas * g.spec.evm_gas_ratio) := by
      rw [BitVec.toNat_ofNat, Nat.mod_eq_of_lt (by have := gas.isLt; omega)]
    have hsub := toNat_sub_add (x := gas) (hcost'.trans_le hle)
    omega

theorem finalize_gas {gas : Nat} {result : Except VmError GasLeft}
    (hgas : ∀ output, result = .ok output → output.gas.toNat ≤ gas) :
    Yields (fun fin => fin.gas_left.toNat ≤ gas) (finalize g ctx result) := by
  rcases result with e | ⟨gas_left⟩ | ⟨gas_left, data, apply_state⟩
  · exact .fail _
  · exact .pure (hgas _ rfl)
  · refine .bind (ret_gas _ _ _) fun left hle => .pure ?_
    exact hle.trans (hgas _ rfl)

variable [HashOrder]

theorem process_return_gas {frame : CallCreateFrame} {gas : Nat} {result : Except VmError GasLeft}
    (hgas : ∀ output, result = .ok output → output.gas.toNat ≤ gas)
    {r : Except VmError FrameReturn} {h h' : Host State}
    (hrun : (frame.process_return g result).run h = .ok (.ok r, h')) : result_gas r ≤ gas := by
  obtain ⟨fin, h₁, substate, h₂, hends⟩ := process_return_inv hrun
  have hfin := hends.finalize
  obtain rfl := hends.result_eq
  cases fin with
  | error e => exact Nat.zero_le _
  | ok fin => exact (finalize_gas hgas).of_run hfin

end

/-! ## Resumption -/

/-- The gas that comes back with the result of a call. -/
def MessageCallResult.gas : MessageCallResult → Nat
  | Success gas_left _ | Reverted gas_left _ => gas_left.toNat
  | Failed _ => 0

/-- The gas that comes back with the result of a creation. -/
def ContractCreateResult.gas : ContractCreateResult → Nat
  | Created _ gas_left | Reverted gas_left _ => gas_left.toNat
  | Failed _ => 0

theorem into_message_call_result_gas (r : Except VmError FrameReturn) :
    (into_message_call_result r).gas = result_gas r := by
  cases r with
  | error e => rfl
  | ok r =>
    simp only [into_message_call_result]
    split <;> rfl

theorem into_contract_create_result_gas {r : Except VmError FrameReturn}
    {result : ContractCreateResult} (h : into_contract_create_result r = .ok result) :
    result.gas = result_gas r := by
  cases r with
  | error e =>
    cases h
    rfl
  | ok r =>
    simp only [into_contract_create_result] at h
    split at h
    · split at h <;> cases h
      rfl
    · cases h
      rfl

namespace Interpreter

variable {c : CostType} {i i' : Interpreter c}

theorem unused_gas_of_lt {gas_left : U256} (h : gas_left.toNat < 2 ^ c.bits) :
    (unused_gas gas_left : Except Panic (InstructionResult c)) =
      .ok (.UnusedGas (BitVec.ofNat c.bits gas_left.toNat)) := by
  simp only [unused_gas, Cost.from_u256_of_lt h]

theorem toNat_of_unused_gas {gas_left : U256} {result : InstructionResult c}
    (h : unused_gas gas_left = .ok result) :
    ∃ gas, result = .UnusedGas gas ∧ gas.toNat = gas_left.toNat := by
  unfold unused_gas at h
  split at h
  · cases h
    exact ⟨_, rfl, Cost.toNat_of_from_u256 ‹_›⟩
  · cases h

/-- The interpreter has taken `gas` back, and keeps its own. -/
def TookBack (i : Interpreter c) (gas : Nat) (i' : Interpreter c) : Prop :=
  i'.gas = i.gas ∧ i'.Resumable ∧ i'.pending = gas

theorem tookBack_unused {gas_left : U256} {result : InstructionResult c}
    (h : unused_gas gas_left = .ok result) (hm : i'.gasometer = i.gasometer)
    (hr : i'.resume_result = some result) : TookBack i gas_left.toNat i' := by
  obtain ⟨gas, rfl, hgas⟩ := toNat_of_unused_gas h
  refine ⟨?_, .inr (.inr ⟨gas, hr⟩), ?_⟩
  · simp only [Interpreter.gas, hm]
  · simpa only [pending, hr] using hgas

theorem tookBack_returned {out : U256 × U256} {flag gas_left : U256} {data : ReturnData}
    (h : i.returned out flag gas_left data = .ok i') : TookBack i gas_left.toNat i' := by
  unfold returned at h
  split at h
  · cases h
  · split at h
    · cases h
    · rcases hu : (unused_gas gas_left : Except Panic (InstructionResult c)) with p | result <;>
        rw [hu] at h <;> cases h
      exact tookBack_unused hu rfl rfl

theorem tookBack_resume_call {result : MessageCallResult} (h : i.resume_call result = .ok i') :
    TookBack i result.gas i' := by
  unfold resume_call at h
  split at h
  · cases h
  · cases result with
    | Success gas_left data => exact tookBack_returned h
    | Reverted gas_left data => exact tookBack_returned h
    | Failed err =>
      cases h
      exact ⟨rfl, .inr (.inl rfl), rfl⟩

theorem tookBack_resume_create {result : ContractCreateResult}
    (h : i.resume_create result = .ok i') : TookBack i result.gas i' := by
  cases result with
  | Failed err =>
    cases h
    exact ⟨rfl, .inr (.inl rfl), rfl⟩
  | Created address gas_left =>
    simp only [resume_create] at h
    rcases hu : (unused_gas gas_left : Except Panic (InstructionResult c)) with p | result <;>
      rw [hu] at h <;> cases h
    exact tookBack_unused hu rfl rfl
  | Reverted gas_left data =>
    simp only [resume_create] at h
    rcases hu : (unused_gas gas_left : Except Panic (InstructionResult c)) with p | result <;>
      rw [hu] at h <;> cases h
    exact tookBack_unused hu rfl rfl

/-- The gas that comes back can be counted, if it is less than the type can hold. -/
theorem resume_call_fits {result : MessageCallResult} (h : result.gas < 2 ^ c.bits) :
    i.resume_call result ≠ .error .gas_left_cannot_be_greater := by
  have hreturned : ∀ out flag gas_left data, gas_left.toNat < 2 ^ c.bits →
      i.returned out flag gas_left data ≠ .error .gas_left_cannot_be_greater := by
    intro out flag gas_left data hlt hpanic
    unfold returned at hpanic
    split at hpanic
    · cases hpanic
    · split at hpanic
      · cases hpanic
      · rw [unused_gas_of_lt hlt] at hpanic
        cases hpanic
  intro hpanic
  unfold resume_call at hpanic
  split at hpanic
  · cases hpanic
  · cases result with
    | Success gas_left data => exact hreturned _ _ _ _ h hpanic
    | Reverted gas_left data => exact hreturned _ _ _ _ h hpanic
    | Failed err => cases hpanic

theorem resume_create_fits {result : ContractCreateResult} (h : result.gas < 2 ^ c.bits) :
    i.resume_create result ≠ .error .gas_left_cannot_be_greater := by
  intro hpanic
  cases result with
  | Failed err => cases hpanic
  | Created address gas_left =>
    rw [resume_create, unused_gas_of_lt h] at hpanic
    cases hpanic
  | Reverted gas_left data =>
    rw [resume_create, unused_gas_of_lt h] at hpanic
    cases hpanic

end Interpreter

/-- The cross-space contract takes the gas back that its call left. -/
theorem resume_call_pass {r : Resume} {result : MessageCallResult} {pass : PassResult}
    (h : r.resume_call result = .ok pass) : pass.resume = r ∧ pass.gas_left.toNat = result.gas := by
  cases result with
  | Success gas_left data =>
    simp only [Resume.resume_call, Resume.pass_output] at h
    split at h
    · rename_i bytes _
      rcases hx : (abi_encode bytes : Except Panic Bytes) with p | out <;> rw [hx] at h <;> cases h
      exact ⟨rfl, rfl⟩
    · cases h
  | Failed err =>
    cases h
    exact ⟨rfl, rfl⟩
  | Reverted gas_left data =>
    cases h
    exact ⟨rfl, rfl⟩

theorem resume_create_pass {r : Resume} {result : ContractCreateResult} {pass : PassResult}
    (h : r.resume_create result = .ok pass) :
    pass.resume = r ∧ pass.gas_left.toNat = result.gas := by
  cases result with
  | Created address gas_left =>
    simp only [Resume.resume_create, Resume.pass_output] at h
    rcases hx : (abi_encode address.to_fixed_bytes : Except Panic Bytes) with p | out <;>
      rw [hx] at h <;> cases h
    exact ⟨rfl, rfl⟩
  | Failed err =>
    cases h
    exact ⟨rfl, rfl⟩
  | Reverted gas_left data =>
    cases h
    exact ⟨rfl, rfl⟩

theorem write_down_panic {α : Type} [ABIVariable α] {w : Abi.ABIListWriter} {x : α} {bytes : Bytes}
    {p : Panic} (hx : ABIVariable.to_abi x = .ok bytes) (h : w.write_down x = .error p) :
    p = .abi_heads_length := by
  simp only [Abi.ABIListWriter.write_down, hx, bind, Except.bind] at h
  split at h
  · split at h <;> cases h
    rfl
  · cases h

/-- Encoding a single value panics only when the lengths do not match. -/
theorem abi_encode_panic {α : Type} [ABIVariable α] {x : α} {bytes : Bytes} {p : Panic}
    (hx : ABIVariable.to_abi x = .ok bytes) (h : abi_encode x = .error p) :
    p = .abi_heads_length := by
  simp only [abi_encode, bind, Except.bind] at h
  split at h
  · cases h
    exact write_down_panic hx ‹_›
  · unfold Abi.ABIListWriter.into_linked_bytes at h
    split at h <;> cases h
    rfl

namespace Suspended

variable {self : Suspended} {exec : Exec}

/-- What an object holds that has taken `gas` back. -/
def TookBack (self : Suspended) (gas : Nat) (exec : Exec) : Prop :=
  exec.gas = self.gas + gas ∧ exec.Fits ∧ exec.rank ≤ 3

theorem tookBack_interpreter {c : CostType} {i i' : CfxEvm.Interpreter c} {gas : Nat}
    (h : i.TookBack gas i') (hfit : i.gas + gas < 2 ^ c.bits) :
    TookBack (.Interpreter c i) gas (.Interpreter c i') := by
  obtain ⟨hgas, hres, hpending⟩ := h
  refine ⟨?_, ⟨hres, by omega⟩, ?_⟩
  · simp only [Exec.gas, Suspended.gas, hgas, hpending]
  · simp only [Exec.rank]
    split <;> omega

theorem tookBack_pass {r : CfxEvm.Resume} {pass : PassResult} {gas : Nat}
    (h : pass.resume = r ∧ pass.gas_left.toNat = gas)
    (hfit : r.gas_retained.toNat + gas < 2 ^ 256) :
    TookBack (.Resume r) gas (.PassResult pass) := by
  obtain ⟨rfl, rfl⟩ := h
  refine ⟨Nat.add_comm _ _, ?_, Nat.le_succ 2⟩
  simp only [Exec.Fits]
  omega

theorem tookBack_resume_call {result : MessageCallResult} (h : self.resume_call result = .ok exec)
    (hfit : self.gas + result.gas < self.capacity) : self.TookBack result.gas exec := by
  cases self with
  | Interpreter c i =>
    simp only [resume_call] at h
    rcases hr : i.resume_call result with p | i' <;> rw [hr] at h <;> cases h
    exact tookBack_interpreter (Interpreter.tookBack_resume_call hr) hfit
  | Resume r =>
    simp only [resume_call] at h
    rcases hr : r.resume_call result with p | pass <;> rw [hr] at h <;> cases h
    exact tookBack_pass (resume_call_pass hr) hfit

theorem tookBack_resume_create {result : ContractCreateResult}
    (h : self.resume_create result = .ok exec) (hfit : self.gas + result.gas < self.capacity) :
    self.TookBack result.gas exec := by
  cases self with
  | Interpreter c i =>
    simp only [resume_create] at h
    rcases hr : i.resume_create result with p | i' <;> rw [hr] at h <;> cases h
    exact tookBack_interpreter (Interpreter.tookBack_resume_create hr) hfit
  | Resume r =>
    simp only [resume_create] at h
    rcases hr : r.resume_create result with p | pass <;> rw [hr] at h <;> cases h
    exact tookBack_pass (resume_create_pass hr) hfit

theorem resume_call_fits {result : MessageCallResult}
    (hfit : self.gas + result.gas < self.capacity) :
    self.resume_call result ≠ .error .gas_left_cannot_be_greater := by
  intro hpanic
  cases self with
  | Interpreter c i =>
    have hlt : result.gas < 2 ^ c.bits := by
      simp only [Suspended.capacity] at hfit
      omega
    simp only [resume_call] at hpanic
    rcases hr : i.resume_call result with p | i' <;> rw [hr] at hpanic <;> cases hpanic
    exact Interpreter.resume_call_fits hlt hr
  | Resume r =>
    simp only [resume_call] at hpanic
    rcases hr : r.resume_call result with p | i' <;> rw [hr] at hpanic <;> cases hpanic
    cases result with
    | Success gas_left data =>
      simp only [Resume.resume_call, Resume.pass_output] at hr
      split at hr
      · rename_i bytes _
        rcases hx : (abi_encode bytes : Except Panic Bytes) with p | out <;> rw [hx] at hr <;>
          cases hr
        exact absurd (abi_encode_panic rfl hx) (by decide)
      · cases hr
    | Failed err => cases hr
    | Reverted gas_left data => cases hr

theorem resume_create_fits {result : ContractCreateResult}
    (hfit : self.gas + result.gas < self.capacity) :
    self.resume_create result ≠ .error .gas_left_cannot_be_greater := by
  intro hpanic
  cases self with
  | Interpreter c i =>
    have hlt : result.gas < 2 ^ c.bits := by
      simp only [Suspended.capacity] at hfit
      omega
    simp only [resume_create] at hpanic
    rcases hr : i.resume_create result with p | i' <;> rw [hr] at hpanic <;> cases hpanic
    exact Interpreter.resume_create_fits hlt hr
  | Resume r =>
    simp only [resume_create] at hpanic
    rcases hr : r.resume_create result with p | i' <;> rw [hr] at hpanic <;> cases hpanic
    cases result with
    | Created address gas_left =>
      simp only [Resume.resume_create, Resume.pass_output] at hr
      rcases hx : (abi_encode address.to_fixed_bytes : Except Panic Bytes) with p | out <;>
        rw [hx] at hr <;> cases hr
      exact absurd (abi_encode_panic rfl hx) (by decide)
    | Failed err => cases hr
    | Reverted gas_left data => cases hr

end Suspended

/-- A frame that takes up a result has its own gas and what came back. -/
theorem resume_object_gas {status : FrameStatus} {r : Except VmError FrameReturn} {exec : Exec}
    (h : CallCreateFrame.resume_object status r = .ok exec) (hfit : status.Fits (result_gas r)) :
    exec.gas = status.gas + result_gas r ∧ exec.Fits ∧ exec.rank ≤ 3 := by
  cases status with
  | ResumeCall resume =>
    have hgas := into_message_call_result_gas r
    exact hgas ▸ resume.tookBack_resume_call h (hgas ▸ hfit)
  | ResumeCreate resume =>
    rcases hc : into_contract_create_result r with p | result <;>
      simp only [CallCreateFrame.resume_object, hc] at h
    · cases h
    · have hgas := into_contract_create_result_gas hc
      exact hgas ▸ resume.tookBack_resume_create h (hgas ▸ hfit)
  | Input params => cases h
  | Running => cases h
  | Done => cases h

/-- The gas that is handed back can be counted. -/
theorem resume_fits {parent : CallCreateFrame} {r : Except VmError FrameReturn}
    (hfit : parent.status.Fits (result_gas r)) :
    parent.resume r ≠ .error .gas_left_cannot_be_greater := by
  intro hpanic
  have hobj : CallCreateFrame.resume_object parent.status r =
      .error .gas_left_cannot_be_greater := by
    unfold CallCreateFrame.resume at hpanic
    rcases hx : CallCreateFrame.resume_object parent.status r with p | exec <;>
      rw [hx] at hpanic <;> cases hpanic
    rfl
  unfold CallCreateFrame.resume_object at hobj
  split at hobj
  · rename_i resume hstatus
    rw [hstatus] at hfit
    rcases hc : into_contract_create_result r with p | result <;> rw [hc] at hobj
    · unfold into_contract_create_result at hc
      split at hc
      · split at hc
        · split at hc <;> cases hc
          cases hobj
        · cases hc
      · cases hc
    · refine resume.resume_create_fits ?_ hobj
      rw [into_contract_create_result_gas hc]
      exact hfit
  · rename_i resume hstatus
    rw [hstatus] at hfit
    refine resume.resume_call_fits ?_ hobj
    rw [into_message_call_result_gas]
    exact hfit
  · cases hobj

/-! ## Rounds -/

/-- How many rounds a phase can go through at most before gas is used or a frame ends. -/
def Phase.rank : Phase → Nat
  | Enter _ => 3
  | Execute _ exec => exec.rank
  | LastRes (.Return _) => 1
  | LastRes (.SubCallCreate _ _) => 7

namespace FrameStack

/-- What every round makes smaller. -/
def measure (s : FrameStack) : Nat := 6 * s.gas + 3 * s.frame_stack.length + s.phase.rank

/-- The gas that a round costs at least: the base price of a call or creation, and the price of an
    instruction. -/
def round_cost (spec : Spec) (s s' : FrameStack) : Nat :=
  match s.phase, s'.phase with
  | .Execute _ exec, .Execute _ _ => exec.cost
  | .Execute _ _, .LastRes (.SubCallCreate kind _) => kind.base_price spec
  | _, _ => 0

variable [Keccak] [HashOrder] {g : Globals} {s s' : FrameStack}

/-- The round adds no gas, costs what it has to, and leaves gas that can be counted. -/
structure GasStep (spec : Spec) (s s' : FrameStack) : Prop where
  fits : s'.GasFits
  gas_le : s'.gas + round_cost spec s s' ≤ s.gas
  measure_lt : s'.measure < s.measure

theorem gasStep_enter (hfits : s.GasFits) {frame frame' : CallCreateFrame} {exec : Exec}
    {h : Host State} (hphase : s.phase = .Enter frame)
    (hrun : (frame.exec g).run (s.activate frame.substate).host = .ok (.ok (frame', exec), h)) :
    GasStep g.spec s { s with host := h, phase := .Execute frame' exec } := by
  obtain ⟨params, h₁, hbegins⟩ := frame_exec_inv hrun
  have hstatus := hbegins.status
  have hobj := hbegins.object
  obtain rfl := hbegins.frame_eq
  obtain ⟨hgas, hfit, hrank⟩ := exec_object_gas hobj
  have hbefore : frame.status.gas = exec.gas := by simp only [hstatus, FrameStatus.gas, hgas]
  have hwaiting := hfits.2
  simp only [hphase, Phase.gas, hbefore] at hwaiting
  refine ⟨⟨hfit, hwaiting⟩, ?_, ?_⟩
  · simp only [round_cost, hphase, gas, Phase.gas, hbefore, Nat.add_zero, Nat.le_refl]
  · simp only [measure, gas, hphase, Phase.gas, Phase.rank, hbefore, hrank]
    omega

omit [HashOrder] in
/-- Only an interpreter goes on; taking up a result costs nothing, but then there is none any
    more. -/
theorem cost_of_continue {exec exec' : Exec} {ctx : FrameContext} {h h' : Host State}
    (hrun : (exec.step g ctx).run h = .ok (.ok (.Continue exec'), h')) :
    exec.cost = 1 ∧ exec.rank = 2 ∨ exec.rank = 3 := by
  cases exec with
  | Interpreter c i =>
    simp only [Exec.cost, Exec.rank, Interpreter.step_cost]
    cases i.resume_result <;> simp
  | NoopExec gas => cases hrun
  | BuiltinExec builtin params => cases hrun
  | InternalContractExec internal params =>
    obtain ⟨_, _, _, hpure⟩ := run_bind_eq_ok.mp hrun
    cases hpure
  | PassResult pass =>
    obtain ⟨_, _, _, hpure⟩ := run_bind_eq_ok.mp hrun
    cases hpure

omit [HashOrder] in
theorem gasStep_go_on (hspec : g.spec.GenesisConstants) (hfits : s.GasFits)
    {frame : CallCreateFrame} {exec exec' : Exec} {h : Host State}
    (hphase : s.phase = .Execute frame exec)
    (hrun : (exec.step g frame.context).run s.host = .ok (.ok (.Continue exec'), h)) :
    GasStep g.spec s { s with host := h, phase := .Execute frame exec' } := by
  obtain ⟨hexec, hwaiting⟩ := hfits
  rw [hphase] at hexec hwaiting
  obtain ⟨hle, hfit, hrank⟩ := (exec_step_gas hspec hexec).of_run hrun
  refine ⟨⟨hfit, hwaiting.mono (show exec'.gas ≤ exec.gas by omega)⟩, ?_, ?_⟩
  · simp only [round_cost, hphase, gas, Phase.gas]
    omega
  · simp only [measure, gas, hphase, Phase.gas, Phase.rank, hrank]
    rcases cost_of_continue hrun with ⟨hcost, hrank₀⟩ | hrank₀ <;> omega

theorem gasStep_returns (hspec : g.spec.GenesisConstants) (hfits : s.GasFits)
    {frame : CallCreateFrame} {exec : Exec} {result : Except VmError GasLeft}
    {r : Except VmError FrameReturn} {h₁ h : Host State} (hphase : s.phase = .Execute frame exec)
    (hrun : (exec.step g frame.context).run s.host = .ok (.ok (.Output (.Return result)), h₁))
    (hret : (frame.process_return g result).run h₁ = .ok (.ok r, h)) :
    GasStep g.spec s { s with host := h, phase := .LastRes (.Return r) } := by
  obtain ⟨hexec, hwaiting⟩ := hfits
  rw [hphase] at hexec hwaiting
  have hle := process_return_gas ((exec_step_gas hspec hexec).of_run hrun) hret
  have hrank : 2 ≤ exec.rank := by
    cases exec with
    | Interpreter c i =>
      simp only [Exec.rank]
      split <;> omega
    | _ => exact Nat.le_refl 2
  refine ⟨⟨trivial, hwaiting.mono hle⟩, ?_, ?_⟩
  · simp only [round_cost, hphase, gas, Phase.gas]
    omega
  · simp only [measure, gas, hphase, Phase.gas, Phase.rank]
    omega

section
omit [HashOrder]

omit [Keccak] in
theorem two_le_base_price (hspec : g.spec.GenesisConstants) (kind : TrapKind) :
    2 ≤ kind.base_price g.spec := by
  have hcall : g.spec.call_gas = 700 := congrArg Spec.call_gas hspec
  have hcreate : g.spec.create_gas = 32000 := congrArg Spec.create_gas hspec
  cases kind <;> simp only [TrapKind.base_price] <;> omega

theorem gasStep_traps (hspec : g.spec.GenesisConstants) (hfits : s.GasFits)
    {frame : CallCreateFrame} {exec : Exec} {kind : TrapKind} {resume : Suspended}
    {h : Host State} (hphase : s.phase = .Execute frame exec)
    (hrun : (exec.step g frame.context).run s.host =
      .ok (.ok (.Output (.SubCallCreate kind resume)), h)) :
    GasStep g.spec s { s with
      host := h
      phase := .LastRes (.SubCallCreate kind (frame.process_trap kind resume h.substate)) } := by
  obtain ⟨hexec, hwaiting⟩ := hfits
  rw [hphase] at hexec hwaiting
  obtain ⟨hle, hfit⟩ := (exec_step_gas hspec hexec).of_run hrun
  have hgas : (frame.process_trap kind resume h.substate).status.gas = resume.gas := by
    cases kind <;> rfl
  have hcap : (frame.process_trap kind resume h.substate).status.Fits kind.params.gas.toNat := by
    cases kind <;> exact hfit
  have hprice := two_le_base_price hspec kind
  refine ⟨⟨hcap, hwaiting.mono ?_⟩, ?_, ?_⟩
  · simp only [Phase.gas, hgas]
    omega
  · simp only [round_cost, hphase, gas, Phase.gas, hgas]
    omega
  · simp only [measure, gas, hphase, Phase.gas, Phase.rank, hgas]
    omega

omit [Keccak] in
theorem gasStep_calls (hfits : s.GasFits) {kind : TrapKind} {caller : CallCreateFrame}
    (hphase : s.phase = .LastRes (.SubCallCreate kind caller)) :
    GasStep g.spec s (s.trap g kind caller) := by
  obtain ⟨hcaller, hwaiting⟩ := hfits
  rw [hphase] at hcaller hwaiting
  have hstatus : (CallCreateFrame.from_trap_error g kind caller).status.gas =
      kind.params.gas.toNat := by
    cases kind <;> rfl
  refine ⟨⟨trivial, ?_, ?_⟩, ?_, ?_⟩
  · simpa only [trap, Phase.gas, Phase.Fits, hstatus] using hcaller
  · simpa only [trap, Phase.gas, hstatus] using hwaiting
  · simp only [round_cost, hphase, gas, trap, Phase.gas, hstatus, List.map_cons, List.sum_cons]
    omega
  · simp only [measure, gas, trap, hphase, Phase.gas, Phase.rank, hstatus, List.map_cons,
      List.sum_cons, List.length_cons]
    omega

omit [Keccak] in
theorem gasStep_resumes (hfits : s.GasFits) {r : Except VmError FrameReturn}
    {parent parent' : CallCreateFrame} {rest : List CallCreateFrame} {exec : Exec}
    (hphase : s.phase = .LastRes (.Return r)) (hstack : s.frame_stack = parent :: rest)
    (hresume : parent.resume r = .ok (parent', exec)) :
    GasStep g.spec s { s.activate parent'.substate with
      frame_stack := rest, phase := .Execute parent' exec } := by
  have hwaiting := hfits.2
  rw [hstack, hphase] at hwaiting
  obtain ⟨hgas, hfit, hrank⟩ := resume_object_gas (resume_inv hresume).1 hwaiting.1
  have hbefore : s.gas = result_gas r + parent.status.gas +
      (rest.map fun f => f.status.gas).sum := by
    simp only [gas, hphase, hstack, Phase.gas, List.map_cons, List.sum_cons]
    omega
  have hle : exec.gas ≤ (Phase.LastRes (.Return r)).gas + parent.status.gas := by
    simp only [Phase.gas]
    omega
  refine ⟨⟨hfit, hwaiting.2.mono hle⟩, ?_, ?_⟩
  · rw [hbefore]
    simp only [round_cost, hphase, gas, Phase.gas, hgas]
    omega
  · simp only [measure, hbefore, hstack, hphase, Phase.rank, List.length_cons]
    simp only [gas, Phase.gas, hgas]
    omega

end

theorem gasStep_of_round (hspec : g.spec.GenesisConstants) (hfits : s.GasFits)
    (hround : Round g s s') : GasStep g.spec s s' := by
  cases hround with
  | enter hphase hrun => exact gasStep_enter hfits hphase hrun
  | go_on hphase hrun => exact gasStep_go_on hspec hfits hphase hrun
  | returns hphase hrun hret => exact gasStep_returns hspec hfits hphase hrun hret
  | traps hphase hrun => exact gasStep_traps hspec hfits hphase hrun
  | calls hphase => exact gasStep_calls hfits hphase
  | resumes hphase hstack hresume => exact gasStep_resumes hfits hphase hstack hresume

/-- At the beginning of a transaction no frame is waiting. -/
theorem gasFits_initial (h : Initial g s) : s.GasFits := by
  cases h <;> exact ⟨trivial, trivial⟩

theorem gasFits_of_reachable (hspec : g.spec.GenesisConstants) (h : Reachable g s) : s.GasFits := by
  obtain ⟨s₀, hinit, hrun⟩ := h
  exact Rounds.invariant
    (fun s s' hs hnext => (gasStep_of_round hspec hs (round_of_next hnext)).fits)
    (gasFits_initial hinit) hrun

/-! ## Runs of one frame -/

/-- While a frame runs, the frames below it stay where they are. -/
theorem inside_frame_stack {base T : List CallCreateFrame} (hstack : s.frame_stack = T ++ base)
    (hrun : Inside g base.length s s') : ∃ T', s'.frame_stack = T' ++ base := by
  induction hrun with
  | refl => exact ⟨T, hstack⟩
  | tail _ hnext ih =>
    obtain ⟨T', hT'⟩ := ih
    cases round_of_next hnext.2 with
    | enter hphase hrun => exact ⟨T', hT'⟩
    | go_on hphase hrun => exact ⟨T', hT'⟩
    | returns hphase hrun hret => exact ⟨T', hT'⟩
    | traps hphase hrun => exact ⟨T', hT'⟩
    | @calls kind caller hphase => exact ⟨caller :: T', congrArg (caller :: ·) hT'⟩
    | @resumes r parent parent' rest exec hphase hparent hresume =>
      cases T' with
      | nil => exact absurd ⟨by rw [hT', List.nil_append], r, hphase⟩ hnext.1
      | cons f T' =>
        rw [hT'] at hparent
        exact ⟨T', (List.cons.inj hparent).2.symm⟩

/-- When a frame has its result, the frames that wait are the same as at its beginning. -/
theorem FrameRun.frame_stack {r : Except VmError FrameReturn} (h : FrameRun g s r s') :
    s'.frame_stack = s.frame_stack := by
  obtain ⟨T, hT⟩ := inside_frame_stack (s := s) (T := []) rfl h.1
  have hlen : (T ++ s.frame_stack).length = s.frame_stack.length := hT ▸ h.2.1
  have hnil : T = [] := by
    rw [List.length_append] at hlen
    exact List.length_eq_zero_iff.mp (by omega)
  rw [hT, hnil, List.nil_append]

/-- Any number of rounds adds no gas. -/
theorem gas_le_of_rounds (hspec : g.spec.GenesisConstants) (hfits : s.GasFits)
    (hrun : Rounds (step g) s s') : s'.GasFits ∧ s'.gas ≤ s.gas := by
  induction hrun with
  | refl => exact ⟨hfits, Nat.le_refl _⟩
  | tail _ hnext ih =>
    have hstep := gasStep_of_round hspec ih.1 (round_of_next hnext)
    exact ⟨hstep.fits, (Nat.le_add_right _ _).trans (hstep.gas_le.trans ih.2)⟩

/-- A frame hands back at most what it was given. -/
theorem FrameRun.gas_le (hspec : g.spec.GenesisConstants) (hfits : s.GasFits)
    {r : Except VmError FrameReturn} (h : FrameRun g s r s') : result_gas r ≤ s.phase.gas := by
  have hrounds : Rounds (step g) s s' := Relation.ReflTransGen.mono (fun _ _ h => h.2) _ _ h.1
  have hle := (gas_le_of_rounds hspec hfits hrounds).2
  have hresult : s'.phase.gas = result_gas r := by rw [h.2.2, Phase.gas]
  simp only [gas, h.frame_stack, hresult] at hle
  omega

/-- The interpreter that traps waits in the frame of the caller, with all that had come back to it
    taken up. -/
theorem interpreter_caller (hspec : g.spec.GenesisConstants) (hfits : s.GasFits)
    {frame caller : CallCreateFrame} {c : CostType} {i : Interpreter c} {kind : TrapKind}
    (hphase : s.phase = .Execute frame (.Interpreter c i)) (hnext : Next (step g) s s')
    (hphase' : s'.phase = .LastRes (.SubCallCreate kind caller)) :
    ∃ i' : Interpreter c, (caller.status = .ResumeCall (.Interpreter c i') ∨
      caller.status = .ResumeCreate (.Interpreter c i')) ∧ i.pending = 0 := by
  have hexec := hfits.1
  rw [hphase] at hexec
  cases round_of_next hnext with
  | enter h => exact absurd (hphase.symm.trans h) (by simp)
  | go_on h => cases hphase'
  | returns h => cases hphase'
  | traps h hrun =>
    cases hphase.symm.trans h
    cases hphase'
    obtain ⟨hpending, i', rfl⟩ := (interpreter_step_trap hspec hexec.1).of_run hrun _ _ rfl
    refine ⟨i', ?_, hpending⟩
    cases kind with
    | Call params => exact .inl rfl
    | Create params => exact .inr rfl
  | calls h => exact absurd (hphase.symm.trans h) (by simp)
  | resumes h => exact absurd (hphase.symm.trans h) (by simp)

end FrameStack

/-- Gas that is not used can be added to what is there; a call or creation that does not take place
    still costs something. -/
theorem unused_gas_fits [Keccak] {g : Globals} (hspec : g.spec.GenesisConstants)
    {ctx : FrameContext} {c : CostType} {i : Interpreter c} (hfits : (Exec.Interpreter c i).Fits)
    {m₀ : Gasometer c} (hm₀ : i.gasometer = some m₀) {h : Host State} {gas : Cost c}
    {p : Interpreter c × Host State}
    (hrun : (Interpreter.next_result g ctx).run (i, h) = .ok (.ok (.UnusedGas gas), p)) :
    ∃ m sum, p.1.gasometer = some m ∧ Cost.checked_add m.current_gas gas = some sum ∧
      (i.resume_result = none → m.current_gas.toNat + gas.toNat < i.gas) := by
  obtain ⟨m, hm, -, hres⟩ :=
    wp_of_run (Interpreter.next_result_gas hspec hm₀ hfits.1 h) hrun _ rfl
  have hlt : i.gas + i.pending < 2 ^ c.bits := hfits.2
  have hle : m.current_gas.toNat + gas.toNat + i.step_cost ≤ i.gas + i.pending := hres
  refine ⟨m, _, hm, Cost.checked_add_of_lt (by omega), fun hi => ?_⟩
  have hcost : i.step_cost = 1 := by simp [Interpreter.step_cost, hi]
  have hpending : i.pending = 0 := by simp only [Interpreter.pending, hi]
  omega

end CfxEvm
