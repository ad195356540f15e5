import CfxEvm.Evm.Proofs.PanicProofs
import CfxEvm.Frame.Proofs.AskedProofs

/-!
# Proofs: operands that are passed to the host

An instruction may pass an operand of its stack to the host, whatever word it is. The host answers
all of them but one: the number of a block whose successor is no word.
-/

open Lib Lib.Prog

namespace CfxEvm

section
variable [Keccak] (g : Globals) (ctx : FrameContext)

/-- What an instruction asks the context about an operand: about a block, an account, a slot, or the
    target of a call. -/
def hostQuery (instruction : Instruction) (operand : U256) : HostM Unit :=
  match instruction with
  | .BLOCKHASH => do
    let _ ← Context.blockhash g operand
  | .BALANCE => do
    let _ ← Context.balance (u256_to_address operand)
  | .EXTCODESIZE => do
    let _ ← Context.extcodesize g (u256_to_address operand)
  | .EXTCODEHASH => do
    let _ ← Context.extcodehash g (u256_to_address operand)
  | .EXTCODECOPY => do
    let _ ← Context.extcode g (u256_to_address operand)
  | .SLOAD => do
    let _ ← Context.storage_at ctx operand.to_big_endian
  | .CALL | .CALLCODE | .DELEGATECALL | .STATICCALL => do
    let _ ← Context.exists (u256_to_address operand)
    let _ ← Context.exists_and_not_null (u256_to_address operand)
    let _ ← Context.extcode g (u256_to_address operand)
    let _ ← Context.extcodehash g (u256_to_address operand)
  | _ => return ()

/-- Where an instruction has the operand that it passes to the host on the stack. -/
def Instruction.query_place : Instruction → Option Nat
  | .BLOCKHASH | .BALANCE | .EXTCODESIZE | .EXTCODEHASH | .EXTCODECOPY | .SLOAD => some 0
  | .CALL | .CALLCODE | .DELEGATECALL | .STATICCALL => some 1
  | _ => none

/-- The height that the hash of the previous block belongs to. -/
def currentHeight : UInt64 := if g.spec.cip98 then g.env.epoch_height else g.env.number

/-- The query completes; the hash of a block is the last one for the number before the current
    height, and zero for every other number. -/
structure QueryCompletes (instruction : Instruction) (operand : U256) (h : Host State) : Prop where
  completes : ∃ r h', (hostQuery g ctx instruction operand).run h = .ok (r, h')
  blockhash : instruction = .BLOCKHASH → (Context.blockhash g operand).value h = .ok (.ok
    (if operand.toNat + 1 = (currentHeight g).toNat then g.env.last_hash else 0))

end

section
variable {g : Globals} {ctx : FrameContext} {db : StateDb} {saved : List Ledger}
  {w : Ledger} {h : Host State}

/-- A query whose answer is not used. -/
theorem wp_asked {α β : Type} {x : HostM α} {f : α → HostM β} {I : Host State → Prop}
    (hx : wp x (fun _ => False) (fun _ => I) h)
    (hf : ∀ a h', I h' → wp (f a) (fun _ => False) (fun _ => I) h') :
    wp (x >>= f) (fun _ => False) (fun _ => I) h := by
  refine wp_bind.mpr (wp_post hx ?_)
  rintro (e | a) h' hI
  · exact hI
  · exact hf a h' hI

variable [Keccak]

theorem extcode_completes (a : Address) (hrep : Rep db saved h.state w) :
    wp (Context.extcode g a) (fun _ => False) (fun _ h' => Rep db saved h'.state w) h := by
  unfold Context.extcode
  rcases g.machine.contract a g.spec with _ | internal
  · refine wp_mapErr.mpr (wp_inState (code_refines a) hrep (wp_post (Ledger.code_spec a w) ?_))
    rintro r _ ⟨rfl, -⟩ s' hrep'
    exact hrep'
  · exact hrep

theorem extcodehash_completes (a : Address) (hrep : Rep db saved h.state w) :
    wp (Context.extcodehash g a) (fun _ => False) (fun _ h' => Rep db saved h'.state w) h := by
  unfold Context.extcodehash
  rcases g.machine.contract a g.spec with _ | internal
  · exact wp_onState_gets (code_hash_refines a) hrep
  · exact hrep

theorem extcodesize_completes (a : Address) (hrep : Rep db saved h.state w) :
    wp (Context.extcodesize g a) (fun _ => False) (fun _ h' => Rep db saved h'.state w) h := by
  unfold Context.extcodesize
  rcases g.machine.contract a g.spec with _ | internal
  · refine wp_mapErr.mpr (wp_inState (code_size_refines a) hrep ?_)
    refine wp_bind.mpr (wp_bind.mpr (wp_gets.mpr ?_))
    rcases w.accounts a with _ | u
    · exact fun _ hrep' => hrep'
    · exact wp_ite (fun _ => fun _ hrep' => hrep') fun _ => fun _ hrep' => hrep'
  · exact hrep

omit [Keccak] in
/-- The successor of a number is compared with the current height. -/
theorem blockhash_spec (number : U256) :
    wp (Context.blockhash g number) (fun _ => number.toNat = 2 ^ 256 - 1) (fun r h' => h' = h ∧
      number.toNat + 1 < 2 ^ 256 ∧ r = .ok
        (if number.toNat + 1 = (currentHeight g).toNat then g.env.last_hash else 0)) h := by
  have hone : (1 : U256).toNat = 1 := rfl
  refine wp_bind.mpr (wp_expect (fun hnone => ?_) fun next hnext => ?_)
  · have hover := U256.checked_add_eq_none.mp hnone
    have hlt := number.isLt
    omega
  · have hvalue := U256.checked_add_eq_some.mp hnext
    have hlt := next.isLt
    refine ⟨rfl, by omega, ?_⟩
    have hheight : (BitVec.ofNat 256 (currentHeight g).toNat).toNat = (currentHeight g).toNat := by
      have hsmall := (currentHeight g).toNat_lt
      rw [BitVec.toNat_ofNat]
      exact Nat.mod_eq_of_lt (hsmall.trans (by decide))
    have hiff : BitVec.ofNat 256 (currentHeight g).toNat = next ↔
        number.toNat + 1 = (currentHeight g).toNat := by
      rw [← BitVec.toNat_inj, hheight, hvalue, hone]
      exact eq_comm
    show _ = Except.ok (if _ then _ else _)
    exact congrArg Except.ok (if_congr hiff rfl rfl)

/-- Every other query is answered from the ledger. -/
theorem hostQuery_completes {instruction : Instruction} (hblock : instruction ≠ .BLOCKHASH)
    (operand : U256) (hrep : Rep db saved h.state w) :
    wp (hostQuery g ctx instruction operand) (fun _ => False)
      (fun _ h' => Rep db saved h'.state w) h := by
  have hpure : ∀ h' : Host State, Rep db saved h'.state w →
      wp (pure () : HostM Unit) (fun _ => False) (fun _ h' => Rep db saved h'.state w) h' :=
    fun _ hrep' => hrep'
  have hcall : wp (hostQuery g ctx .CALL operand) (fun _ => False)
      (fun _ h' => Rep db saved h'.state w) h :=
    wp_asked (wp_onState_gets (exists_refines _) hrep) fun _ _ hrep₁ =>
      wp_asked (wp_onState_gets (exists_and_not_null_refines _) hrep₁) fun _ _ hrep₂ =>
      wp_asked (extcode_completes _ hrep₂) fun _ _ hrep₃ =>
      wp_asked (extcodehash_completes _ hrep₃) fun _ => hpure
  cases instruction
  case BLOCKHASH => exact absurd rfl hblock
  case BALANCE => exact wp_asked (wp_onState_gets (balance_refines _) hrep) fun _ => hpure
  case EXTCODESIZE => exact wp_asked (extcodesize_completes _ hrep) fun _ => hpure
  case EXTCODEHASH => exact wp_asked (extcodehash_completes _ hrep) fun _ => hpure
  case EXTCODECOPY => exact wp_asked (extcode_completes _ hrep) fun _ => hpure
  case SLOAD => exact wp_asked (wp_onState_gets (storage_at_refines _ _) hrep) fun _ => hpure
  case CALL | CALLCODE | DELEGATECALL | STATICCALL => exact hcall
  -- the others do not ask
  all_goals exact hrep

/-! ## The instructions that ask -/

omit [Keccak] in
/-- The topmost operand is passed to the host, which panics. -/
theorem run_asked_panic {α β : Type} {x : U256 → HostM α} {f : U256 → α → ExecM β} {operand : U256}
    {p : Panic} {l : Local} {rest : List U256} (hstack : l.stack = operand :: rest)
    (hpanic : (x operand >>= fun _ => pure ()).run h = .error p) :
    (Interpreter.onLocal Local.pop_back >>= fun top =>
      Interpreter.onHost (x top) >>= f top).run (l, h) = .error p := by
  have hx : (x operand).run h = .error p := by
    rw [run_bind] at hpanic
    rcases hrun : (x operand).run h with p' | ⟨_ | a, h'⟩ <;> rw [hrun] at hpanic <;> cases hpanic
    rfl
  have hpop : (Interpreter.onLocal Local.pop_back).run (l, h) =
      .ok (.ok operand, ({ l with stack := rest }, h)) := by
    refine run_zoom_eq_ok.mpr ⟨{ l with stack := rest }, ?_, rfl⟩
    rw [Local.pop_back, run_bind, run_gets, hstack]
    rfl
  have hask : (Interpreter.onHost (x operand)).run ({ l with stack := rest }, h) = .error p := by
    have hx : x operand h = .error p := hx
    simp only [Interpreter.onHost, run, zoom, hx]
  rw [run_bind, hpop]
  show (Interpreter.onHost (x operand) >>= f operand).run _ = _
  rw [run_bind, hask]

/-- What panics for the host makes the instruction panic that passes its topmost operand. -/
theorem exec_instruction_panics_of_query {c : CostType} {instruction : Instruction}
    (hplace : instruction.query_place = some 0) {operand : U256} {p : Panic} {l : Local}
    {rest : List U256} (hstack : l.stack = operand :: rest)
    (hpanic : (hostQuery g ctx instruction operand).run h = .error p)
    (params : InterpreterParams) (code : Bytes) (gas : Cost c) (provided : Option (Cost c)) :
    (Interpreter.exec_instruction g ctx params code gas instruction provided).run (l, h) =
      .error p := by
  cases instruction
  case BLOCKHASH => exact run_asked_panic hstack hpanic
  case BALANCE => exact run_asked_panic hstack hpanic
  case EXTCODESIZE => exact run_asked_panic hstack hpanic
  case EXTCODEHASH => exact run_asked_panic hstack hpanic
  case EXTCODECOPY => exact run_asked_panic hstack hpanic
  case SLOAD => exact run_asked_panic hstack hpanic
  all_goals cases hplace

/-- Where the host completes the query, an interpreter with the operand on its stack gets an answer
    to all that it asks. -/
theorem answers_of_query {instruction : Instruction} {place : Nat}
    (hplace : instruction.query_place = some place) {operand : U256} {stack : List U256}
    (hop : stack[place]? = some operand)
    (hcodes : ∀ a u info, w.accounts a = some u → u.code = some info → info.code.length < 2 ^ 64)
    (hquery : ∃ r h', (hostQuery g ctx instruction operand).run h = .ok (r, h')) :
    Answers g ctx (some instruction) stack fun h => Rep db saved h.state w where
  storage_at key h hrep := wp_onState_gets (storage_at_refines _ key) hrep
  «exists» a h hrep := wp_onState_gets (exists_refines a) hrep
  exists_and_not_null a h hrep := wp_onState_gets (exists_and_not_null_refines a) hrep
  balance a h hrep := wp_onState_gets (balance_refines a) hrep
  extcode a h hrep := extcode_answers hcodes a hrep
  extcodehash a h hrep := extcodehash_completes a hrep
  extcodesize a h hrep := extcodesize_completes a hrep
  blockhash hins number h₁ hnumber hrep₁ := by
    obtain rfl := Option.some_inj.mp hins
    obtain rfl := Option.some_inj.mp hplace
    rw [List.head?_eq_getElem?, hop] at hnumber
    obtain rfl := Option.some_inj.mp hnumber
    obtain ⟨r, h', hrun⟩ := hquery
    have hasked : wp (hostQuery g ctx .BLOCKHASH operand) (fun _ => True)
        (fun _ _ => operand.toNat + 1 < 2 ^ 256) h := by
      refine wp_bind.mpr (wp_mono (blockhash_spec operand) (fun _ _ => trivial) ?_)
      rintro (e | hash) _ ⟨-, hlt, -⟩ <;> exact hlt
    have hlt := wp_of_run hasked hrun
    refine wp_mono (blockhash_spec operand) (fun _ hmax => ?_) fun _ _ _ => trivial
    omega
  set_storage hins := by cases hins; cases hplace
  log topics data h _ := wp_ite (fun _ => trivial) fun _ => trivial
  suicide hins := by cases hins; cases hplace
  create hins := by rcases hins with hins | hins <;> cases hins <;> cases hplace

/-- So the price of the instruction is found, and it is executed, without a panic. -/
theorem exec_next_completes_of_query (hspec : g.spec.GenesisConstants) {i : Interpreter .usize}
    (hi : i.Sound g.spec) (hres : i.resume_result = none) (hcode : i.code ≠ [])
    {m : Gasometer .usize} (hm : i.gasometer = some m) {instruction : Instruction}
    (hins : i.fetched = some instruction) {place : Nat}
    (hplace : instruction.query_place = some place) {operand : U256}
    (hop : i.stack[place]? = some operand) (hrep : Rep db saved h.state w)
    (hcodes : ∀ a u info, w.accounts a = some u → u.code = some info → info.code.length < 2 ^ 64)
    (hquery : ∃ r h', (hostQuery g ctx instruction operand).run h = .ok (r, h')) :
    ∃ r p, (Interpreter.exec_next g ctx).run (i, h) = .ok (r, p) := by
  have hans : Answers g ctx i.fetched i.stack fun h => Rep db saved h.state w := by
    rw [hins]
    exact answers_of_query hplace hop hcodes hquery
  obtain ⟨r, p, hrun, -⟩ :=
    exists_run_of_wp (Interpreter.exec_next_safe hspec hi hres hcode hm hans hrep)
  exact ⟨r, p, hrun⟩

/-- The host completes every query but one: `BLOCKHASH` of the largest word. -/
theorem host_query_completes_iff [HashOrder] (hstate : h.state.Reachable)
    (instruction : Instruction)
    (operand : U256) :
    QueryCompletes g ctx instruction operand h ↔
      ¬(instruction = .BLOCKHASH ∧ operand.toNat = 2 ^ 256 - 1) := by
  obtain ⟨db, saved, w, hrep⟩ := hstate.rep
  constructor
  · rintro ⟨-, hblock⟩ ⟨rfl, hmax⟩
    obtain ⟨h', hrun⟩ := value_eq_ok.mp (hblock rfl)
    obtain ⟨-, hlt, -⟩ := wp_of_run (blockhash_spec operand) hrun
    omega
  · intro hnot
    have hquery : wp (hostQuery g ctx instruction operand) (fun _ => False) (fun _ _ =>
        True) h := by
      by_cases hblock : instruction = .BLOCKHASH
      · subst hblock
        refine wp_bind.mpr (wp_mono (blockhash_spec operand) (fun _ hmax => hnot ⟨rfl, hmax⟩) ?_)
        rintro (e | hash) h' - <;> trivial
      · exact wp_post (hostQuery_completes hblock operand hrep) fun _ _ _ => trivial
    obtain ⟨r, h', hrun, -⟩ := exists_run_of_wp hquery
    refine ⟨⟨r, h', hrun⟩, ?_⟩
    rintro rfl
    obtain ⟨r₁, h₁, hrun₁, -, -, rfl⟩ := exists_run_of_wp
      (wp_mono (blockhash_spec operand) (fun _ hmax => hnot ⟨rfl, hmax⟩) fun _ _ hq => hq)
    exact value_eq_ok.mpr ⟨h₁, hrun₁⟩

end

section
attribute [local instance] keccakOfEmpty HashOrder.asListed

/-- The hash of the block before the current one is the last one. -/
theorem blockhash_of_previous_block :
    QueryCompletes bareMachine creatingContext .BLOCKHASH 0 emptyHost := by
  refine (host_query_completes_iff ⟨.empty, [], _, rfl⟩ .BLOCKHASH 0).mpr ?_
  rintro ⟨-, h⟩
  cases h

/-- The hash of the block with the largest number makes the host panic. -/
theorem blockhash_of_largest_word_panics :
    ¬QueryCompletes bareMachine creatingContext .BLOCKHASH (BitVec.allOnes 256) emptyHost := by
  rintro ⟨⟨r, h', hrun⟩, -⟩
  cases hrun

end

end CfxEvm
