import CfxEvm.State.Commands

/-!
# Runs over several commits

Runs of state operations, checkpoints and commits, in which the state may also be dropped and
reopened on its database. Beside the state, a run keeps a record of the contracts that were created
and of the storage keys written to each of them since. A revert takes back what the record says of
the reverted part, and so does dropping a state that was not committed.
-/

open Lib

namespace CfxEvm

/-- A command of a run over several commits. -/
inductive StoreCmd
  | cmd (c : Cmd StateOp)
  | add_total_issued (v : U256)
  | commit
  | reopen

/-- For an address at which `new_contract` was called, the keys written with `set_storage` since. -/
abbrev Written := Address → Option (List Bytes)

/-- The record of a run: now, at each open checkpoint, and at the last commit. -/
structure Created where
  cur : Written
  saved : List Written
  committed : Written

namespace Created

def init : Created := ⟨fun _ => none, [], fun _ => none⟩

/-- What one operation adds to the record. -/
def note (w : Written) : StateOp → Written
  | .new_contract a _ _ => Function.update w a (some [])
  | .set_storage a k _ => Function.update w a ((w a).map (k :: ·))
  | _ => w

/-- The record after a command. -/
def after (g : Created) : StoreCmd → Created
  | .cmd (.op o) => { g with cur := note g.cur o }
  | .cmd .checkpoint => { g with saved := g.cur :: g.saved }
  | .cmd .discard => { g with saved := g.saved.tail }
  | .cmd .revert => match g.saved with
    | [] => g
    | old :: rest => { g with cur := old, saved := rest }
  | .add_total_issued _ => g
  | .commit => { g with committed := g.cur }
  | .reopen => ⟨g.committed, [], g.committed⟩

end Created

section
variable [Keccak] [HashOrder]

/-- One command on the state. -/
def State.execStore (s : State) : StoreCmd → Except Panic State
  | .cmd c => s.execCmd c
  | .add_total_issued v => (State.add_total_issued v).final s
  | .commit => State.commit.final s
  | .reopen => .ok (State.new s.db)

/-- A run with its record. -/
def runStore : List StoreCmd → State × Created → Except Panic (State × Created)
  | [], x => .ok x
  | c :: l, (s, g) => (s.execStore c).bind fun s' => runStore l (s', g.after c)

/-- The state is reached from `State::new` over some database. -/
def State.Reachable (s : State) : Prop :=
  ∃ db cmds g, runStore cmds (State.new db, Created.init) = .ok (s, g)

/-- Every slot of a created contract that was not written since reads as zero. -/
def StartsEmpty (s : State) (g : Created) : Prop :=
  ∀ a written, g.cur a = some written → ∀ k, k ∉ written →
    (State.storage_at a k).value s = .ok (.ok 0)

/-- A step that is no creation, or the creation of a contract at an address under which the
    database holds no slot and that is not the one under which a commit stores the total of issued
    tokens. -/
def CreatesOnEmpty (s : State) : StoreCmd → Prop
  | .cmd (.op (.new_contract a _ _)) =>
    a ≠ STORAGE_INTEREST_STAKING_CONTRACT_ADDRESS ∧ ∀ k, s.db.slots a k = 0
  | _ => True

/-- Every step of the run satisfies `CreatesOnEmpty` in the state it is taken in. -/
def StepsCreateOnEmpty : List StoreCmd → State → Prop
  | [], _ => True
  | c :: l, s => CreatesOnEmpty s c ∧ ∀ s', s.execStore c = .ok s' → StepsCreateOnEmpty l s'

end

end CfxEvm
