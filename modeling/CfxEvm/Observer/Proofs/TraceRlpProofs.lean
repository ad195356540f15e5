import CfxEvm.Observer.TraceRlp
import CfxEvm.Primitives.Proofs.RlpTypesProofs

/-!
# Proofs: traces on the wire

The traces of a block are read back from their bytes: those of every kind of action, with every kind
of pocket and outcome, marked valid or not.
-/

open Lib
open Lib.Rlp (Item RlpStream View Writes Carries bytesOf pieces writes_list)
open Lib.Rlp.RlpStream (place placeAll)

namespace CfxEvm

/-! ## Primitive types -/

/-- The item of a small number. -/
def u8Item (v : UInt8) : Item := .data (bytesOf v.toNat)

def u32Item (v : UInt32) : Item := .data (bytesOf v.toNat)

def numberItem (v : U256) : Item := .data (bytesOf v.toNat)

theorem carries_u8 (v : UInt8) : Carries v (u8Item v) := ⟨writes_u8 v, fun _ => read_u8 v⟩

theorem carries_u32 (v : UInt32) : Carries v (u32Item v) := ⟨writes_u32 v, fun _ => read_u32 v⟩

theorem carries_number (v : U256) : Carries v (numberItem v) :=
  ⟨writes_number v, fun _ => read_number v⟩

theorem carries_address (a : Address) : Carries a (.data a.to_bytes) :=
  ⟨writes_address a, fun _ => read_address a⟩

theorem carries_bytes (b : Bytes) : Carries b (.data b) := ⟨writes_bytes b, read_bytes⟩

theorem carries_bool (v : Bool) : Carries v (u8Item (if v then 1 else 0)) :=
  ⟨writes_bool v, fun _ => read_bool v⟩

/-! ## Kinds -/

/-- A kind is written as the number that stands for it. -/
def spaceItem : Space → Item
  | .Ethereum => u8Item 1

def callTypeItem : CallType → Item
  | .None => u32Item 0
  | .Call => u32Item 1
  | .CallCode => u32Item 2
  | .DelegateCall => u32Item 3
  | .StaticCall => u32Item 4

def createTypeItem : CreateType → Item
  | .None => u32Item 0
  | .CREATE => u32Item 1
  | .CREATE2 => u32Item 2

def outcomeItem : Outcome → Item
  | .Success => u32Item 0
  | .Reverted => u32Item 1
  | .Fail => u32Item 2

/-- A kind that is written as a number and read from it. -/
theorem carries_of_u32 {α : Type} [Rlp.Encodable α] [Rlp.Readable α] {v : α} {n : UInt32}
    {f : UInt32 → Except Rlp.DecoderError α}
    (hwrite : ∀ s, Rlp.Encodable.rlp_append v s = Rlp.Encodable.rlp_append n s)
    (hread : ∀ rlp : View, Rlp.Readable.read rlp = rlp.as_val >>= f) (hf : f n = .ok v) :
    Carries v (u32Item n) := by
  constructor
  · exact Rlp.writes_data hwrite
  · intro hsize
    rw [hread]
    exact bind_eq_ok.mpr ⟨n, (carries_u32 n).read hsize, hf⟩

theorem carries_space (v : Space) : Carries v (spaceItem v) := by
  cases v
  exact ⟨writes_u8 1, fun _ => bind_eq_ok.mpr ⟨1, read_u8 1, rfl⟩⟩

theorem carries_call_type (v : CallType) : Carries v (callTypeItem v) := by
  cases v <;> exact carries_of_u32 (fun _ => rfl) (fun _ => rfl) rfl

theorem carries_create_type (v : CreateType) : Carries v (createTypeItem v) := by
  cases v <;> exact carries_of_u32 (fun _ => rfl) (fun _ => rfl) rfl

theorem carries_outcome (v : Outcome) : Carries v (outcomeItem v) := by
  cases v <;> exact carries_of_u32 (fun _ => rfl) (fun _ => rfl) rfl

/-! ## Pockets -/

def pocketItem (v : AddressPocket) : Item :=
  .list (u8Item v.type_number :: v.inner_address.toList.map fun a => .data a.to_bytes)

theorem writes_pocket (v : AddressPocket) : Writes v (pocketItem v) := by
  have hnumber : ∀ (n : UInt8) s, RlpStream.append n s = _ := fun n => (carries_u8 n).writes
  have haddress : ∀ (a : Address) s, RlpStream.append a s = _ := fun a => (carries_address a).writes
  refine writes_list fun s => ?_
  rcases hinner : v.inner_address with _ | a
  · rw [← Rlp.begin_list_items (n := 1) rfl (by decide)]
    have happend : Rlp.Encodable.rlp_append v s =
        (s.begin_list 1 >>= fun s => s.append v.type_number) := by
      cases v with
      | Balance a => cases hinner
      | _ => rfl
    rw [happend]
    simp only [hnumber, pieces, Option.toList_none, List.map_cons, List.map_nil,
      placeAll, bind_pure]
  · rw [← Rlp.begin_list_items (n := 2) rfl (by decide)]
    have happend : Rlp.Encodable.rlp_append v s =
        (s.begin_list 2 >>= fun s => s.append v.type_number >>= fun s => s.append a) := by
      cases v with
      | Balance b =>
        cases hinner
        rfl
      | _ => cases hinner
    rw [happend]
    simp only [hnumber, haddress, pieces, Option.toList_some, List.map_cons, List.map_nil,
      placeAll, bind_pure]

theorem carries_pocket (v : AddressPocket) : Carries v (pocketItem v) := by
  refine ⟨writes_pocket v, fun hsize => ?_⟩
  refine bind_eq_ok.mpr ⟨_, (carries_u8 v.type_number).val_at rfl hsize, ?_⟩
  cases v with
  | Balance a => exact bind_eq_ok.mpr ⟨a, (carries_address a).val_at rfl hsize, rfl⟩
  | MintBurn => rfl
  | GasPayment => rfl

/-! ## Actions -/

namespace Trace

def callItem (v : Call) : Item :=
  .list [spaceItem v.space, .data v.from_.to_bytes, .data v.to_.to_bytes, numberItem v.value,
    numberItem v.gas, .data v.input, callTypeItem v.call_type]

def createItem (v : Create) : Item :=
  .list [spaceItem v.space, .data v.from_.to_bytes, numberItem v.value, numberItem v.gas,
    .data v.init,
    createTypeItem v.create_type]

def callResultItem (v : CallResult) : Item :=
  .list [outcomeItem v.outcome, numberItem v.gas_left, .data v.return_data]

def createResultItem (v : CreateResult) : Item :=
  .list [outcomeItem v.outcome, .data v.addr.to_bytes, numberItem v.gas_left, .data v.return_data]

def internalTransferItem (v : InternalTransferAction) : Item :=
  .list [pocketItem v.from_, pocketItem v.to_, numberItem v.value]

theorem carries_call (v : Call) : Carries v (callItem v) := by
  have hspace := carries_space v.space
  have hfrom := carries_address v.from_
  have hto := carries_address v.to_
  have hvalue := carries_number v.value
  have hgas := carries_number v.gas
  have hinput := carries_bytes v.input
  have htype := carries_call_type v.call_type
  constructor
  · refine writes_list fun s => ?_
    rw [← Rlp.begin_list_items (n := 7) rfl (by decide)]
    refine bind_congr fun s => ?_
    simp only [hspace.writes _, hfrom.writes _, hto.writes _, hvalue.writes _, hgas.writes _,
      hinput.writes _,
      htype.writes _, pieces, List.map_cons, List.map_nil, placeAll, bind_pure]
  · intro hsize
    refine bind_eq_ok.mpr ⟨_, hspace.val_at rfl hsize, ?_⟩
    refine bind_eq_ok.mpr ⟨_, hfrom.val_at rfl hsize, ?_⟩
    refine bind_eq_ok.mpr ⟨_, hto.val_at rfl hsize, ?_⟩
    refine bind_eq_ok.mpr ⟨_, hvalue.val_at rfl hsize, ?_⟩
    refine bind_eq_ok.mpr ⟨_, hgas.val_at rfl hsize, ?_⟩
    refine bind_eq_ok.mpr ⟨_, hinput.val_at rfl hsize, ?_⟩
    exact bind_eq_ok.mpr ⟨_, htype.val_at rfl hsize, rfl⟩

theorem carries_create (v : Create) : Carries v (createItem v) := by
  have hspace := carries_space v.space
  have hfrom := carries_address v.from_
  have hvalue := carries_number v.value
  have hgas := carries_number v.gas
  have hinit := carries_bytes v.init
  have htype := carries_create_type v.create_type
  constructor
  · refine writes_list fun s => ?_
    rw [← Rlp.begin_list_items (n := 6) rfl (by decide)]
    refine bind_congr fun s => ?_
    simp only [hspace.writes _, hfrom.writes _, hvalue.writes _, hgas.writes _, hinit.writes _,
      htype.writes _,
      pieces, List.map_cons, List.map_nil, placeAll, bind_pure]
  · intro hsize
    refine bind_eq_ok.mpr ⟨_, hspace.val_at rfl hsize, ?_⟩
    refine bind_eq_ok.mpr ⟨_, hfrom.val_at rfl hsize, ?_⟩
    refine bind_eq_ok.mpr ⟨_, hvalue.val_at rfl hsize, ?_⟩
    refine bind_eq_ok.mpr ⟨_, hgas.val_at rfl hsize, ?_⟩
    refine bind_eq_ok.mpr ⟨_, hinit.val_at rfl hsize, ?_⟩
    exact bind_eq_ok.mpr ⟨_, htype.val_at rfl hsize, rfl⟩

theorem carries_call_result (v : CallResult) : Carries v (callResultItem v) := by
  have houtcome := carries_outcome v.outcome
  have hgas := carries_number v.gas_left
  have hdata := carries_bytes v.return_data
  constructor
  · refine writes_list fun s => ?_
    rw [← Rlp.begin_list_items (n := 3) rfl (by decide)]
    refine bind_congr fun s => ?_
    simp only [houtcome.writes _, hgas.writes _, hdata.writes _, pieces, List.map_cons,
      List.map_nil, placeAll,
      bind_pure]
  · intro hsize
    refine bind_eq_ok.mpr ⟨_, houtcome.val_at rfl hsize, ?_⟩
    refine bind_eq_ok.mpr ⟨_, hgas.val_at rfl hsize, ?_⟩
    exact bind_eq_ok.mpr ⟨_, hdata.val_at rfl hsize, rfl⟩

theorem carries_create_result (v : CreateResult) : Carries v (createResultItem v) := by
  have houtcome := carries_outcome v.outcome
  have haddr := carries_address v.addr
  have hgas := carries_number v.gas_left
  have hdata := carries_bytes v.return_data
  constructor
  · refine writes_list fun s => ?_
    rw [← Rlp.begin_list_items (n := 4) rfl (by decide)]
    refine bind_congr fun s => ?_
    simp only [houtcome.writes _, haddr.writes _, hgas.writes _, hdata.writes _, pieces,
      List.map_cons,
      List.map_nil, placeAll, bind_pure]
  · intro hsize
    refine bind_eq_ok.mpr ⟨_, houtcome.val_at rfl hsize, ?_⟩
    refine bind_eq_ok.mpr ⟨_, haddr.val_at rfl hsize, ?_⟩
    refine bind_eq_ok.mpr ⟨_, hgas.val_at rfl hsize, ?_⟩
    exact bind_eq_ok.mpr ⟨_, hdata.val_at rfl hsize, rfl⟩

theorem carries_internal_transfer (v : InternalTransferAction) :
    Carries v (internalTransferItem v) := by
  have hfrom := carries_pocket v.from_
  have hto := carries_pocket v.to_
  have hvalue := carries_number v.value
  constructor
  · refine writes_list fun s => ?_
    rw [← Rlp.begin_list_items (n := 3) rfl (by decide)]
    refine bind_congr fun s => ?_
    simp only [hfrom.writes _, hto.writes _, hvalue.writes _, pieces, List.map_cons,
      List.map_nil, placeAll,
      bind_pure]
  · intro hsize
    refine bind_eq_ok.mpr ⟨_, hfrom.val_at rfl hsize, ?_⟩
    refine bind_eq_ok.mpr ⟨_, hto.val_at rfl hsize, ?_⟩
    exact bind_eq_ok.mpr ⟨_, hvalue.val_at rfl hsize, rfl⟩

end Trace

def actionItem : Action → Item
  | .Call from_ to_ value gas input call_type =>
    .list [u8Item 0, Trace.callItem ⟨.Ethereum, from_, to_, value, gas, input, call_type⟩]
  | .Create from_ value gas init create_type =>
    .list [u8Item 1, Trace.createItem ⟨.Ethereum, from_, value, gas, init, create_type⟩]
  | .CallResult outcome gas_left return_data =>
    .list [u8Item 2, Trace.callResultItem ⟨outcome, gas_left, return_data⟩]
  | .CreateResult outcome addr gas_left return_data =>
    .list [u8Item 3, Trace.createResultItem ⟨outcome, addr, gas_left, return_data⟩]
  | .InternalTransferAction from_ to_ value =>
    .list [u8Item 4, Trace.internalTransferItem ⟨from_, to_, value⟩]

/-- An action is a tag and its description, which is read as the tag says. -/
theorem carries_tagged {α : Type} [Rlp.Encodable α] [Rlp.Readable α] {action : Action}
    {tag : UInt8} {v : α}
    {item : Item}
    (hwrite : ∀ s, Rlp.Encodable.rlp_append action s =
      (s.begin_list 2 >>= fun s => s.append tag >>= fun s => s.append v))
    (hread : ∀ rlp : View, rlp.val_at 0 = .ok tag → rlp.val_at 1 = .ok v →
      Rlp.Readable.read rlp = .ok action)
    (h : Carries v item) : Carries action (.list [u8Item tag, item]) := by
  have htag := carries_u8 tag
  constructor
  · refine writes_list fun s => ?_
    rw [← Rlp.begin_list_items (n := 2) rfl (by decide), hwrite]
    refine bind_congr fun s => ?_
    simp only [htag.writes _, h.writes _, pieces, List.map_cons, List.map_nil, placeAll, bind_pure]
  · intro hsize
    exact hread _ (htag.val_at rfl hsize) (h.val_at rfl hsize)

theorem carries_action (v : Action) : Carries v (actionItem v) := by
  cases v with
  | Call from_ to_ value gas input call_type =>
    exact carries_tagged (fun _ => rfl)
      (fun _ htag hv => bind_eq_ok.mpr ⟨0, htag, bind_eq_ok.mpr ⟨_, hv, rfl⟩⟩)
      (Trace.carries_call _)
  | Create from_ value gas init create_type =>
    exact carries_tagged (fun _ => rfl)
      (fun _ htag hv => bind_eq_ok.mpr ⟨1, htag, bind_eq_ok.mpr ⟨_, hv, rfl⟩⟩)
      (Trace.carries_create _)
  | CallResult outcome gas_left return_data =>
    exact carries_tagged (fun _ => rfl)
      (fun _ htag hv => bind_eq_ok.mpr ⟨2, htag, bind_eq_ok.mpr ⟨_, hv, rfl⟩⟩)
      (Trace.carries_call_result _)
  | CreateResult outcome addr gas_left return_data =>
    exact carries_tagged (fun _ => rfl)
      (fun _ htag hv => bind_eq_ok.mpr ⟨3, htag, bind_eq_ok.mpr ⟨_, hv, rfl⟩⟩)
      (Trace.carries_create_result _)
  | InternalTransferAction from_ to_ value =>
    exact carries_tagged (fun _ => rfl)
      (fun _ htag hv => bind_eq_ok.mpr ⟨4, htag, bind_eq_ok.mpr ⟨_, hv, rfl⟩⟩)
      (Trace.carries_internal_transfer _)

/-! ## Traces -/

def traceItem (v : ExecTrace) : Item :=
  .list [actionItem v.action, u8Item (if v.valid then 1 else 0)]

theorem carries_trace (v : ExecTrace) : Carries v (traceItem v) := by
  have haction := carries_action v.action
  have hvalid := carries_bool v.valid
  constructor
  · refine writes_list fun s => ?_
    rw [← Rlp.begin_list_items (n := 2) rfl (by decide)]
    refine bind_congr fun s => ?_
    simp only [haction.writes _, hvalid.writes _, pieces, List.map_cons, List.map_nil,
      placeAll, bind_pure]
  · intro hsize
    -- the mark is there, so this is not the older form
    refine bind_eq_ok.mpr ⟨2, View.item_count_encode hsize, ?_⟩
    refine bind_eq_ok.mpr ⟨_, haction.val_at rfl hsize, ?_⟩
    exact bind_eq_ok.mpr ⟨_, hvalid.val_at rfl hsize, rfl⟩

def transactionItem (v : TransactionExecTraces) : Item := .list [.list (v.traces.map traceItem)]

theorem carries_transaction (v : TransactionExecTraces) : Carries v (transactionItem v) := by
  have hlist : ∀ s, RlpStream.append_list v.traces s = _ :=
    Rlp.append_list_eq fun t _ => (carries_trace t).writes
  constructor
  · refine writes_list fun s => ?_
    rw [← Rlp.begin_list_items (n := 1) rfl (by decide)]
    refine bind_congr fun s => ?_
    simp only [hlist, pieces, List.map_cons, List.map_nil, placeAll, bind_pure]
    rfl
  · intro hsize
    exact bind_eq_ok.mpr ⟨_, Rlp.list_at_encode (fun t _ => carries_trace t) rfl hsize, rfl⟩

def blockItem (v : BlockExecTraces) : Item := .list [.list (v.traces.map transactionItem)]

theorem carries_block (v : BlockExecTraces) : Carries v (blockItem v) := by
  have hlist : ∀ s, RlpStream.append_list v.traces s = _ :=
    Rlp.append_list_eq fun t _ => (carries_transaction t).writes
  constructor
  · refine writes_list fun s => ?_
    rw [← Rlp.begin_list_items (n := 1) rfl (by decide)]
    refine bind_congr fun s => ?_
    simp only [hlist, pieces, List.map_cons, List.map_nil, placeAll, bind_pure]
    rfl
  · intro hsize
    exact bind_eq_ok.mpr ⟨_, Rlp.list_at_encode (fun t _ => carries_transaction t) rfl hsize, rfl⟩

/-- The traces of a block are read back from the bytes they are written as, whatever they hold. The
    length of a vector of bytes, which the encoder fills, is below `2 ^ 63`. -/
theorem block_traces_are_read_back (v : BlockExecTraces)
    (hsize : ∀ bytes, Rlp.encodeValue v = .ok bytes → bytes.length < 2 ^ 63) :
    ∃ bytes, Rlp.encodeValue v = .ok bytes ∧ View.as_val ⟨bytes⟩ = .ok v := by
  have hcarries := carries_block v
  have hlen := hsize _ hcarries.writes.encodeValue
  exact hcarries.round_trip (by omega)

/-- A transaction without traces, and one with a trace of every kind. -/
def mixedTraces : BlockExecTraces :=
  ⟨[⟨[]⟩,
    ⟨[⟨.InternalTransferAction (.Balance 1) .GasPayment 21000, true⟩,
      ⟨.Call 1 2 300 90000 [0, 1] .StaticCall, true⟩, ⟨.Create 2 0 50000 [0xfe] .CREATE2, false⟩,
        ⟨.CreateResult .Fail 0 0 [], false⟩,
      ⟨.CallResult .Reverted 7 [0x80], true⟩,
        ⟨.InternalTransferAction .MintBurn (.Balance 3) 5, false⟩]⟩]⟩

theorem mixedTraces_round_trip :
    ∃ bytes, Rlp.encodeValue mixedTraces = .ok bytes ∧ View.as_val ⟨bytes⟩ = .ok mixedTraces := by
  refine block_traces_are_read_back mixedTraces fun bytes hbytes => ?_
  have hlen : (Rlp.encode (blockItem mixedTraces)).length < 2 ^ 63 := by decide +kernel
  rw [(carries_block mixedTraces).writes.encodeValue] at hbytes
  rwa [← Except.ok.inj hbytes]

end CfxEvm
