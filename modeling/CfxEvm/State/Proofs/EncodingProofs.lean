import CfxEvm.Lib.RlpWrite
import CfxEvm.State.Proofs.BackendProofs
import CfxEvm.State.Records

/-!
# Proofs: stored records are read back

Each record writes one complete item, which its decoder maps back to the record. The list of a code
record is announced with two items and is given one; the second that is counted is the record itself
when it is appended to the stream, so that the list is complete after all.
-/

open Lib
open Lib.Rlp (Item Misuse DecoderError RlpStream Writes bytesOf numberOf encodeValue
  decodeValue itemOf
  pieces writes_data writes_list begin_list_items)
open Lib.Rlp.RlpStream (placeAll place_next)

namespace CfxEvm

/-- What is written under the key is what the getter returns; the default is no value. -/
def ReadsBack {α : Type} [Rlp.Encodable α] [IsDefault α] (key : StateKey)
    (getter : Backend → Except DecoderError (Option α)) (value : α) (b : Backend) : Prop :=
  ∃ b', StateDbExt.set key value b = .ok b' ∧
    getter b' = .ok (if IsDefault.is_default value then none else some value)

/-! ## Sizes -/

theorem length_header_le (offset : ℕ) {n : ℕ} (h : n < 2 ^ 64) :
    (Rlp.header offset n).length ≤ 9 := by
  have hle := Rlp.length_bytesOf_le (k := 8) (n := n) (by simpa using h)
  unfold Rlp.header
  split
  · rw [List.length_singleton]
    decide
  · rw [List.length_cons]
    omega

theorem length_encodeData_le (bytes : Bytes) (h : bytes.length < 2 ^ 64) :
    (Rlp.encodeData bytes).length ≤ bytes.length + 9 := by
  have hheader := length_header_le 0x80 h
  unfold Rlp.encodeData
  split
  · split <;> simp
  · rw [List.length_append]
    omega

theorem length_encode_list_le (items : List Item) {n : ℕ} (h : (Rlp.encodeAll items).length ≤ n)
    (hn : n < 2 ^ 64) : (Rlp.encode (.list items)).length ≤ n + 9 := by
  have hheader := length_header_le 0xc0 (h.trans_lt hn)
  rw [Rlp.encode, List.length_append]
  omega

/-- A complete item is read as it was written. -/
theorem itemOf_encode {item : Item} (h : (Rlp.encode item).length < 2 ^ 64) :
    itemOf (Rlp.encode item) = .ok item := by
  rw [itemOf, Rlp.read_encode h]

/-! ## Numbers and hashes -/

theorem writes_number (v : U256) : Writes v (.data (bytesOf v.toNat)) := writes_data fun _ => rfl

theorem writes_hash (v : FixedHash) : Writes v (.data (bigEndian 32 v.hash.toNat)) :=
  writes_data fun _ => rfl

theorem writes_bytes (v : Bytes) : Writes v (.data v) := writes_data fun _ => rfl

theorem length_bytesOf_word (v : U256) : (bytesOf v.toNat).length ≤ 32 :=
  Rlp.length_bytesOf_le v.isLt

theorem decode_number (v : U256) : Rlp.Decodable.decode (Item.data (bytesOf v.toNat)) = .ok v := by
  show (if (bytesOf v.toNat).head? = some 0 then _ else _) = _
  rw [if_neg fun h => Rlp.head_bytesOf_ne_zero h rfl, if_pos (length_bytesOf_word v),
    Rlp.numberOf_bytesOf, BitVec.ofNat_toNat, BitVec.setWidth_eq]

theorem decode_hash (v : H256) :
    Rlp.Decodable.decode (Item.data (bigEndian 32 v.toNat)) = .ok (FixedHash.mk v) := by
  have hlength := length_bigEndian 32 v.toNat
  show (if (bigEndian 32 v.toNat).length < 32 then Except.error DecoderError.RlpIsTooShort
    else if 32 < (bigEndian 32 v.toNat).length then .error .RlpIsTooBig
    else .ok (FixedHash.mk (BitVec.ofNat 256 (ofBigEndian (bigEndian 32 v.toNat))))) = _
  rw [if_neg (by omega), if_neg (by omega), ofNat_bigEndian]

/-! ## Records -/

section
variable {α : Type} [Rlp.Encodable α] [IsDefault α] {value : α} (item : Item)

/-- A value that writes a complete item is read back, if its decoder maps the item to it. -/
theorem readsBack_of_item (key : StateKey) (b : Backend)
    (hencode : encodeValue value = .ok (Rlp.encode item))
    {getter : Backend → Except DecoderError (Option α)}
    (hnone : ∀ b', b'.get key = none → getter b' = .ok none)
    (hsome : ∀ b', b'.get key = some (Rlp.encode item) → getter b' = .ok (some value)) :
    ReadsBack key getter value b := by
  unfold ReadsBack StateDbExt.set
  by_cases hdefault : IsDefault.is_default value = true
  · simp only [hdefault, if_true]
    refine ⟨_, rfl, hnone _ ?_⟩
    exact Function.update_self _ _ _
  · simp only [hdefault, hencode]
    refine ⟨_, rfl, hsome _ ?_⟩
    exact Function.update_self _ _ _

theorem readsBack_of_decode [Rlp.Decodable α] (key : StateKey) (b : Backend)
    (hencode : encodeValue value = .ok (Rlp.encode item))
    (hsize : (Rlp.encode item).length < 2 ^ 64) (hdecode : Rlp.Decodable.decode item = .ok value) :
    ReadsBack key (StateDbExt.get α key) value b := by
  refine readsBack_of_item item key b hencode (fun b' hget => ?_) fun b' hget => ?_
  · rw [StateDbExt.get, hget]
  · rw [StateDbExt.get, hget]
    show (decodeValue (Rlp.encode item) >>= _) = _
    rw [decodeValue, itemOf_encode hsize]
    show (Rlp.Decodable.decode item >>= _) = _
    rw [hdecode]
    rfl

end

theorem number_readsBack (key : StateKey) (v : U256) (b : Backend) :
    ReadsBack key (StateDbExt.get U256 key) v b := by
  have hlength := length_bytesOf_word v
  refine readsBack_of_decode (.data (bytesOf v.toNat)) key b (writes_number v).encodeValue ?_
    (decode_number v)
  have hsize := length_encodeData_le (bytesOf v.toNat) (by omega)
  rw [Rlp.encode]
  omega

theorem writes_storage_value (v : StorageValue) :
    Writes v (.list [.data (bytesOf v.value.toNat)]) := by
  refine writes_list fun s => ?_
  have hvalue : ∀ s, RlpStream.append v.value s = _ := writes_number v.value
  rw [← begin_list_items (n := 1) rfl (by decide)]
  show (s.begin_list 1 >>= fun s => s.append v.value) = _
  simp only [hvalue, pieces, List.map_cons, List.map_nil, placeAll, bind_pure]

theorem storage_value_readsBack (key : StateKey) (v : StorageValue) (b : Backend) :
    ReadsBack key (StateDbExt.get StorageValue key) v b := by
  have hlength := length_bytesOf_word v.value
  refine readsBack_of_decode (.list [.data (bytesOf v.value.toNat)]) key b
    (writes_storage_value v).encodeValue ?_ ?_
  · have hsize := length_encodeData_le (bytesOf v.value.toNat) (by omega)
    have hlist := length_encode_list_le [.data (bytesOf v.value.toNat)] (n := 41)
      (by simp only [Rlp.encodeAll, Rlp.encode, List.append_nil]; omega) (by decide)
    omega
  · show (Rlp.Decodable.decode (Item.data (bytesOf v.value.toNat)) >>= _) = _
    rw [decode_number]
    rfl

/-- The list of a code is announced with two items and has one. The second one that is counted is
    the record itself. -/
theorem encodeValue_code (v : CodeInfo) :
    encodeValue v = .ok (Rlp.encode (.list [.data v.code])) := by
  have hcode : ∀ s, RlpStream.append v.code s = _ := writes_bytes v.code
  have happend : (Rlp.Encodable.rlp_append v .new : Except Misuse RlpStream) =
      .ok ⟨[⟨Rlp.encode (.data v.code), 1, 2⟩], [], false⟩ := by
    show RlpStream.append v.code ⟨[⟨[], 0, 2⟩], [], false⟩ = _
    rw [hcode, place_next _ (by decide)]
    rfl
  unfold encodeValue RlpStream.append
  show (Rlp.Encodable.rlp_append v RlpStream.new >>= _) >>= _ = _
  rw [happend, Rlp.encode_list]
  show Except.ok _ = Except.ok _
  simp [Rlp.listOf]

theorem code_readsBack {v : CodeInfo} (hcode : v.code.length < 2 ^ 63) (key : StateKey)
    (b : Backend) :
    ReadsBack key (StateDbExt.get CodeInfo key) v b := by
  refine readsBack_of_decode (.list [.data v.code]) key b (encodeValue_code v) ?_ rfl
  have hsize := length_encodeData_le v.code (by omega)
  have hlist := length_encode_list_le [.data v.code] (n := v.code.length + 9)
    (by simp only [Rlp.encodeAll, Rlp.encode, List.append_nil]; omega) (by omega)
  omega

/-- The item of an account. -/
def accountItem (v : EthereumAccount) : Item :=
  .list [.data (bytesOf v.balance.toNat), .data (bytesOf v.nonce.toNat),
    .data (bigEndian 32 v.code_hash.toNat)]

theorem decode_accountItem (v : EthereumAccount) :
    Rlp.Decodable.decode (accountItem v) = .ok v := by
  show (Rlp.Decodable.decode (Item.data (bytesOf v.balance.toNat)) >>= fun balance =>
    Rlp.Decodable.decode (Item.data (bytesOf v.nonce.toNat)) >>= fun nonce =>
    Rlp.Decodable.decode (Item.data (bigEndian 32 v.code_hash.toNat)) >>= fun hash : FixedHash =>
    pure (EthereumAccount.mk balance nonce hash.hash)) = _
  rw [decode_number, decode_number, decode_hash]
  rfl

theorem writes_account (v : AddressedAccount) : Writes v (accountItem v.to_evm_account) := by
  refine writes_list fun s => ?_
  have hbalance : ∀ s, RlpStream.append v.balance s = _ := writes_number v.balance
  have hnonce : ∀ s, RlpStream.append v.nonce s = _ := writes_number v.nonce
  have hhash : ∀ s, RlpStream.append (FixedHash.mk v.code_hash) s = _ := writes_hash ⟨v.code_hash⟩
  rw [← begin_list_items (n := 3) rfl (by decide)]
  show (s.begin_list 3 >>= fun s => s.append v.balance >>= fun s => s.append v.nonce >>= fun s =>
    s.append (FixedHash.mk v.code_hash)) = _
  simp only [hbalance, hnonce, hhash, pieces, List.map_cons, List.map_nil, placeAll, bind_pure]
  rfl

theorem length_accountItem (v : EthereumAccount) :
    (Rlp.encode (accountItem v)).length < 2 ^ 64 := by
  have hbalance := length_bytesOf_word v.balance
  have hnonce := length_bytesOf_word v.nonce
  have hhash := length_bigEndian 32 v.code_hash.toNat
  have hbalance' := length_encodeData_le (bytesOf v.balance.toNat) (by omega)
  have hnonce' := length_encodeData_le (bytesOf v.nonce.toNat) (by omega)
  have hhash' := length_encodeData_le (bigEndian 32 v.code_hash.toNat) (by omega)
  have hlist := length_encode_list_le [.data (bytesOf v.balance.toNat),
    .data (bytesOf v.nonce.toNat), .data (bigEndian 32 v.code_hash.toNat)] (n := 123)
    (by simp only [Rlp.encodeAll, Rlp.encode, List.append_nil, List.length_append]; omega)
    (by decide)
  unfold accountItem
  omega

section
variable [Keccak]

theorem account_readsBack (v : AddressedAccount) (b : Backend) :
    ReadsBack (.AccountKey v.address_local_info)
      (StateDbExt.get_account v.address_local_info) v b := by
  refine readsBack_of_item (accountItem v.to_evm_account) _ b (writes_account v).encodeValue
    (fun b' hget => ?_)
    fun b' hget => ?_
  · rw [StateDbExt.get_account, hget]
  · rw [StateDbExt.get_account, hget]
    show (itemOf _ >>= _) = _
    rw [itemOf_encode (length_accountItem _)]
    show ((Rlp.Decodable.decode (accountItem v.to_evm_account) >>= fun account : EthereumAccount =>
      pure (AddressedAccount.from_ethereum_account v.address_local_info account)) >>= _) = _
    rw [decode_accountItem]
    rfl

/-- Stored records are read back: whatever account, code, storage value or number is written, its
    getter returns it, or none if it is the default, and writing it does not panic. A vector holds
    less than `2 ^ 63` bytes. -/
theorem stored_records_are_read_back (b : Backend) :
    (∀ v : AddressedAccount, ReadsBack (.AccountKey v.address_local_info)
      (StateDbExt.get_account v.address_local_info) v b) ∧
    (∀ (a : Address) (v : CodeInfo), v.code.length < 2 ^ 63 →
      ReadsBack (.CodeKey a) (StateDbExt.get_code a) v b) ∧
    (∀ (key : StateKey) (v : StorageValue), ReadsBack key (StateDbExt.get StorageValue key) v b) ∧
    ∀ (key : StateKey) (v : U256), ReadsBack key (StateDbExt.get U256 key) v b :=
  ⟨fun v => account_readsBack v b, fun a _ hcode => code_readsBack hcode (.CodeKey a) b,
    fun key v => storage_value_readsBack key v b, fun key v => number_readsBack key v b⟩

end

section
attribute [local instance] keccakOfEmpty

/-- The code of a contract with one instruction is read back. -/
theorem stop_code_is_read_back :
    ∃ b', StateDbExt.set (.CodeKey 7) (CodeInfo.mk [0x00]) (fun _ => none) = .ok b' ∧
      StateDbExt.get_code 7 b' = .ok (some ⟨[0x00]⟩) :=
  (stored_records_are_read_back fun _ => none).2.1 7 ⟨[0x00]⟩ (by decide)

end

end CfxEvm
