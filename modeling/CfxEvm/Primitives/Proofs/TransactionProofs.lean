import CfxEvm.Primitives.Proofs.RlpTypesProofs
import CfxEvm.Primitives.Transaction

/-!
# Proofs: transactions on the wire

What is written is read back, and the numbers on the wire that stand for the chain id and the parity
of the signature are those that the encoder writes, but for the marker of an invalid number: it
stands for many numbers and is written as one of them.
-/

open Lib
open Lib.Rlp (Item Misuse DecoderError RlpStream View Writes Whole OnlyItems bytesOf
  numberOf rlp_bytes
  encodeData listOf pieces writes_data writes_list begin_list_items)
open Lib.Rlp.RlpStream (placeAll)

namespace CfxEvm

/-! ## The signature -/

namespace eip155_signature

/-- The number on the wire, which does not overflow. -/
theorem toNat_add_chain_replay_protection (v : UInt8) (chain_id : Option UInt32) :
    (add_chain_replay_protection v (chain_id.map (·.toUInt64))).toNat =
      v.toNat + match chain_id with
        | some n => 35 + n.toNat * 2
        | none => 27 := by
  have hv := v.toNat_lt
  unfold add_chain_replay_protection
  cases chain_id with
  | none =>
    show (v.toUInt64 + 27).toNat = v.toNat + 27
    rw [UInt64.toNat_add, UInt8.toNat_toUInt64]
    exact Nat.mod_eq_of_lt (by show v.toNat + 27 < 2 ^ 64; omega)
  | some n =>
    have hn := n.toNat_lt
    show (v.toUInt64 + (35 + n.toUInt64 * 2)).toNat = v.toNat + (35 + n.toNat * 2)
    rw [UInt64.toNat_add, UInt64.toNat_add, UInt64.toNat_mul, UInt8.toNat_toUInt64,
      UInt32.toNat_toUInt64]
    show (v.toNat + (35 + n.toNat * 2 % 2 ^ 64) % 2 ^ 64) % 2 ^ 64 = _
    omega

theorem toNat_extract_standard_v {v : UInt64} (h : 35 ≤ v.toNat) :
    (extract_standard_v v).toNat = (v.toNat - 1) % 2 := by
  have hlt := v.toNat_lt
  have h27 : v ≠ 27 := by
    rintro rfl
    exact absurd h (by decide)
  have h28 : v ≠ 28 := by
    rintro rfl
    exact absurd h (by decide)
  have hle : v ≥ 35 := UInt64.le_iff_toNat_le.mpr h
  have hone : 1 ≤ v := UInt64.le_iff_toNat_le.mpr (show 1 ≤ v.toNat by omega)
  unfold extract_standard_v
  rw [if_neg h27, if_neg h28, if_pos hle, UInt64.toNat_toUInt8, UInt64.toNat_mod,
    UInt64.toNat_sub_of_le _ _ hone]
  show (v.toNat - 1) % 2 % 2 ^ 8 = (v.toNat - 1) % 2
  omega

theorem extract_chain_id_of_le {v : UInt64} (h : 35 ≤ v.toNat) :
    ∃ chain_id, extract_chain_id_from_legacy_v v = some chain_id ∧
      chain_id.toNat = (v.toNat - 35) / 2 := by
  have hle : v ≥ 35 := UInt64.le_iff_toNat_le.mpr h
  refine ⟨(v - 35) / 2, if_pos hle, ?_⟩
  rw [UInt64.toNat_div, UInt64.toNat_sub_of_le _ _ hle]
  rfl

theorem extract_chain_id_of_lt {v : UInt64} (h : v.toNat < 35) :
    extract_chain_id_from_legacy_v v = none :=
  if_neg fun hle => absurd (UInt64.le_iff_toNat_le.mp hle) (Nat.not_le.mpr h)

end eip155_signature

open eip155_signature

/-- The chain id that is read, for a number from 35 on. -/
theorem read_chain_id_of_le {legacy_v : UInt64} (h : 35 ≤ legacy_v.toNat) :
    read_chain_id legacy_v =
      if (legacy_v.toNat - 35) / 2 < 2 ^ 32 then
        .ok (some (UInt32.ofNat ((legacy_v.toNat - 35) / 2)))
      else .error (.Custom "Does not support chain_id >= 2^32") := by
  obtain ⟨chain_id, hextract, hvalue⟩ := extract_chain_id_of_le h
  unfold read_chain_id
  rw [hextract]
  dsimp only
  rw [← hvalue]
  by_cases hbig : chain_id > 0xffffffff
  · have hlt : 0xffffffff < chain_id.toNat := UInt64.lt_iff_toNat_lt.mp hbig
    rw [if_pos hbig, if_neg (by omega)]
  · have hlt : ¬0xffffffff < chain_id.toNat := fun hlt => hbig (UInt64.lt_iff_toNat_lt.mpr hlt)
    rw [if_neg hbig, if_pos (by omega)]
    rfl

theorem read_chain_id_of_lt {legacy_v : UInt64} (h : legacy_v.toNat < 35) :
    read_chain_id legacy_v = .ok none := by
  unfold read_chain_id
  rw [extract_chain_id_of_lt h]

/-- What is read from the number on the wire is what went into it. -/
theorem extract_add (v : UInt8) (hv : v = 0 ∨ v = 1) (chain_id : Option UInt32) :
    extract_standard_v (add_chain_replay_protection v (chain_id.map (·.toUInt64))) = v ∧
      extract_chain_id_from_legacy_v (add_chain_replay_protection v (chain_id.map (·.toUInt64))) =
        chain_id.map (·.toUInt64) ∧
      read_chain_id (add_chain_replay_protection v (chain_id.map (·.toUInt64))) = .ok chain_id := by
  have hnumber := toNat_add_chain_replay_protection v chain_id
  cases chain_id with
  | none =>
    rcases hv with rfl | rfl
    · exact ⟨rfl, rfl, rfl⟩
    · exact ⟨rfl, rfl, rfl⟩
  | some n =>
    have hn := n.toNat_lt
    have hv2 : v.toNat < 2 := by
      rcases hv with rfl | rfl
      · decide
      · decide
    dsimp only at hnumber
    have hle : 35 ≤ (add_chain_replay_protection v ((some n).map (·.toUInt64))).toNat := by omega
    have hhalf : ((add_chain_replay_protection v ((some n).map (·.toUInt64))).toNat - 35) / 2 =
        n.toNat := by
      omega
    obtain ⟨chain_id, hextract, hvalue⟩ := extract_chain_id_of_le hle
    refine ⟨?_, ?_, ?_⟩
    · apply UInt8.toNat_inj.mp
      rw [toNat_extract_standard_v hle]
      omega
    · rw [hextract, Option.map_some, Option.some_inj]
      apply UInt64.toNat_inj.mp
      rw [hvalue, hhalf, UInt32.toNat_toUInt64]
    · rw [read_chain_id_of_le hle, hhalf, if_pos hn, UInt32.ofNat_toNat]

/-- The numbers that the encoder can write for what is read from them. -/
def WrittenV (legacy_v : UInt64) : Prop :=
  legacy_v = 27 ∨ legacy_v = 28 ∨ legacy_v = 31 ∨ 35 ≤ legacy_v

/-- Any other number is invalid. -/
theorem extract_of_not_written {legacy_v : UInt64} (h : ¬WrittenV legacy_v) :
    extract_standard_v legacy_v = 4 ∧ read_chain_id legacy_v = .ok none := by
  have hnot : ¬legacy_v ≥ 35 := fun h35 => h (.inr (.inr (.inr h35)))
  constructor
  · unfold extract_standard_v
    rw [if_neg fun h27 => h (.inl h27), if_neg fun h28 => h (.inr (.inl h28)), if_neg hnot]
  · exact read_chain_id_of_lt (Nat.lt_of_not_le fun h35 => hnot (UInt64.le_iff_toNat_le.mpr h35))

/-- What the encoder writes for what was read. -/
theorem add_extract_iff {legacy_v : UInt64} {chain_id : Option UInt32}
    (hread : read_chain_id legacy_v = .ok chain_id) :
    add_chain_replay_protection (extract_standard_v legacy_v)
      (chain_id.map (·.toUInt64)) = legacy_v ↔
      WrittenV legacy_v := by
  have hnumber := toNat_add_chain_replay_protection (extract_standard_v legacy_v) chain_id
  rw [← UInt64.toNat_inj, hnumber]
  by_cases h35 : 35 ≤ legacy_v.toNat
  · rw [read_chain_id_of_le h35] at hread
    split at hread
    · rename_i hlt
      cases hread
      have hhalf : (UInt32.ofNat ((legacy_v.toNat - 35) / 2)).toNat = (legacy_v.toNat - 35) / 2 :=
        UInt32.toNat_ofNat_of_lt' hlt
      constructor
      · intro _
        exact .inr (.inr (.inr (UInt64.le_iff_toNat_le.mpr h35)))
      · intro _
        show _ + (35 + (UInt32.ofNat ((legacy_v.toNat - 35) / 2)).toNat * 2) = _
        rw [toNat_extract_standard_v h35, hhalf]
        omega
    · cases hread
  · rw [read_chain_id_of_lt (by omega)] at hread
    cases hread
    have hnot : ¬legacy_v ≥ 35 := fun h => h35 (UInt64.le_iff_toNat_le.mp h)
    dsimp only
    by_cases h27 : legacy_v = 27
    · subst h27
      exact ⟨fun _ => .inl rfl, fun _ => rfl⟩
    by_cases h28 : legacy_v = 28
    · subst h28
      exact ⟨fun _ => .inr (.inl rfl), fun _ => rfl⟩
    have hmarker : extract_standard_v legacy_v = 4 := by
      unfold extract_standard_v
      rw [if_neg h27, if_neg h28, if_neg hnot]
    rw [hmarker]
    constructor
    · intro h31
      exact .inr (.inr (.inl (UInt64.toNat_inj.mp h31.symm)))
    · rintro (h | h | rfl | h)
      · exact absurd h h27
      · exact absurd h h28
      · rfl
      · exact absurd h hnot

/-! ## The action -/

/-- The bytes that an action is written with. -/
def actionBytes : TxAction → Bytes
  | .Create => []
  | .Call address => address.to_bytes

theorem writes_action (action : TxAction) : Writes action (.data (actionBytes action)) := by
  cases action with
  | Create => exact writes_data fun _ => rfl
  | Call address => exact writes_data fun _ => rfl

theorem length_actionBytes (action : TxAction) : (actionBytes action).length ≤ 20 := by
  cases action with
  | Create => exact Nat.zero_le _
  | Call address => exact (length_bigEndian 20 _).le

theorem read_action_eq (raw : Bytes) : (Rlp.Readable.read ⟨raw⟩ : Except DecoderError TxAction) =
    if View.is_empty ⟨raw⟩ = true then pure TxAction.Create
    else Rlp.readData ⟨raw⟩ >>= fun address => pure (TxAction.Call address) := rfl

theorem read_action (action : TxAction) :
    Rlp.Readable.read ⟨encodeData (actionBytes action)⟩ = .ok action := by
  cases action with
  | Create => rfl
  | Call address =>
    have hlen : address.to_bytes.length = 20 := length_bigEndian 20 _
    have hread : Rlp.readData ⟨encodeData address.to_bytes⟩ = .ok address :=
      spelled_address.readData (by omega)
    have hheader : encodeData address.to_bytes = 0x94 :: address.to_bytes := by
      rw [Rlp.encodeData_header (by omega), hlen]
      rfl
    have hempty : ¬View.is_empty ⟨encodeData address.to_bytes⟩ = true := by
      rw [hheader]
      show ¬((0x94 : UInt8) == 0xc0 || (0x94 : UInt8) == 0x80) = true
      decide
    rw [actionBytes, read_action_eq, if_neg hempty, hread]
    rfl

/-- An item that is one byte long as its first byte says. -/
theorem eq_singleton_of_whole {l : UInt8} {rest : Bytes} (hwhole : Whole (l :: rest))
    (hl : l = 0x80 ∨ l = 0xc0) : l :: rest = [l] := by
  obtain ⟨p, hp, htotal⟩ := hwhole
  have hof := (Rlp.payload_info_eq_ok.mp hp).1
  have hp : p.total = 1 := by
    rcases hl with rfl | rfl
    · cases hof
      rfl
    · cases hof
      rfl
  rw [List.length_cons, hp] at htotal
  rw [List.length_eq_zero_iff.mp (by omega : rest.length = 0)]

/-- An action is read in one spelling only, apart from the empty list. -/
theorem eq_of_read_action {raw : Bytes} {action : TxAction} (hwhole : Whole raw)
    (hread : Rlp.Readable.read ⟨raw⟩ = .ok action) (hlist : raw ≠ [0xc0]) :
    raw = encodeData (actionBytes action) := by
  rw [read_action_eq] at hread
  split at hread
  · rename_i hempty
    cases hread
    rcases raw with _ | ⟨l, rest⟩
    · cases hempty
    have hl : l = 0xc0 ∨ l = 0x80 := by simpa [View.is_empty] using hempty
    rcases hl with rfl | rfl
    · exact absurd (eq_singleton_of_whole hwhole (.inr rfl)) hlist
    · exact eq_singleton_of_whole hwhole (.inl rfl)
  · rcases haddress : (Rlp.readData ⟨raw⟩ : Except DecoderError Address) with e | address
    · rw [haddress] at hread
      cases hread
    rw [haddress] at hread
    cases hread
    exact spelled_address.eq_encodeData hwhole haddress

/-! ## Writing a transaction -/

/-- The items of a transaction. -/
def txItems (tx : TransactionWithSignatureSerializePart) : List Item :=
  [.data (bytesOf tx.unsigned.nonce.toNat), .data (bytesOf tx.unsigned.gas_price.toNat),
    .data (bytesOf tx.unsigned.gas.toNat), .data (actionBytes tx.unsigned.action),
    .data (bytesOf tx.unsigned.value.toNat), .data tx.unsigned.data,
    .data (bytesOf (add_chain_replay_protection tx.v
      (tx.unsigned.chain_id.map (·.toUInt64))).toNat),
    .data (bytesOf tx.r.toNat), .data (bytesOf tx.s.toNat)]

theorem rlp_bytes_transaction (tx : TransactionWithSignature) :
    rlp_bytes tx = .ok (listOf ((txItems tx.transaction).map Rlp.encode)) := by
  rw [← Rlp.encode_list]
  refine Rlp.rlp_bytes_of_place (fun s => ?_ : ∀ s, _ = RlpStream.place (_, true) s)
  have hnumber : ∀ (v : U256) s, RlpStream.append v s = _ := fun v => writes_number v
  have haction : ∀ s, RlpStream.append tx.transaction.unsigned.action s = _ := writes_action _
  have hdata : ∀ s, RlpStream.append tx.transaction.unsigned.data s = _ := writes_bytes _
  have hlegacy : ∀ (v : UInt64) s, RlpStream.append v s = _ := fun v => writes_u64 v
  rw [← begin_list_items (n := 9) rfl (by decide)]
  obtain ⟨⟨⟨nonce, gas_price, gas, action, value, chain_id, data⟩, v, r, s'⟩, hash, rlp_size⟩ := tx
  show (s.begin_list 9 >>= fun s => s.append nonce >>= fun s => s.append gas_price >>= fun s =>
    s.append gas >>= fun s => s.append action >>= fun s => s.append value >>= fun s =>
    s.append data >>= fun s =>
    s.append (add_chain_replay_protection v (chain_id.map (·.toUInt64))) >>= fun s =>
    s.append r >>= fun s => s.append s') = _
  dsimp only at haction hdata
  simp only [hnumber, haction, hdata, hlegacy, pieces, txItems, List.map_cons,
    List.map_nil, placeAll,
    bind_pure]

/-- The bytes of a transaction whose number on the wire is one that the encoder writes. -/
theorem listOf_set_legacy {tx : TransactionWithSignatureSerializePart} {legacy_v : UInt64}
    (hchain : read_chain_id legacy_v = .ok tx.unsigned.chain_id)
    (hv : tx.v = extract_standard_v legacy_v)
    (hwritten : WrittenV legacy_v) :
    ((txItems tx).map Rlp.encode).set 6 (encodeData (bytesOf legacy_v.toNat)) =
      (txItems tx).map Rlp.encode := by
  have hadd := (add_extract_iff hchain).mpr hwritten
  rw [← hv] at hadd
  unfold txItems
  rw [hadd]
  rfl

/-- Every item of a transaction is a string that is not too long. -/
theorem txItems_whole {tx : TransactionWithSignatureSerializePart}
    (hdata : tx.unsigned.data.length < 2 ^ 63) :
    ((txItems tx).map Rlp.encode).flatten.length < 2 ^ 64 ∧
      ∀ raw ∈ (txItems tx).map Rlp.encode, Whole raw := by
  have hnumber : ∀ v : U256, (encodeData (bytesOf v.toNat)).length ≤ 41 := by
    intro v
    have hlen := length_bytesOf_word v
    have hle := length_encodeData_le (bytesOf v.toNat) (by omega)
    omega
  have haction := length_actionBytes tx.unsigned.action
  have haction' := length_encodeData_le (actionBytes tx.unsigned.action) (by omega)
  have hdata' := length_encodeData_le tx.unsigned.data (by omega)
  have hlegacy :=
    length_u64 (add_chain_replay_protection tx.v (tx.unsigned.chain_id.map (·.toUInt64)))
  have hlegacy' := length_encodeData_le (bytesOf (add_chain_replay_protection tx.v
    (tx.unsigned.chain_id.map (·.toUInt64))).toNat) (by omega)
  have hwhole : ∀ v : U256, Whole (encodeData (bytesOf v.toNat)) := fun v =>
    Rlp.whole_encodeData ((length_bytesOf_word v).trans_lt (by decide))
  constructor
  · have h0 := hnumber tx.unsigned.nonce
    have h1 := hnumber tx.unsigned.gas_price
    have h2 := hnumber tx.unsigned.gas
    have h4 := hnumber tx.unsigned.value
    have h7 := hnumber tx.r
    have h8 := hnumber tx.s
    simp only [txItems, List.map_cons, List.map_nil, Rlp.encode, List.flatten_cons,
      List.flatten_nil,
      List.length_append, List.length_nil]
    omega
  · intro raw hraw
    simp only [txItems, List.map_cons, List.map_nil, Rlp.encode, List.mem_cons, List.not_mem_nil,
      or_false] at hraw
    rcases hraw with rfl | rfl | rfl | rfl | rfl | rfl | rfl | rfl | rfl
    · exact hwhole _
    · exact hwhole _
    · exact hwhole _
    · exact Rlp.whole_encodeData (by omega)
    · exact hwhole _
    · exact Rlp.whole_encodeData (by omega)
    · exact Rlp.whole_encodeData (by omega)
    · exact hwhole _
    · exact hwhole _

/-! ## Reading a transaction -/

section
variable [Keccak]

/-- A transaction is read from a list of nine items. -/
theorem decode_listOf_iff {r0 r1 r2 r3 r4 r5 r6 r7 r8 : Bytes}
    (hsize : [r0, r1, r2, r3, r4, r5, r6, r7, r8].flatten.length < 2 ^ 64)
    (hitems : ∀ raw ∈ [r0, r1, r2, r3, r4, r5, r6, r7, r8], Whole raw)
    {tx : TransactionWithSignature} :
    TransactionWithSignature.decode (listOf [r0, r1, r2, r3, r4, r5, r6, r7, r8]) = .ok tx ↔
      ∃ nonce gas_price gas action value data legacy_v r s chain_id,
        Rlp.readData ⟨r0⟩ = .ok nonce ∧ Rlp.readData ⟨r1⟩ = .ok gas_price ∧
          Rlp.readData ⟨r2⟩ = .ok gas ∧
        Rlp.Readable.read ⟨r3⟩ = .ok action ∧ Rlp.readData ⟨r4⟩ = .ok value ∧
          Rlp.readData ⟨r5⟩ = .ok data ∧
        Rlp.readData ⟨r6⟩ = .ok legacy_v ∧ Rlp.readData ⟨r7⟩ = .ok r ∧ Rlp.readData ⟨r8⟩ = .ok s ∧
        read_chain_id legacy_v = .ok chain_id ∧
        tx = ⟨⟨⟨nonce, gas_price, gas, action, value, chain_id, data⟩,
          extract_standard_v legacy_v, r, s⟩,
          keccak (listOf [r0, r1, r2, r3, r4, r5, r6, r7, r8]),
          some (listOf [r0, r1, r2, r3, r4, r5, r6, r7, r8]).length⟩ := by
  have hcount := View.item_count_listOf hsize hitems
  have hpart : (Rlp.Readable.read ⟨listOf [r0, r1, r2, r3, r4, r5, r6, r7, r8]⟩ :
      Except DecoderError TransactionWithSignatureSerializePart) =
        (Rlp.readData ⟨r0⟩ >>= fun nonce => Rlp.readData ⟨r1⟩ >>= fun gas_price =>
          Rlp.readData ⟨r2⟩ >>= fun gas => Rlp.Readable.read ⟨r3⟩ >>= fun action =>
          Rlp.readData ⟨r4⟩ >>= fun value => Rlp.readData ⟨r5⟩ >>= fun data =>
          Rlp.readData ⟨r6⟩ >>= fun legacy_v => Rlp.readData ⟨r7⟩ >>= fun r =>
          Rlp.readData ⟨r8⟩ >>= fun s => read_chain_id legacy_v >>= fun chain_id =>
          pure ⟨⟨nonce, gas_price, gas, action, value, chain_id, data⟩,
            extract_standard_v legacy_v, r,
            s⟩) := by
    show (View.item_count ⟨listOf [r0, r1, r2, r3, r4, r5, r6, r7, r8]⟩ >>= _) = _
    rw [hcount]
    show (View.val_at ⟨listOf [r0, r1, r2, r3, r4, r5, r6, r7, r8]⟩ 0 >>= _) = _
    simp only [View.val_at_listOf hsize hitems (i := 0) rfl,
      View.val_at_listOf hsize hitems (i := 1) rfl,
      View.val_at_listOf hsize hitems (i := 2) rfl, View.val_at_listOf hsize hitems (i := 3) rfl,
      View.val_at_listOf hsize hitems (i := 4) rfl, View.val_at_listOf hsize hitems (i := 5) rfl,
      View.val_at_listOf hsize hitems (i := 6) rfl, View.val_at_listOf hsize hitems (i := 7) rfl,
      View.val_at_listOf hsize hitems (i := 8) rfl]
    rfl
  unfold TransactionWithSignature.decode View.as_val
  show (View.item_count ⟨listOf [r0, r1, r2, r3, r4, r5, r6, r7, r8]⟩ >>= fun n =>
    View.item_count ⟨listOf [r0, r1, r2, r3, r4, r5, r6, r7, r8]⟩ >>= fun n' => _) = _ ↔ _
  rw [hcount]
  show (Rlp.Readable.read ⟨listOf [r0, r1, r2, r3, r4, r5, r6, r7, r8]⟩ >>= _) = _ ↔ _
  rw [hpart]
  simp only [bind_assoc, bind_eq_ok]
  constructor
  · rintro ⟨nonce, h0, gas_price, h1, gas, h2, action, h3, value, h4, data, h5, legacy_v, h6,
      r, h7, s, h8,
      chain_id, h9, part, hpart, htx⟩
    cases hpart
    cases htx
    exact ⟨nonce, gas_price, gas, action, value, data, legacy_v, r, s, chain_id, h0, h1,
      h2, h3, h4, h5,
      h6, h7, h8, h9, rfl⟩
  · rintro ⟨nonce, gas_price, gas, action, value, data, legacy_v, r, s, chain_id, h0, h1,
      h2, h3, h4, h5,
      h6, h7, h8, h9, rfl⟩
    exact ⟨nonce, h0, gas_price, h1, gas, h2, action, h3, value, h4, data, h5, legacy_v, h6,
      r, h7, s, h8,
      chain_id, h9, _, rfl, rfl⟩

/-! ## What is written is read back -/

/-- A transaction with a signature of either parity is read back, with the hash of its bytes, and
    the number on the wire stands for the parity and the chain id. A vector holds less than `2 ^ 63`
    bytes. -/
theorem transactions_are_read_back (tx : Eip155Transaction)
    (hdata : tx.data.length < 2 ^ 63) (v : UInt8)
    (hv : v = 0 ∨ v = 1) (r s : U256) (hash : H256) (rlp_size : Option Nat) :
    (∃ bytes, rlp_bytes (⟨⟨tx, v, r, s⟩, hash, rlp_size⟩ : TransactionWithSignature) = .ok bytes ∧
      TransactionWithSignature.decode bytes =
        .ok ⟨⟨tx, v, r, s⟩, keccak bytes, some bytes.length⟩) ∧
      (add_chain_replay_protection v (tx.chain_id.map (·.toUInt64))).toNat =
        v.toNat + (match tx.chain_id with
          | some n => 35 + n.toNat * 2
          | none => 27) ∧
      extract_standard_v (add_chain_replay_protection v (tx.chain_id.map (·.toUInt64))) = v ∧
      extract_chain_id_from_legacy_v
        (add_chain_replay_protection v (tx.chain_id.map (·.toUInt64))) =
        tx.chain_id.map (·.toUInt64) ∧
      ∀ (v' : UInt8) (chain_id : Option UInt32), v' = 0 ∨ v' = 1 →
        add_chain_replay_protection v' (chain_id.map (·.toUInt64)) =
          add_chain_replay_protection v (tx.chain_id.map (·.toUInt64)) →
        v' = v ∧ chain_id = tx.chain_id := by
  obtain ⟨hstandard, hchain, hread⟩ := extract_add v hv tx.chain_id
  refine ⟨⟨_, rlp_bytes_transaction _, ?_⟩,
    toNat_add_chain_replay_protection v tx.chain_id, hstandard,
    hchain, ?_⟩
  · obtain ⟨hsize, hitems⟩ := @txItems_whole ⟨tx, v, r, s⟩ hdata
    have hnumber : ∀ v : U256, Rlp.readData ⟨encodeData (bytesOf v.toNat)⟩ = .ok v := fun v =>
      spelled_u256.readData ((length_bytesOf_word v).trans_lt (by decide))
    refine (decode_listOf_iff hsize hitems).mpr ⟨tx.nonce, tx.gas_price, tx.gas, tx.action,
      tx.value, tx.data,
      _, r, s, tx.chain_id, hnumber _, hnumber _, hnumber _, read_action _, hnumber _, ?_,
        ?_, hnumber _,
      hnumber _, hread, ?_⟩
    · exact spelled_bytes.readData (by show tx.data.length < _; omega)
    · exact spelled_u64.readData ((length_u64 _).trans_lt (by decide))
    · rw [hstandard]
      rfl
  · intro v' chain_id hv' heq
    obtain ⟨hstandard', -, hread'⟩ := extract_add v' hv' chain_id
    rw [heq] at hstandard' hread'
    exact ⟨hstandard'.symm.trans hstandard, Except.ok.inj (hread'.symm.trans hread)⟩

/-! ## What is read is what would be written -/

theorem decode_length {items : List Bytes} {tx : TransactionWithSignature}
    (hsize : items.flatten.length < 2 ^ 64) (hitems : ∀ raw ∈ items, Whole raw)
    (hdecode : TransactionWithSignature.decode (listOf items) = .ok tx) : items.length = 9 := by
  have hcount := View.item_count_listOf hsize hitems
  unfold TransactionWithSignature.decode View.as_val at hdecode
  obtain ⟨n, hn, hdecode⟩ := bind_eq_ok.mp hdecode
  obtain ⟨n', hn', hdecode⟩ := bind_eq_ok.mp hdecode
  rw [hcount] at hn hn'
  cases hn
  cases hn'
  split at hdecode
  · cases hdecode
  obtain ⟨part, hpart, -⟩ := bind_eq_ok.mp hdecode
  obtain ⟨n, hn, hpart⟩ := bind_eq_ok.mp hpart
  rw [hcount] at hn
  cases hn
  split at hpart
  · rename_i hnine
    exact hnine
  · cases hpart

/-- The items that a transaction was read from are in the spelling of the encoder, but for the
    number of the signature. -/
theorem spelled_of_decode {b : Bytes} {tx : TransactionWithSignature}
    (hdecode : TransactionWithSignature.decode b = .ok tx) (honly : OnlyItems b)
    (haction : View.item_at ⟨b⟩ 3 ≠ .ok ⟨[0xc0]⟩) :
    ∃ legacy_v : UInt64, View.val_at ⟨b⟩ 6 = .ok legacy_v ∧
      read_chain_id legacy_v = .ok tx.transaction.unsigned.chain_id ∧
      tx.transaction.v = extract_standard_v legacy_v ∧ tx.hash = keccak b ∧
        tx.rlp_size = some b.length ∧
      tx.transaction.unsigned.data.length < 2 ^ 63 ∧
      b = listOf (((txItems tx.transaction).map Rlp.encode).set 6
        (encodeData (bytesOf legacy_v.toNat))) := by
  obtain ⟨items, hitems, hslice, rfl⟩ := honly
  have hsize : items.flatten.length < 2 ^ 64 := by omega
  have hnine := decode_length hsize hitems hdecode
  match items, hnine with
  | [r0, r1, r2, r3, r4, r5, r6, r7, r8], _ =>
    obtain ⟨nonce, gas_price, gas, action, value, data, legacy_v, r, s, chain_id, h0, h1,
      h2, h3, h4, h5,
      h6, h7, h8, h9, rfl⟩ := (decode_listOf_iff hsize hitems).mp hdecode
    rw [View.item_at_listOf hsize hitems (i := 3) rfl] at haction
    have hlist : r3 ≠ [0xc0] := fun h => haction (by rw [h])
    refine ⟨legacy_v, (View.val_at_listOf hsize hitems (i := 6) rfl).trans h6, h9, rfl, rfl,
      rfl, ?_, ?_⟩
    · have e5 := spelled_bytes.eq_encodeData (hitems r5 (by simp)) h5
      have hle := Rlp.length_le_encodeData data
      simp only [List.flatten_cons, List.length_append, e5] at hslice
      show data.length < 2 ^ 63
      omega
    have e0 := spelled_u256.eq_encodeData (hitems r0 (by simp)) h0
    have e1 := spelled_u256.eq_encodeData (hitems r1 (by simp)) h1
    have e2 := spelled_u256.eq_encodeData (hitems r2 (by simp)) h2
    have e3 := eq_of_read_action (hitems r3 (by simp)) h3 hlist
    have e4 := spelled_u256.eq_encodeData (hitems r4 (by simp)) h4
    have e5 := spelled_bytes.eq_encodeData (hitems r5 (by simp)) h5
    have e6 := spelled_u64.eq_encodeData (hitems r6 (by simp)) h6
    have e7 := spelled_u256.eq_encodeData (hitems r7 (by simp)) h7
    have e8 := spelled_u256.eq_encodeData (hitems r8 (by simp)) h8
    rw [e0, e1, e2, e3, e4, e5, e6, e7, e8]
    rfl

/-- A transaction that is read is written as it was read just when the number of its signature is
    one that the encoder writes, if the bytes are a list of items and nothing else, and the action
    is not spelled as an empty list. Then its hash and size are those of the bytes it would be
    written with, and no other bytes of the kind are read as the same transaction. An invalid number
    is read as the marker. -/
theorem accepted_transactions_are_canonical (b : Bytes) (tx : TransactionWithSignature)
    (hdecode : TransactionWithSignature.decode b = .ok tx) (honly : OnlyItems b)
    (haction : View.item_at ⟨b⟩ 3 ≠ .ok ⟨[0xc0]⟩) :
    ∃ legacy_v : UInt64, View.val_at ⟨b⟩ 6 = .ok legacy_v ∧
      (rlp_bytes tx = .ok b ↔ WrittenV legacy_v) ∧
      (¬WrittenV legacy_v → tx.transaction.v = 4 ∧ tx.transaction.unsigned.chain_id = none) ∧
      (WrittenV legacy_v → tx.hash = keccak b ∧ tx.compute_hash = .ok tx ∧
        tx.rlp_size = some b.length ∧
        ∀ (b' : Bytes) (tx' : TransactionWithSignature) (legacy_v' : UInt64),
          TransactionWithSignature.decode b' = .ok tx' → OnlyItems b' →
          View.item_at ⟨b'⟩ 3 ≠ .ok ⟨[0xc0]⟩ → View.val_at ⟨b'⟩ 6 = .ok legacy_v' →
            WrittenV legacy_v' →
          tx'.transaction = tx.transaction → b' = b) := by
  obtain ⟨legacy_v, hlegacy, hchain, hv, hhash, hrlp, hdata, hb⟩ :=
    spelled_of_decode hdecode honly haction
  have hwritten : WrittenV legacy_v → rlp_bytes tx = .ok b := by
    intro h
    rw [rlp_bytes_transaction, hb, listOf_set_legacy hchain hv h]
  refine ⟨legacy_v, hlegacy, ⟨fun h => ?_, hwritten⟩, fun h => ?_, fun h => ⟨hhash, ?_, hrlp, ?_⟩⟩
  · obtain ⟨hsize, hitems⟩ := txItems_whole hdata
    rw [rlp_bytes_transaction] at h
    have hread : View.val_at ⟨b⟩ 6 = .ok (add_chain_replay_protection tx.transaction.v
        (tx.transaction.unsigned.chain_id.map (·.toUInt64))) := by
      rw [← Except.ok.inj h, View.val_at_listOf hsize hitems (i := 6) rfl]
      exact spelled_u64.readData ((length_u64 _).trans_lt (by decide))
    have hadd := Except.ok.inj (hread.symm.trans hlegacy)
    rw [hv] at hadd
    exact (add_extract_iff hchain).mp hadd
  · obtain ⟨hmarker, hnone⟩ := extract_of_not_written h
    rw [hnone] at hchain
    exact ⟨hv.trans hmarker, (Except.ok.inj hchain).symm⟩
  · unfold TransactionWithSignature.compute_hash
    rw [hwritten h]
    show Except.ok { tx with hash := keccak b } = .ok tx
    rw [← hhash]
  · intro b' tx' legacy_v' hdecode' honly' haction' hlegacy' hwritten' htx
    obtain ⟨legacy_v'', hlegacy'', hchain', hv', -, -, -, hb'⟩ :=
      spelled_of_decode hdecode' honly' haction'
    cases Except.ok.inj (hlegacy''.symm.trans hlegacy')
    rw [hb, hb', listOf_set_legacy hchain hv h, listOf_set_legacy hchain' hv' hwritten', htx]

end

/-! ## Fixed transactions -/

/-- A transaction on the wire with the given items for the action and the signature, and nothing in
    the other fields. -/
def wireTransaction (action legacy_v : UInt8) : Bytes :=
  [0xc9, 0x80, 0x80, 0x80, action, 0x80, 0x80, legacy_v, 1, 1]

/-- What it is read as. -/
def plainTransaction (v : UInt8) : TransactionWithSignatureSerializePart :=
  ⟨⟨0, 0, 0, .Create, 0, none, []⟩, v, 1, 1⟩

theorem written_plainTransaction :
    listOf ((txItems (plainTransaction 0)).map Rlp.encode) = wireTransaction 0x80 27 ∧
      listOf ((txItems (plainTransaction 4)).map Rlp.encode) = wireTransaction 0x80 31 := by
  decide +kernel

/-- The number 29 is invalid and is written as 31, an empty list for the action is written as an
    empty string, and the head of a string after the list, whose bytes are not there, is not
    written. -/
theorem other_spellings_are_accepted :
    ¬∃ b ∈ [wireTransaction 0x80 29, wireTransaction 0xc0 27, wireTransaction 0x80 27 ++ [0x81]],
      ∃ _ : Keccak,
      ∀ tx, TransactionWithSignature.decode b = .ok tx → rlp_bytes tx = .ok b := by
  rintro ⟨b, hb, _, hwritten⟩
  simp only [List.mem_cons, List.not_mem_nil, or_false] at hb
  rcases hb with rfl | rfl | rfl
  · have h := hwritten ⟨plainTransaction 4, _, _⟩ rfl
    rw [rlp_bytes_transaction, written_plainTransaction.2] at h
    exact absurd (Except.ok.inj h) (by decide)
  · have h := hwritten ⟨plainTransaction 0, _, _⟩ rfl
    rw [rlp_bytes_transaction, written_plainTransaction.1] at h
    exact absurd (Except.ok.inj h) (by decide)
  · have h := hwritten ⟨plainTransaction 0, _, _⟩ rfl
    rw [rlp_bytes_transaction, written_plainTransaction.1] at h
    exact absurd (Except.ok.inj h) (by decide)

section
attribute [local instance] keccakOfEmpty

/-- The items on the wire. -/
def wireItems : List Bytes := [[0x80], [0x80], [0x80], [0x80], [0x80], [0x80], [27], [1], [1]]

theorem wireItems_whole : ∀ raw ∈ wireItems, Whole raw := by
  intro raw hraw
  unfold wireItems at hraw
  simp only [List.mem_cons, List.not_mem_nil, or_false] at hraw
  have hstring : ∀ bytes : Bytes, bytes.length < 2 ^ 64 → Whole (encodeData bytes) :=
    fun _ => Rlp.whole_encodeData
  rcases hraw with rfl | rfl | rfl | rfl | rfl | rfl | rfl | rfl | rfl
  · exact hstring [] (by decide)
  · exact hstring [] (by decide)
  · exact hstring [] (by decide)
  · exact hstring [] (by decide)
  · exact hstring [] (by decide)
  · exact hstring [] (by decide)
  · exact hstring [27] (by decide)
  · exact hstring [1] (by decide)
  · exact hstring [1] (by decide)

theorem wire_transaction_is_written_as_read : ∃ tx,
    TransactionWithSignature.decode (wireTransaction 0x80 27) = .ok tx ∧
      rlp_bytes tx = .ok (wireTransaction 0x80 27) := by
  refine ⟨⟨plainTransaction 0, _, _⟩, rfl, ?_⟩
  have hwire : wireTransaction 0x80 27 = listOf wireItems := by decide
  have haction : View.item_at ⟨wireTransaction 0x80 27⟩ 3 = .ok ⟨[0x80]⟩ := by
    rw [hwire]
    exact View.item_at_listOf (by decide) wireItems_whole rfl
  have hstring : View.item_at ⟨wireTransaction 0x80 27⟩ 3 ≠ .ok ⟨[0xc0]⟩ := by
    rw [haction]
    intro h
    exact absurd (congrArg View.as_raw (Except.ok.inj h)) (by decide)
  obtain ⟨legacy_v, hlegacy, hiff, -⟩ :=
    accepted_transactions_are_canonical (wireTransaction 0x80 27)
    ⟨plainTransaction 0, _, _⟩ rfl ⟨wireItems, wireItems_whole, by decide, hwire⟩ hstring
  have hvalue : View.val_at ⟨wireTransaction 0x80 27⟩ 6 = .ok (27 : UInt64) := by
    have hread : Rlp.readData ⟨encodeData (bytesOf (27 : UInt64).toNat)⟩ = .ok (27 : UInt64) :=
      spelled_u64.readData (by decide +kernel)
    have hbytes : encodeData (bytesOf (27 : UInt64).toNat) = [27] := by decide +kernel
    rw [hwire, View.val_at_listOf (by decide) wireItems_whole (i := 6) rfl, ← hbytes]
    exact hread
  cases Except.ok.inj (hvalue.symm.trans hlegacy)
  exact hiff.mpr (.inl rfl)

/-- A call with data and a chain id. -/
def chainedCall : Eip155Transaction where
  nonce := 3
  gas_price := 20000000000
  gas := 21000
  action := .Call 9
  value := 5
  chain_id := some 1030
  data := [0xa9, 0x05, 0x9c, 0xbb]

/-- It is read back with its parity and its chain id, which the number `1 + 35 + 2 * 1030` stands
    for. -/
theorem chained_call_is_read_back : ∃ bytes,
    rlp_bytes (⟨⟨chainedCall, 1, 7, 8⟩, 0, none⟩ : TransactionWithSignature) = .ok bytes ∧
      TransactionWithSignature.decode bytes =
        .ok ⟨⟨chainedCall, 1, 7, 8⟩, keccak bytes, some bytes.length⟩ ∧
      (add_chain_replay_protection 1 (some 1030)).toNat = 2096 := by
  obtain ⟨⟨bytes, hbytes, hdecode⟩, hnumber, -⟩ :=
    transactions_are_read_back chainedCall (by decide) 1 (.inr rfl) 7 8 0 none
  exact ⟨bytes, hbytes, hdecode, hnumber⟩

end

end CfxEvm
