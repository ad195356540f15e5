import CfxEvm.Primitives.BlockHeader
import CfxEvm.Primitives.Proofs.RlpTypesProofs

/-!
# Proofs: block headers on the wire

A header is read back from its bytes just when the first custom item cannot be taken for the
reference that is not there.
-/

open Lib
open Lib.Rlp (Item Misuse DecoderError RlpStream View Writes Whole bytesOf numberOf encodeData
  listOf pieces
  writes_data writes_option)
open Lib.Rlp.RlpStream (place placeAll begin_list_placeAll)

namespace CfxEvm

namespace BlockHeader

/-! ## Writing -/

/-- The item of a hash. -/
def hashItem (h : FixedHash) : Item := .data (bigEndian 32 h.hash.toNat)

/-- The item of an optional hash. -/
def optionItem (h : Option FixedHash) : Item := .list (h.toList.map hashItem)

/-- The items before the nonce. -/
def fieldItems (p : BlockHeaderRlpPart) : List Item :=
  [hashItem p.parent_hash, .data (bytesOf p.height.toNat), .data (bytesOf p.timestamp.toNat),
    .data p.author.to_bytes, hashItem p.transactions_root, hashItem p.deferred_state_root,
    hashItem p.deferred_receipts_root, hashItem p.deferred_logs_bloom_hash,
    .data (bytesOf p.blame.toNat), .data (bytesOf p.difficulty.toNat),
    .data (bytesOf (if p.adaptive then (1 : UInt8) else 0).toNat),
    .data (bytesOf p.gas_limit.toNat),
    .list (p.referee_hashes.map hashItem)]

/-- The reference, if there is one. -/
def referenceItems (p : BlockHeaderRlpPart) : List Item :=
  p.pos_reference.toList.map fun h => optionItem (some h)

theorem writes_fixed_hash (h : FixedHash) : Writes h (hashItem h) := writes_hash h

theorem append_fields_eq (self : BlockHeader) (s : RlpStream) :
    self.append_fields s = placeAll (pieces (fieldItems self.rlp_part)) s := by
  have hhash : ∀ (h : FixedHash) s, RlpStream.append h s = _ := fun h => writes_fixed_hash h
  have hu64 : ∀ (v : UInt64) s, RlpStream.append v s = _ := fun v => writes_u64 v
  have hu32 : ∀ (v : UInt32) s, RlpStream.append v s = _ := fun v => writes_u32 v
  have hu8 : ∀ (v : UInt8) s, RlpStream.append v s = _ := fun v => writes_u8 v
  have hnumber : ∀ (v : U256) s, RlpStream.append v s = _ := fun v => writes_number v
  have haddress : ∀ (a : Address) s, RlpStream.append a s = _ := fun a => writes_address a
  have hlist : ∀ s, RlpStream.append_list self.rlp_part.referee_hashes s = _ :=
    Rlp.append_list_eq fun h _ => writes_fixed_hash h
  unfold append_fields fieldItems
  simp only [hhash, hu64, hu32, hu8, hnumber, haddress, hlist, pieces, List.map_cons,
    List.map_nil, placeAll,
    bind_pure]
  rfl

/-- What comes after the fixed part: the reference, if there is one, and the custom items. -/
def tailPieces (p : BlockHeaderRlpPart) : List (Bytes × Bool) :=
  pieces (referenceItems p) ++ p.custom.map fun b => (b, false)

theorem length_tailPieces (p : BlockHeaderRlpPart) :
    (tailPieces p).length = p.pos_reference.isSome.toNat + p.custom.length := by
  unfold tailPieces referenceItems
  rw [List.length_append, Rlp.length_pieces, List.length_map, List.length_map]
  cases p.pos_reference <;> rfl

/-- The tail goes to an open list that it just fills. -/
theorem append_tail_eq (self : BlockHeader) {payload buffer : Bytes} {k n : Nat}
    {ls : List Rlp.ListInfo}
    {finished : Bool} (hlen : k + (tailPieces self.rlp_part).length = n) :
    self.append_tail ⟨⟨payload, k, n⟩ :: ls, buffer, finished⟩ =
      placeAll (tailPieces self.rlp_part) ⟨⟨payload, k, n⟩ :: ls, buffer, finished⟩ := by
  have hoption : ∀ s, RlpStream.append self.rlp_part.pos_reference s = _ :=
    writes_option writes_fixed_hash _
  rw [length_tailPieces] at hlen
  unfold append_tail tailPieces
  rw [Rlp.RlpStream.placeAll_append]
  rcases hreference : self.rlp_part.pos_reference with _ | h
  · rw [hreference] at hlen
    have hnone : referenceItems self.rlp_part = [] := by rw [referenceItems, hreference]; rfl
    rw [hnone]
    exact Rlp.RlpStream.foldlM_append_raw (by simpa using hlen)
  · rw [hreference] at hlen hoption
    have hsome : referenceItems self.rlp_part = [optionItem (some h)] := by
      rw [referenceItems, hreference]
      rfl
    have hplace : ∀ s, placeAll (pieces [optionItem (some h)]) s =
        place (Rlp.encode (optionItem (some h)), true) s := fun s => bind_pure _
    have hoption : ∀ s, RlpStream.append (some h) s =
        place (Rlp.encode (optionItem (some h)), true) s :=
      hoption
    rw [hsome, hplace]
    show (RlpStream.append (some h) _ >>= _) = _
    rw [hoption]
    by_cases hcustom : self.rlp_part.custom = []
    · rw [hcustom]
      rfl
    · have hpos := List.length_pos_iff.mpr hcustom
      have hlen : k + 1 + self.rlp_part.custom.length = n := by
        rw [Option.isSome_some, Bool.toNat_true] at hlen
        omega
      rw [Rlp.RlpStream.place_next _ (by omega)]
      exact Rlp.RlpStream.foldlM_append_raw hlen

theorem append_tail_nil (self : BlockHeader) (hnil : tailPieces self.rlp_part = [])
    (s : RlpStream) :
    self.append_tail s = pure s := by
  have hlen := length_tailPieces self.rlp_part
  rw [hnil, List.length_nil] at hlen
  have hcustom : self.rlp_part.custom = [] := List.length_eq_zero_iff.mp (by omega)
  have hreference : self.rlp_part.pos_reference = none := by
    rcases hreference : self.rlp_part.pos_reference with _ | h
    · rfl
    · rw [hreference, Option.isSome_some, Bool.toNat_true] at hlen
      omega
  unfold append_tail
  rw [hcustom, hreference]
  rfl

/-- The bytes of the items of a header, with `items` as its fixed part. -/
def rawItems (items : List Item) (p : BlockHeaderRlpPart) : List Bytes :=
  (items ++ referenceItems p).map Rlp.encode ++ p.custom

/-- A list with a fixed part and the tail. -/
theorem begin_list_tail (self : BlockHeader) (items : List Item) (s : RlpStream)
    (hpos : 0 < items.length) :
    (s.begin_list (items.length + (tailPieces self.rlp_part).length) >>= fun s =>
      placeAll (pieces items) s >>= self.append_tail) =
        place (listOf (rawItems items self.rlp_part), true) s := by
  have hraw : (pieces items ++ tailPieces self.rlp_part).map Prod.fst =
      rawItems items self.rlp_part := by
    have hid : (self.rlp_part.custom.map fun b => (b, false)).map Prod.fst =
        self.rlp_part.custom := by
      rw [List.map_map]
      exact List.map_id _
    rw [tailPieces, rawItems, List.map_append, List.map_append, Rlp.map_fst_pieces,
      Rlp.map_fst_pieces, hid,
      List.map_append, List.append_assoc]
  have hlen : (pieces items ++ tailPieces self.rlp_part).length =
      items.length + (tailPieces self.rlp_part).length := by
    rw [List.length_append, Rlp.length_pieces]
  rw [← hraw, ← begin_list_placeAll hlen (by omega), Rlp.RlpStream.begin_list_pos (by omega)]
  show (placeAll (pieces items) _ >>= self.append_tail) = placeAll (pieces items ++ tailPieces _) _
  rw [Rlp.RlpStream.placeAll_append]
  by_cases hnil : tailPieces self.rlp_part = []
  · rw [hnil]
    exact bind_congr (append_tail_nil self hnil)
  · have htail := List.length_pos_iff.mpr hnil
    obtain ⟨finished, hwithin⟩ := @Rlp.RlpStream.placeAll_within [] s.buffer 0
      (items.length + (tailPieces self.rlp_part).length) s.unfinished_lists false (pieces items)
      (by rw [Rlp.length_pieces]; omega)
    rw [hwithin]
    exact append_tail_eq self (by rw [Rlp.length_pieces]; omega)

/-- The fixed part of a header. -/
def headItems (p : BlockHeaderRlpPart) : List Item :=
  fieldItems p ++ [.data (bytesOf p.nonce.toNat)]

theorem rlp_eq (self : BlockHeader) :
    self.rlp = .ok (listOf (rawItems (headItems self.rlp_part) self.rlp_part)) := by
  have hnonce : ∀ s, RlpStream.append self.rlp_part.nonce s = _ := writes_number _
  have hstream : ∀ s, self.stream_rlp s =
      place (listOf (rawItems (headItems self.rlp_part) self.rlp_part), true) s := by
    intro s
    have hlen : HEADER_LIST_MIN_LEN + 1 + self.rlp_part.pos_reference.isSome.toNat +
        self.rlp_part.custom.length =
          (headItems self.rlp_part).length + (tailPieces self.rlp_part).length := by
      rw [length_tailPieces]
      exact Nat.add_assoc _ _ _
    rw [← begin_list_tail self (headItems self.rlp_part) s (Nat.succ_pos _), ← hlen]
    unfold stream_rlp headItems pieces
    simp only [append_fields_eq, hnonce, List.map_append, Rlp.RlpStream.placeAll_append,
      List.map_cons,
      List.map_nil, placeAll, bind_assoc, pure_bind]
    rfl
  unfold rlp
  rw [hstream, Rlp.RlpStream.place_new]
  rfl

theorem rlp_with_pow_hash_eq (self : BlockHeader) :
    self.rlp_with_pow_hash =
      .ok (listOf (rawItems (headItems self.rlp_part ++ [optionItem self.pow_hash])
        self.rlp_part)) := by
  have hnonce : ∀ s, RlpStream.append self.rlp_part.nonce s = _ := writes_number _
  have hpow : ∀ s, RlpStream.append self.pow_hash s =
      place (Rlp.encode (optionItem self.pow_hash), true) s :=
    writes_option writes_fixed_hash _
  have hstream : ∀ s, self.stream_rlp_with_pow_hash s =
      place (listOf (rawItems (headItems self.rlp_part ++ [optionItem self.pow_hash])
        self.rlp_part), true)
        s := by
    intro s
    have hlen : HEADER_LIST_MIN_LEN + 2 + self.rlp_part.pos_reference.isSome.toNat +
        self.rlp_part.custom.length =
          (headItems self.rlp_part ++ [optionItem self.pow_hash]).length +
            (tailPieces self.rlp_part).length := by
      rw [length_tailPieces]
      exact Nat.add_assoc _ _ _
    rw [← begin_list_tail self (headItems self.rlp_part ++ [optionItem self.pow_hash]) s
      (Nat.succ_pos _),
      ← hlen]
    unfold stream_rlp_with_pow_hash headItems pieces
    simp only [append_fields_eq, hnonce, hpow, List.map_append, Rlp.RlpStream.placeAll_append,
      List.map_cons,
      List.map_nil, placeAll, bind_assoc, pure_bind]
    rfl
  unfold rlp_with_pow_hash
  rw [hstream, Rlp.RlpStream.place_new]
  rfl

/-! ## Reading the fixed part -/

theorem read_hash (h : FixedHash) : Rlp.readData ⟨Rlp.encode (hashItem h)⟩ = .ok h := by
  have hlen := length_bigEndian 32 h.hash.toNat
  rw [hashItem, Rlp.encode]
  exact Rlp.readData_encodeData (by omega) (decode_hash h.hash)

/-- A custom item is one well-formed item. -/
def WellFormed (entry : Bytes) : Prop := ∃ item : Item, entry = Rlp.encode item

variable {p : BlockHeaderRlpPart} {items extra : List Item}

theorem rawItems_whole (hcustom : ∀ entry ∈ p.custom, WellFormed entry)
    (hsize : (rawItems items p).flatten.length < 2 ^ 64) : ∀ raw ∈ rawItems items p, Whole raw := by
  intro raw hraw
  have hle := (List.sublist_flatten_of_mem hraw).length_le
  have hitem : ∃ item : Item, raw = Rlp.encode item := by
    rcases List.mem_append.mp hraw with hraw | hraw
    · obtain ⟨item, -, rfl⟩ := List.mem_map.mp hraw
      exact ⟨item, rfl⟩
    · exact hcustom raw hraw
  obtain ⟨item, rfl⟩ := hitem
  exact Rlp.whole_encode (by omega)

/-- The fields are read back. -/
theorem read_fields_eq (hsize : (rawItems (headItems p ++ extra) p).flatten.length < 2 ^ 64)
    (hwhole : ∀ raw ∈ rawItems (headItems p ++ extra) p, Whole raw) :
    read_fields ⟨listOf (rawItems (headItems p ++ extra) p)⟩ =
      .ok { p with custom := [], pos_reference := none } := by
  have hhashes : View.as_list ⟨Rlp.encode (.list (p.referee_hashes.map hashItem))⟩ =
      .ok p.referee_hashes := by
    have hmem : Rlp.encode (.list (p.referee_hashes.map hashItem)) ∈
        rawItems (headItems p ++ extra) p :=
      List.mem_of_getElem? (i := 12) rfl
    have hle := (List.sublist_flatten_of_mem hmem).length_le
    exact Rlp.as_list_encode (by omega) fun h _ => read_hash h
  have hlist : View.list_at ⟨listOf (rawItems (headItems p ++ extra) p)⟩ 12 =
      .ok p.referee_hashes := by
    unfold View.list_at
    rw [View.item_at_listOf hsize hwhole (i := 12) rfl]
    exact hhashes
  have hat {α : Type} [Rlp.Readable α] (i : Nat) (raw : Bytes) (v : α)
      (hraw : (rawItems (headItems p ++ extra) p)[i]? = some raw)
      (hread : Rlp.Readable.read ⟨raw⟩ = .ok v) :
      View.val_at ⟨listOf (rawItems (headItems p ++ extra) p)⟩ i = .ok v :=
    (View.val_at_listOf hsize hwhole hraw).trans hread
  have hadaptive : ((if p.adaptive then (1 : UInt8) else 0) == 1) = p.adaptive := by
    cases p.adaptive <;> rfl
  unfold read_fields
  refine bind_eq_ok.mpr ⟨_, hat 0 _ p.parent_hash rfl (read_hash _), ?_⟩
  refine bind_eq_ok.mpr ⟨_, hat 1 _ p.height rfl (read_u64 _), ?_⟩
  refine bind_eq_ok.mpr ⟨_, hat 2 _ p.timestamp rfl (read_u64 _), ?_⟩
  refine bind_eq_ok.mpr ⟨_, hat 3 _ p.author rfl (read_address _), ?_⟩
  refine bind_eq_ok.mpr ⟨_, hat 4 _ p.transactions_root rfl (read_hash _), ?_⟩
  refine bind_eq_ok.mpr ⟨_, hat 5 _ p.deferred_state_root rfl (read_hash _), ?_⟩
  refine bind_eq_ok.mpr ⟨_, hat 6 _ p.deferred_receipts_root rfl (read_hash _), ?_⟩
  refine bind_eq_ok.mpr ⟨_, hat 7 _ p.deferred_logs_bloom_hash rfl (read_hash _), ?_⟩
  refine bind_eq_ok.mpr ⟨_, hat 8 _ p.blame rfl (read_u32 _), ?_⟩
  refine bind_eq_ok.mpr ⟨_, hat 9 _ p.difficulty rfl (read_number _), ?_⟩
  refine bind_eq_ok.mpr ⟨_, hat 10 _ (if p.adaptive then (1 : UInt8) else 0) rfl (read_u8 _), ?_⟩
  refine bind_eq_ok.mpr ⟨_, hat 11 _ p.gas_limit rfl (read_number _), ?_⟩
  refine bind_eq_ok.mpr ⟨_, hlist, ?_⟩
  refine bind_eq_ok.mpr ⟨_, hat 13 _ p.nonce rfl (read_number _), ?_⟩
  show Except.ok _ = Except.ok _
  rw [hadaptive]

/-! ## Reading the tail -/

/-- There is no reference, and the first custom item is a list of one string of 32 bytes. -/
def Ambiguous (p : BlockHeaderRlpPart) : Prop :=
  p.pos_reference = none ∧ ∃ (hash : Bytes) (rest : List Bytes), hash.length = 32 ∧
    p.custom = ([0xe1, 0xa0] ++ hash) :: rest

theorem encode_hash_list {hash : Bytes} (hlen : hash.length = 32) :
    Rlp.encode (.list [.data hash]) = [0xe1, 0xa0] ++ hash := by
  have hdata : Rlp.encode (.data hash) = 0xa0 :: hash := by
    rw [Rlp.encode, Rlp.encodeData_header (by omega), hlen]
    rfl
  rw [Rlp.encode_list, List.map_cons, List.map_nil, hdata, listOf, List.flatten_cons,
    List.flatten_nil,
    List.append_nil, List.length_cons, hlen]
  rfl

/-- A hash is read from a string of 32 bytes. -/
theorem read_hash_iff {item : Item} (hsize : (Rlp.encode item).length < 2 ^ 64) :
    (∃ h : FixedHash, Rlp.Readable.read ⟨Rlp.encode item⟩ = .ok h) ↔
      ∃ hash : Bytes, hash.length = 32 ∧ item = .data hash := by
  constructor
  · rintro ⟨h, hread⟩
    have hread : Rlp.readData ⟨Rlp.encode item⟩ = .ok h := hread
    unfold Rlp.readData at hread
    obtain ⟨bytes, hbytes, henc, hdecode⟩ :=
      Rlp.eq_encodeData_of_decode_value (Rlp.whole_encode hsize) hread
    have hitem : item = .data bytes := Rlp.encode_injective hsize (by rw [henc, Rlp.encode])
    refine ⟨bytes, ?_, hitem⟩
    change (if bytes.length < 32 then Except.error DecoderError.RlpIsTooShort
      else if 32 < bytes.length then Except.error DecoderError.RlpIsTooBig
      else Except.ok (FixedHash.mk (BitVec.ofNat 256 (ofBigEndian bytes)))) = _ at hdecode
    split at hdecode
    · cases hdecode
    split at hdecode
    · cases hdecode
    omega
  · rintro ⟨hash, hlen, rfl⟩
    refine ⟨⟨BitVec.ofNat 256 (ofBigEndian hash)⟩, ?_⟩
    rw [Rlp.encode]
    refine Rlp.readData_encodeData (by omega) ?_
    show (if hash.length < 32 then Except.error DecoderError.RlpIsTooShort
      else if 32 < hash.length then Except.error DecoderError.RlpIsTooBig
      else Except.ok (FixedHash.mk (BitVec.ofNat 256 (ofBigEndian hash)))) = _
    rw [if_neg (by omega), if_neg (by omega)]

theorem read_option {h : Option FixedHash} (hsize : (Rlp.encode (optionItem h)).length < 2 ^ 64) :
    Rlp.Readable.read ⟨Rlp.encode (optionItem h)⟩ = .ok h := by
  cases h with
  | none => rfl
  | some h => exact (Rlp.read_option_eq_some hsize).mpr ⟨hashItem h, rfl, read_hash h⟩

/-- The items after the fixed part. -/
def tailItems (p : BlockHeaderRlpPart) : List Bytes := (referenceItems p).map Rlp.encode ++ p.custom

theorem rawItems_eq : rawItems items p = items.map Rlp.encode ++ tailItems p := by
  rw [rawItems, tailItems, List.map_append, List.append_assoc]

theorem rawItems_getElem? (i : Nat) :
    (rawItems items p)[items.length + i]? = (tailItems p)[i]? := by
  rw [rawItems_eq, List.getElem?_append_right (by rw [List.length_map]; omega), List.length_map,
    Nat.add_sub_cancel_left]

section
variable (hsize : (rawItems items p).flatten.length < 2 ^ 64)
  (hwhole : ∀ raw ∈ rawItems items p, Whole raw)
include hsize hwhole

theorem read_custom_eq {j : Nat} (hj : j ≤ (tailItems p).length) :
    read_custom ⟨listOf (rawItems items p)⟩ (items.length + j) = .ok ((tailItems p).drop j) := by
  have hlen : (rawItems items p).length - (items.length + j) = ((tailItems p).drop j).length := by
    rw [rawItems_eq, List.length_append, List.length_map, List.length_drop]
    omega
  unfold read_custom
  rw [View.item_count_listOf hsize hwhole]
  show (List.range' (items.length + j) ((rawItems items p).length - (items.length + j))).mapM _ = _
  rw [hlen]
  refine Rlp.mapM_range'_eq_ok _ fun i raw hraw => ?_
  have hget : (rawItems items p)[items.length + j + i]? = some raw := by
    rw [Nat.add_assoc, rawItems_getElem?, ← hraw, List.getElem?_drop]
  split
  · rw [View.item_anew, View.item_from_listOf hsize hwhole _ hget]
    rfl
  · rw [View.item_at_listOf hsize hwhole hget]
    rfl

theorem read_pos_reference_of_item {raw : Bytes} (hraw : (tailItems p)[0]? = some raw) :
    read_pos_reference ⟨listOf (rawItems items p)⟩ items.length =
      match (Rlp.Readable.read ⟨raw⟩ : Except DecoderError (Option FixedHash)) with
      | .ok pos_reference => pos_reference
      | .error _ => none := by
  have hget : (rawItems items p)[items.length]? = some raw := by
    rw [← hraw, ← @rawItems_getElem? p items]
    rfl
  have hval : (View.val_at ⟨listOf (rawItems items p)⟩ items.length :
    Except DecoderError (Option FixedHash)) =
      Rlp.Readable.read ⟨raw⟩ := View.val_at_listOf hsize hwhole hget
  unfold read_pos_reference
  rcases hread : (Rlp.Readable.read ⟨raw⟩ : Except DecoderError (Option FixedHash)) with
    e | pos_reference
  · rw [hread] at hval
    simp only [hval]
  · rw [hread] at hval
    simp only [hval]

/-- The reference is read back, unless the first custom item is taken for one. -/
theorem read_pos_reference_eq (hcustom : ∀ entry ∈ p.custom, WellFormed entry)
    (hnot : ¬Ambiguous p) :
    read_pos_reference ⟨listOf (rawItems items p)⟩ items.length = p.pos_reference := by
  rcases hreference : p.pos_reference with _ | h
  · have htail : tailItems p = p.custom := by rw [tailItems, referenceItems, hreference]; rfl
    rcases hentries : p.custom with _ | ⟨entry, rest⟩
    · have hend : View.item_at ⟨listOf (rawItems items p)⟩ items.length =
          .error .RlpIsTooShort := by
        have hraw : rawItems items p = items.map Rlp.encode := by
          rw [rawItems_eq, htail, hentries, List.append_nil]
        have hlast := View.item_at_end hsize hwhole
        rw [hraw, List.length_map] at hlast
        rw [hraw, hlast]
      unfold read_pos_reference View.val_at
      rw [hend]
      rfl
    · have hget : (tailItems p)[0]? = some entry := by rw [htail, hentries]; rfl
      obtain ⟨item, rfl⟩ := hcustom entry (by rw [hentries]; exact List.mem_cons_self)
      have hitem : (Rlp.encode item).length < 2 ^ 64 := by
        have hmem : Rlp.encode item ∈ rawItems items p := by
          rw [rawItems_eq, htail, hentries]
          exact List.mem_append_right _ List.mem_cons_self
        exact (List.sublist_flatten_of_mem hmem).length_le.trans_lt hsize
      rw [read_pos_reference_of_item hsize hwhole hget]
      rcases hread :
        (Rlp.Readable.read ⟨Rlp.encode item⟩ : Except DecoderError (Option FixedHash)) with
        e | _ | h
      · rfl
      · rfl
      · obtain ⟨item', rfl, hhash⟩ := (Rlp.read_option_eq_some hitem).mp hread
        have hitem' : (Rlp.encode item').length < 2 ^ 64 := by
          have hle := Rlp.length_payload_le [item']
          have hle' : (Rlp.encode item').length ≤ ([item'].map Rlp.encode).flatten.length :=
            Rlp.length_encode_le List.mem_cons_self
          omega
        obtain ⟨hash, hlen, rfl⟩ := (read_hash_iff hitem').mp ⟨h, hhash⟩
        exact absurd ⟨hreference, hash, rest, hlen, by rw [hentries, encode_hash_list hlen]⟩ hnot
  · have htail : tailItems p = Rlp.encode (optionItem (some h)) :: p.custom := by
      rw [tailItems, referenceItems, hreference]
      rfl
    have hget : (tailItems p)[0]? = some (Rlp.encode (optionItem (some h))) := by rw [htail]; rfl
    have hitem : (Rlp.encode (optionItem (some h))).length < 2 ^ 64 := by
      have hmem : Rlp.encode (optionItem (some h)) ∈ rawItems items p := by
        rw [rawItems_eq, htail]
        exact List.mem_append_right _ List.mem_cons_self
      exact (List.sublist_flatten_of_mem hmem).length_le.trans_lt hsize
    rw [read_pos_reference_of_item hsize hwhole hget, read_option hitem]

/-- A custom item is taken for the reference. -/
theorem read_pos_reference_ambiguous (hambiguous : Ambiguous p) :
    ∃ h, read_pos_reference ⟨listOf (rawItems items p)⟩ items.length = some h := by
  obtain ⟨hreference, hash, rest, hlen, hentries⟩ := hambiguous
  have hget : (tailItems p)[0]? = some (Rlp.encode (.list [.data hash])) := by
    rw [tailItems, referenceItems, hreference, hentries, encode_hash_list hlen]
    rfl
  have hitem : (Rlp.encode (.list [.data hash])).length < 2 ^ 64 := by
    rw [encode_hash_list hlen, List.length_append, hlen]
    decide
  have hstring : (Rlp.encode (.data hash)).length < 2 ^ 64 := by
    have hle := length_encodeData_le hash (by omega)
    rw [Rlp.encode]
    omega
  obtain ⟨h, hread⟩ := (read_hash_iff hstring).mpr ⟨hash, hlen, rfl⟩
  have hoption := (Rlp.read_option_eq_some (v := h) hitem).mpr ⟨.data hash, rfl, hread⟩
  exact ⟨h, by rw [read_pos_reference_of_item hsize hwhole hget, hoption]⟩

end

/-! ## Round trips -/

theorem tailItems_drop : (tailItems p).drop p.pos_reference.isSome.toNat = p.custom := by
  unfold tailItems referenceItems
  cases p.pos_reference <;> rfl

theorem length_tailItems_ge : p.pos_reference.isSome.toNat ≤ (tailItems p).length := by
  unfold tailItems referenceItems
  cases p.pos_reference <;> simp

section
variable [Keccak]

theorem compute_hash_eq (part : BlockHeaderRlpPart) (pow_hash : Option FixedHash) (size : Nat) :
    compute_hash ⟨part, none, pow_hash, size⟩ =
      .ok ⟨part, some (keccak (listOf (rawItems (headItems part) part))), pow_hash, size⟩ := by
  unfold compute_hash
  dsimp only
  rw [rlp_eq]
  rfl

/-- Both encodings of the header are read back. -/
def RoundTrips (self : BlockHeader) : Prop :=
  (∃ bytes header, self.rlp = .ok bytes ∧ decode ⟨bytes⟩ = .ok (.ok header) ∧
    header.rlp_part = self.rlp_part) ∧
  ∃ bytes header, self.rlp_with_pow_hash = .ok bytes ∧
    decode_with_pow_hash bytes = .ok (.ok header) ∧
    header.rlp_part = self.rlp_part ∧ header.pow_hash = self.pow_hash

theorem decode_eq (hsize : (rawItems (headItems p) p).flatten.length < 2 ^ 64)
    (hwhole : ∀ raw ∈ rawItems (headItems p) p, Whole raw) {reference : Option FixedHash}
    (hreference : read_pos_reference ⟨listOf (rawItems (headItems p) p)⟩ 14 = reference)
    (hlen : reference.isSome.toNat ≤ (tailItems p).length) :
    ∃ hash, decode ⟨listOf (rawItems (headItems p) p)⟩ = .ok (.ok
      ⟨{ p with pos_reference := reference, custom := (tailItems p).drop reference.isSome.toNat },
        some hash,
        none, (listOf (rawItems (headItems p) p)).length⟩) := by
  have hfields := @read_fields_eq p []
  rw [List.append_nil] at hfields
  have hcustom := read_custom_eq hsize hwhole hlen
  rw [show (headItems p).length = 14 from rfl] at hcustom
  have hhash := compute_hash_eq
    { p with pos_reference := reference, custom := (tailItems p).drop reference.isSome.toNat } none
    (listOf (rawItems (headItems p) p)).length
  refine ⟨_, Eq.trans ?_ (congrArg Except.ok hhash)⟩
  unfold decode
  refine bind_eq_ok.mpr ⟨_, hfields hsize hwhole, ?_⟩
  rw [hreference]
  exact bind_eq_ok.mpr ⟨_, hcustom, rfl⟩

theorem decode_with_pow_hash_eq {pow_hash : Option FixedHash}
    (hsize : (rawItems (headItems p ++ [optionItem pow_hash]) p).flatten.length < 2 ^ 64)
    (hwhole : ∀ raw ∈ rawItems (headItems p ++ [optionItem pow_hash]) p, Whole raw)
    (hreference : read_pos_reference
      ⟨listOf (rawItems (headItems p ++ [optionItem pow_hash]) p)⟩ 15 =
      p.pos_reference) :
    ∃ hash, decode_with_pow_hash (listOf (rawItems (headItems p ++ [optionItem pow_hash]) p)) =
      .ok (.ok
      ⟨p, some hash, pow_hash,
        (listOf (rawItems (headItems p ++ [optionItem pow_hash]) p)).length⟩) := by
  have hpow : View.val_anew ⟨listOf (rawItems (headItems p ++ [optionItem pow_hash]) p)⟩ 14 =
      .ok pow_hash := by
    have hmem : Rlp.encode (optionItem pow_hash) ∈
        rawItems (headItems p ++ [optionItem pow_hash]) p :=
      List.mem_of_getElem? (i := 14) rfl
    have hle := (List.sublist_flatten_of_mem hmem).length_le
    rw [View.val_anew_listOf hsize hwhole (i := 14) rfl]
    exact read_option (by omega)
  have hcustom := read_custom_eq hsize hwhole length_tailItems_ge
  rw [tailItems_drop] at hcustom
  refine ⟨keccak (listOf (rawItems (headItems p) p)), ?_⟩
  unfold decode_with_pow_hash
  refine bind_eq_ok.mpr ⟨_, read_fields_eq hsize hwhole, ?_⟩
  rw [hreference]
  refine bind_eq_ok.mpr ⟨_, hpow, ?_⟩
  refine bind_eq_ok.mpr ⟨_, hcustom, ?_⟩
  exact congrArg Except.ok (compute_hash_eq p _ _)

omit [Keccak] in
/-- The items of the encodings are not too long. -/
theorem length_rawItems {self : BlockHeader}
    (hfits : ∀ bytes, self.rlp_with_pow_hash = .ok bytes → bytes.length < 2 ^ 63) :
    (rawItems (headItems self.rlp_part) self.rlp_part).flatten.length < 2 ^ 64 ∧
      (rawItems (headItems self.rlp_part ++ [optionItem self.pow_hash])
        self.rlp_part).flatten.length < 2 ^ 64 := by
  have hlt := hfits _ (rlp_with_pow_hash_eq self)
  rw [listOf, List.length_append] at hlt
  have hpow : (rawItems (headItems self.rlp_part ++ [optionItem self.pow_hash])
      self.rlp_part).flatten.length < 2 ^ 63 := by omega
  refine ⟨?_, by omega⟩
  rw [rawItems_eq, List.map_append, List.flatten_append, List.flatten_append, List.length_append,
    List.length_append] at hpow
  rw [rawItems_eq, List.flatten_append, List.length_append]
  omega

/-- The custom item comes back as the reference. -/
theorem not_roundTrips {self : BlockHeader}
    (hcustom : ∀ entry ∈ self.rlp_part.custom, WellFormed entry)
    (hfits : ∀ bytes, self.rlp_with_pow_hash = .ok bytes → bytes.length < 2 ^ 63)
    (hambiguous : Ambiguous self.rlp_part) : ¬RoundTrips self := by
  rintro ⟨⟨bytes, header, hrlp, hdecode, hpart⟩, -⟩
  obtain ⟨hsize, -⟩ := length_rawItems hfits
  have hwhole := rawItems_whole hcustom hsize
  obtain ⟨h, hreference⟩ := read_pos_reference_ambiguous hsize hwhole hambiguous
  have htail : 1 ≤ (tailItems self.rlp_part).length := by
    obtain ⟨hnone, hash, rest, -, hentries⟩ := hambiguous
    rw [tailItems, hentries, List.length_append, List.length_cons]
    omega
  obtain ⟨hash, hread⟩ := decode_eq hsize hwhole hreference htail
  rw [rlp_eq] at hrlp
  rw [← Except.ok.inj hrlp, hread] at hdecode
  have hheader := Except.ok.inj (Except.ok.inj hdecode)
  rw [← hheader] at hpart
  have hsome : some h = self.rlp_part.pos_reference :=
    congrArg BlockHeaderRlpPart.pos_reference hpart
  rw [hambiguous.1] at hsome
  cases hsome

/-- A header is read back from both encodings just when it is not ambiguous. The encodings are
    vectors, which hold less than `2 ^ 63` bytes. -/
theorem headers_round_trip_iff (self : BlockHeader)
    (hcustom : ∀ entry ∈ self.rlp_part.custom, WellFormed entry)
    (hfits : ∀ bytes, self.rlp_with_pow_hash = .ok bytes → bytes.length < 2 ^ 63) :
    RoundTrips self ↔ ¬Ambiguous self.rlp_part := by
  constructor
  · intro hround hambiguous
    exact not_roundTrips hcustom hfits hambiguous hround
  · intro hnot
    obtain ⟨hsize, hsize'⟩ := length_rawItems hfits
    have hwhole := rawItems_whole hcustom hsize
    have hwhole' := rawItems_whole hcustom hsize'
    have hreference := read_pos_reference_eq hsize hwhole hcustom hnot
    obtain ⟨hash, hread⟩ := decode_eq hsize hwhole hreference length_tailItems_ge
    rw [tailItems_drop] at hread
    obtain ⟨hash', hread'⟩ :=
      decode_with_pow_hash_eq hsize' hwhole' (read_pos_reference_eq hsize' hwhole' hcustom hnot)
    exact ⟨⟨_, _, rlp_eq self, hread, rfl⟩, _, _, rlp_with_pow_hash_eq self, hread', rfl, rfl⟩

end

/-- A header with nothing but the given custom items. -/
def customHeader (custom : List Bytes) : BlockHeader where
  rlp_part :=
    { parent_hash := ⟨0⟩, height := 0, timestamp := 0, author := 0, transactions_root := ⟨0⟩,
      deferred_state_root := ⟨0⟩, deferred_receipts_root := ⟨0⟩, deferred_logs_bloom_hash := ⟨0⟩,
      blame := 0, difficulty := 0, adaptive := false, gas_limit := 0, referee_hashes := [],
      custom := custom, nonce := 0, pos_reference := none }
  hash := none
  pow_hash := none
  approximated_rlp_size := 0

/-- A custom item that looks like a reference. -/
def hashEntry : Bytes := [0xe1, 0xa0] ++ List.replicate 32 7

theorem hash_entry_is_taken_for_the_reference :
    ¬∃ _ : Keccak, (∀ entry ∈ (customHeader [hashEntry]).rlp_part.custom, WellFormed entry) →
      RoundTrips (customHeader [hashEntry]) := by
  rintro ⟨_, hround⟩
  have hcustom : ∀ entry ∈ (customHeader [hashEntry]).rlp_part.custom, WellFormed entry := by
    intro entry hentry
    obtain rfl : entry = hashEntry := List.mem_singleton.mp hentry
    exact ⟨.list [.data (List.replicate 32 7)], (encode_hash_list rfl).symm⟩
  refine not_roundTrips hcustom ?_ ⟨rfl, List.replicate 32 7, [], rfl, rfl⟩ (hround hcustom)
  intro bytes hbytes
  rw [rlp_with_pow_hash_eq] at hbytes
  rw [← Except.ok.inj hbytes]
  decide +kernel

section
attribute [local instance] keccakOfEmpty

theorem byte_entry_is_read_back : RoundTrips (customHeader [[1]]) := by
  refine (headers_round_trip_iff (customHeader [[1]]) ?_ ?_).mpr ?_
  · intro entry hentry
    obtain rfl : entry = [1] := List.mem_singleton.mp hentry
    exact ⟨.data [1], rfl⟩
  · intro bytes hbytes
    rw [rlp_with_pow_hash_eq] at hbytes
    rw [← Except.ok.inj hbytes]
    decide +kernel
  · rintro ⟨-, hash, rest, -, hentries⟩
    cases hentries

end

end BlockHeader

end CfxEvm
