import CfxEvm.Lib.Rlp

/-!
# What is written to an RLP stream

Appending a value to a stream places the bytes of one item: they are written, and counted once, also
where the value is a list that counts its own items. So a stream can be followed item by item.
-/

namespace Lib

namespace Rlp

/-- The bytes of a list with the given items. -/
def listOf (items : List Bytes) : Bytes := header 0xc0 items.flatten.length ++ items.flatten

theorem encodeAll_eq (items : List Item) : encodeAll items = (items.map encode).flatten := by
  induction items with
  | nil => rfl
  | cons item items ih => rw [encodeAll, ih, List.map_cons, List.flatten_cons]

theorem encode_list (items : List Item) : encode (.list items) = listOf (items.map encode) := by
  rw [encode, encodeAll_eq]
  rfl

namespace Item

def is_list : Item → Bool
  | .data _ => false
  | .list _ => true

end Item

namespace RlpStream

/-- The bytes of one item are written and counted. A list has then been finished if the item is one,
    or if it is the last of the innermost list. -/
def place (piece : Bytes × Bool) (s : RlpStream) : Except Misuse RlpStream := do
  let (lists, buffer, finished) ← count s.unfinished_lists piece.1 s.buffer
  return ⟨lists, buffer, finished || piece.2⟩

def placeAll : List (Bytes × Bool) → RlpStream → Except Misuse RlpStream
  | [], s => pure s
  | piece :: pieces, s => do
    let s ← place piece s
    placeAll pieces s

variable {payload buffer : Bytes} {k n : ℕ} {ls : List ListInfo} {finished : Bool}

theorem place_next (piece : Bytes × Bool) (h : k + 1 < n) :
    place piece ⟨⟨payload, k, n⟩ :: ls, buffer, finished⟩ =
      .ok ⟨⟨payload ++ piece.1, k + 1, n⟩ :: ls, buffer, piece.2⟩ := by
  unfold place count
  dsimp only
  rw [if_neg (by omega), if_neg (by omega)]
  rfl

/-- The last item finishes the list, which is then placed itself. -/
theorem place_last (piece : Bytes × Bool) (h : k + 1 = n) (finished' : Bool) :
    place piece ⟨⟨payload, k, n⟩ :: ls, buffer, finished⟩ =
      place (header 0xc0 (payload ++ piece.1).length ++ (payload ++ piece.1), true)
        ⟨ls, buffer, finished'⟩ := by
  have hcount : count (⟨payload, k, n⟩ :: ls) piece.1 buffer =
      (count ls (header 0xc0 (payload ++ piece.1).length ++ (payload ++ piece.1)) buffer >>=
        fun r => pure (r.1, r.2.1, true)) := by
    rw [count]
    dsimp only
    rw [if_neg (by omega), if_pos h]
  unfold place
  dsimp only
  rw [hcount]
  rcases count ls (header 0xc0 (payload ++ piece.1).length ++ (payload ++ piece.1)) buffer
    with e | r
  · rfl
  · show Except.ok _ = Except.ok _
    rw [Bool.or_true, Bool.true_or]

/-- All items of an open list. -/
theorem placeAll_open {pieces : List (Bytes × Bool)} (hne : pieces ≠ [])
    (hlen : k + pieces.length = n)
    (finished' : Bool) :
    placeAll pieces ⟨⟨payload, k, n⟩ :: ls, buffer, finished⟩ =
      place (header 0xc0 (payload ++ (pieces.map Prod.fst).flatten).length ++
        (payload ++ (pieces.map Prod.fst).flatten), true) ⟨ls, buffer, finished'⟩ := by
  induction pieces generalizing payload k finished with
  | nil => exact absurd rfl hne
  | cons piece pieces ih =>
    rw [placeAll, List.map_cons, List.flatten_cons]
    rw [List.length_cons] at hlen
    by_cases hlast : pieces = []
    · subst hlast
      rw [List.length_nil] at hlen
      rw [place_last piece (by omega) finished', List.map_nil, List.flatten_nil, List.append_nil]
      exact bind_pure _
    · have hpos := List.length_pos_iff.mpr hlast
      rw [place_next piece (by omega)]
      show placeAll pieces _ = _
      rw [ih hlast (by omega), List.append_assoc]

theorem begin_list_pos (hn : 0 < n) (s : RlpStream) :
    begin_list n s = .ok ⟨⟨[], 0, n⟩ :: s.unfinished_lists, s.buffer, false⟩ := by
  cases n with
  | zero => cases hn
  | succ n => rfl

/-- A list with its items is placed as one item. -/
theorem begin_list_placeAll {pieces : List (Bytes × Bool)} (hlen : pieces.length = n) (hn : 0 < n)
    (s : RlpStream) :
    (begin_list n s >>= placeAll pieces) = place (listOf (pieces.map Prod.fst), true) s := by
  have hne : pieces ≠ [] := by
    rintro rfl
    rw [List.length_nil] at hlen
    omega
  rw [begin_list_pos hn]
  show placeAll pieces _ = _
  rw [placeAll_open hne (by omega) s.finished_list]
  rfl

/-- A stream that nothing has been written to. -/
theorem place_new (bytes : Bytes) (isList : Bool) :
    place (bytes, isList) .new = .ok ⟨[], bytes, isList⟩ := by
  cases isList <;> rfl

/-- The bytes of an item as they are, in an open list. -/
theorem append_raw_eq (bytes : Bytes) (l : ListInfo) (ls : List ListInfo) :
    append_raw bytes ⟨l :: ls, buffer, finished⟩ =
      place (bytes, false) ⟨l :: ls, buffer, finished⟩ := by
  have hcount : count ({ l with payload := l.payload ++ bytes } :: ls) [] buffer =
      count (l :: ls) bytes buffer := by
    rw [count, count]
    simp only [List.append_nil]
  show (count ({ l with payload := l.payload ++ bytes } :: ls) [] buffer >>= _) = _
  rw [hcount]
  unfold place
  dsimp only
  rcases count (l :: ls) bytes buffer with e | ⟨lists, buffer', finished'⟩
  · rfl
  · show Except.ok _ = Except.ok _
    rw [Bool.or_false]

theorem placeAll_append (pieces pieces' : List (Bytes × Bool)) (s : RlpStream) :
    placeAll (pieces ++ pieces') s = (placeAll pieces s >>= placeAll pieces') := by
  induction pieces generalizing s with
  | nil => rfl
  | cons piece pieces ih =>
    rw [List.cons_append, placeAll, placeAll, bind_assoc]
    exact bind_congr ih

/-- Some items of an open list, but not its last one. -/
theorem placeAll_within {pieces : List (Bytes × Bool)} (hlen : k + pieces.length < n) :
    ∃ finished', placeAll pieces ⟨⟨payload, k, n⟩ :: ls, buffer, finished⟩ =
      .ok ⟨⟨payload ++ (pieces.map Prod.fst).flatten, k + pieces.length, n⟩ :: ls, buffer,
        finished'⟩ := by
  induction pieces generalizing payload k finished with
  | nil => exact ⟨finished, by rw [List.map_nil, List.flatten_nil, List.append_nil]; rfl⟩
  | cons piece pieces ih =>
    rw [List.length_cons] at hlen
    obtain ⟨finished', hrest⟩ := @ih (payload ++ piece.1) (k + 1) piece.2 (by omega)
    refine ⟨finished', ?_⟩
    rw [placeAll, place_next piece (by omega)]
    show placeAll pieces _ = _
    rw [hrest, List.map_cons, List.flatten_cons, List.append_assoc, List.length_cons,
      Nat.add_right_comm,
      Nat.add_assoc]

/-- Items as they are, up to the end of an open list. -/
theorem foldlM_append_raw {entries : List Bytes} (hlen : k + entries.length = n) :
    entries.foldlM (fun s bytes => append_raw bytes s) ⟨⟨payload, k, n⟩ :: ls, buffer, finished⟩ =
      placeAll (entries.map fun bytes => (bytes, false)) ⟨⟨payload, k, n⟩ :: ls, buffer,
        finished⟩ := by
  induction entries generalizing payload k finished with
  | nil => rfl
  | cons bytes entries ih =>
    rw [List.length_cons] at hlen
    rw [List.foldlM_cons, List.map_cons, placeAll, append_raw_eq]
    by_cases hlast : entries = []
    · subst hlast
      rfl
    · have hpos := List.length_pos_iff.mpr hlast
      rw [place_next _ (by omega)]
      exact ih (by omega)

theorem begin_list_zero (s : RlpStream) : begin_list 0 s = place ([0xc0], true) s := by
  rcases s with ⟨_ | ⟨l, ls⟩, buffer, finished⟩
  · rfl
  · show (append_raw [0xc0] ⟨l :: ls, buffer, false⟩ >>= _) = _
    rw [append_raw_eq]
    unfold place
    dsimp only
    rcases count (l :: ls) [0xc0] buffer with e | ⟨lists, buffer', finished'⟩
    · rfl
    · show Except.ok _ = Except.ok _
      rw [Bool.or_true]

end RlpStream

/-! ## Values -/

open RlpStream

variable {α : Type} [Encodable α] {value : α}

/-- Appending the value places the item. -/
def Writes (value : α) (item : Item) : Prop :=
  ∀ s, RlpStream.append value s = place (encode item, item.is_list) s

theorem writes_data {bytes : Bytes}
    (h : ∀ s, Encodable.rlp_append value s = .ok (s.encode_value bytes)) :
    Writes value (.data bytes) := by
  rintro ⟨ls, buffer, finished⟩
  unfold RlpStream.append
  rw [h]
  rcases ls with _ | ⟨l, ls⟩
  · rfl
  · exact @append_raw_eq buffer false (encode (.data bytes)) l ls

/-- A list that announces its items and appends them. -/
theorem writes_list {items : List Item}
    (h : ∀ s, Encodable.rlp_append value s = place (encode (.list items), true) s) :
    Writes value (.list items) := by
  intro s
  unfold RlpStream.append
  rw [h]
  show ((count s.unfinished_lists (encode (.list items)) s.buffer >>= _) >>= _) =
    (count s.unfinished_lists (encode (.list items)) s.buffer >>= _)
  rcases count s.unfinished_lists (encode (.list items)) s.buffer with e | ⟨lists, buffer, finished⟩
  · rfl
  · show (if (finished || true) = true then _ else _) =
      Except.ok (⟨lists, buffer, finished || true⟩ : RlpStream)
    rw [Bool.or_true, if_pos rfl]
    rfl

/-- The pieces of items. -/
def pieces (items : List Item) : List (Bytes × Bool) :=
  items.map fun item => (encode item, item.is_list)

theorem map_fst_pieces (items : List Item) : (pieces items).map Prod.fst = items.map encode := by
  rw [pieces, List.map_map]
  rfl

theorem length_pieces (items : List Item) : (pieces items).length = items.length :=
  List.length_map ..

/-- A list is placed item by item. -/
theorem begin_list_items {items : List Item} {n : ℕ} (hlen : items.length = n) (hn : 0 < n)
    (s : RlpStream) :
    (begin_list n s >>= placeAll (pieces items)) = place (encode (.list items), true) s := by
  rw [begin_list_placeAll (by rw [length_pieces, hlen]) hn, map_fst_pieces, encode_list]

/-- The values of a list are appended one by one. -/
theorem foldlM_append {values : List α} {item : α → Item} (h : ∀ v ∈ values, Writes v (item v))
    (s : RlpStream) :
    values.foldlM (fun s value => s.append value) s = placeAll (pieces (values.map item)) s := by
  induction values generalizing s with
  | nil => rfl
  | cons v values ih =>
    rw [List.foldlM_cons, h v List.mem_cons_self, List.map_cons, pieces, List.map_cons, placeAll]
    exact bind_congr fun s => ih (fun v' hv' => h v' (List.mem_cons_of_mem _ hv')) s

theorem append_list_eq {values : List α} {item : α → Item} (h : ∀ v ∈ values, Writes v (item v))
    (s : RlpStream) :
    s.append_list values = place (encode (.list (values.map item)), true) s := by
  unfold RlpStream.append_list
  rcases values with _ | ⟨v, values⟩
  · show (begin_list 0 s >>= pure) = _
    rw [begin_list_zero, bind_pure]
    rfl
  · have hlen : ((v :: values).map item).length = (v :: values).length := List.length_map ..
    rw [← begin_list_items hlen (Nat.succ_pos _)]
    exact bind_congr fun s => foldlM_append h s

/-- An optional value. -/
theorem writes_option {item : α → Item} (h : ∀ v, Writes v (item v)) (v : Option α) :
    Writes v (.list (v.toList.map item)) := by
  refine writes_list fun s => ?_
  cases v with
  | none => exact begin_list_zero s
  | some v =>
    have happend : ∀ s, RlpStream.append v s = _ := h v
    rw [← begin_list_items (n := 1) rfl (by decide)]
    show (s.begin_list 1 >>= fun s => s.append v) = _
    simp only [happend, pieces, Option.toList_some, List.map_cons, List.map_nil,
      placeAll, bind_pure]

theorem Writes.encodeValue {item : Item} (h : Writes value item) :
    encodeValue value = .ok (encode item) := by
  unfold Rlp.encodeValue
  rw [h, place_new]
  rfl

/-- A value on its own. -/
theorem rlp_bytes_of_place {bytes : Bytes} {isList : Bool}
    (h : ∀ s, Encodable.rlp_append value s = place (bytes, isList) s) :
    rlp_bytes value = .ok bytes := by
  unfold rlp_bytes
  rw [h, place_new]
  rfl

end Rlp

end Lib
