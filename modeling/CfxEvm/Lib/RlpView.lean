import CfxEvm.Lib.Prog
import CfxEvm.Lib.RlpWrite

/-!
# Reading RLP in place

A view goes over the bytes of an item only as far as it is asked to, so what comes after the item,
or after the items of a list that it looks at, is mostly not seen: but the items of a list that are
asked for one after another are looked for in all bytes after its head. A length is read only in its
shortest form, and so is a string.
-/

namespace Lib

namespace Rlp

/-- How many bytes the head of an item takes, and how many its value. -/
structure PayloadInfo where
  header_len : ℕ
  value_len : ℕ
  deriving DecidableEq, Repr

namespace PayloadInfo

def total (item : PayloadInfo) : ℕ := item.header_len + item.value_len

def decode_usize (bytes : Bytes) : Except DecoderError ℕ :=
  if bytes.length ≤ 8 then
    if bytes.head? = some 0 then .error .RlpInvalidIndirection else .ok (numberOf bytes)
  else .error .RlpIsTooBig

def calculate_payload_info (header_bytes : Bytes) (len_of_len : ℕ) :
    Except DecoderError PayloadInfo :=
  match header_bytes[1]? with
  | none => .error .RlpIsTooShort
  | some b =>
    if b = 0 then .error .RlpDataLenWithZeroPrefix
    else if header_bytes.length < 1 + len_of_len then .error .RlpIsTooShort
    else do
      let value_len ← decode_usize ((header_bytes.drop 1).take len_of_len)
      if value_len ≤ 55 then .error .RlpInvalidIndirection
      else return ⟨1 + len_of_len, value_len⟩

/-- What the first bytes of an item say. -/
def of : Bytes → Except DecoderError PayloadInfo
  | [] => .error .RlpIsTooShort
  | l :: rest =>
    if l.toNat ≤ 0x7f then .ok ⟨0, 1⟩
    else if l.toNat ≤ 0xb7 then .ok ⟨1, l.toNat - 0x80⟩
    else if l.toNat ≤ 0xbf then calculate_payload_info (l :: rest) (l.toNat - 0xb7)
    else if l.toNat ≤ 0xf7 then .ok ⟨1, l.toNat - 0xc0⟩
    else calculate_payload_info (l :: rest) (l.toNat - 0xf7)

end PayloadInfo

/-- Returns first item info, if all of the item is there. -/
def payload_info (bytes : Bytes) : Except DecoderError PayloadInfo := do
  let item ← PayloadInfo.of bytes
  if item.total ≤ bytes.length then return item else .error .RlpIsTooShort

/-- The bytes from where an item begins. -/
structure View where
  as_raw : Bytes

/-- What can be read from a view. -/
class Readable (α : Type) where
  read : View → Except DecoderError α

namespace View

def is_list (rlp : View) : Bool :=
  match rlp.as_raw with
  | [] => false
  | l :: _ => 0xc0 ≤ l.toNat

/-- Whether the item is the empty string or the empty list. -/
def is_empty (rlp : View) : Bool :=
  match rlp.as_raw with
  | [] => false
  | l :: _ => l == 0xc0 || l == 0x80

def as_val {α : Type} [Readable α] (rlp : View) : Except DecoderError α := Readable.read rlp

/-- The items of a list. -/
def consume_list_payload (rlp : View) : Except DecoderError Bytes := do
  let item ← payload_info rlp.as_raw
  return (rlp.as_raw.drop item.header_len).take item.value_len

/-- Consumes fixed number of items. -/
def consume_items (bytes : Bytes) : ℕ → Except DecoderError Bytes
  | 0 => .ok bytes
  | items + 1 => do
    let i ← payload_info bytes
    consume_items (bytes.drop i.total) items

/-- The bytes that an access to an item goes over. Starting at the first item it sees those of the
    list only; going on from an item that was read before it sees all bytes that follow. -/
def following (rlp : View) (fresh : Bool) : Except DecoderError Bytes :=
  if fresh then rlp.consume_list_payload
  else do
    let item ← payload_info rlp.as_raw
    return rlp.as_raw.drop item.header_len

/-- The item with the given number, from the first item on if `fresh`. -/
def item_from (rlp : View) (fresh : Bool) (index : ℕ) : Except DecoderError View :=
  if rlp.is_list then do
    let bytes ← rlp.following fresh
    let bytes ← consume_items bytes index
    let found ← payload_info bytes
    return ⟨bytes.take found.total⟩
  else .error .RlpExpectedToBeList

/-- The item with the given number, when the items are asked for in order: the offset of the one
    before is cached, and the access goes on from there. -/
def item_at (rlp : View) (index : ℕ) : Except DecoderError View := rlp.item_from (index == 0) index

/-- The item with the given number, after a later one was asked for. -/
def item_anew (rlp : View) (index : ℕ) : Except DecoderError View := rlp.item_from true index

/-- The iterator goes from item to item until one cannot be read. -/
def countFrom (rlp : View) : ℕ → ℕ → ℕ
  | 0, index => index
  | fuel + 1, index =>
    match rlp.item_at index with
    | .ok _ => countFrom rlp fuel (index + 1)
    | .error _ => index

/-- An item takes at least one byte. -/
def item_count (rlp : View) : Except DecoderError ℕ :=
  if rlp.is_list then .ok (rlp.countFrom rlp.as_raw.length 0) else .error .RlpExpectedToBeList

def val_at {α : Type} [Readable α] (rlp : View) (index : ℕ) : Except DecoderError α := do
  let item ← rlp.item_at index
  item.as_val

def val_anew {α : Type} [Readable α] (rlp : View) (index : ℕ) : Except DecoderError α := do
  let item ← rlp.item_anew index
  item.as_val

/-- Reads all items that the iterator goes over. -/
def as_list {α : Type} [Readable α] (rlp : View) : Except DecoderError (List α) :=
  (List.range (rlp.countFrom rlp.as_raw.length 0)).mapM fun i => rlp.val_at i

def list_at {α : Type} [Readable α] (rlp : View) (index : ℕ) : Except DecoderError (List α) := do
  let item ← rlp.item_at index
  item.as_list

/-- Reads the bytes of a string. -/
def decode_value {α : Type} (rlp : View) (f : Bytes → Except DecoderError α) :
    Except DecoderError α :=
  match rlp.as_raw with
  | [] => .error .RlpIsTooShort
  | l :: rest =>
    if l.toNat ≤ 0x7f then f [l]
    else if l.toNat ≤ 0xb7 then
      let len := l.toNat - 0x80
      if rest.length < len then .error .RlpInconsistentLengthAndData
      else
        let d := rest.take len
        if l = 0x81 ∧ d.head?.any (· < 0x80) then .error .RlpInvalidIndirection else f d
    else if l.toNat ≤ 0xbf then
      let len_of_len := l.toNat - 0xb7
      if rest.length < len_of_len then .error .RlpInconsistentLengthAndData
      else do
        let len ← PayloadInfo.decode_usize (rest.take len_of_len)
        if rest.length < len_of_len + len then .error .RlpInconsistentLengthAndData
        else f ((rest.drop len_of_len).take len)
    else .error .RlpExpectedToBeData

end View

instance {α : Type} [Readable α] : Readable (Option α) where
  read rlp := do
    match ← rlp.item_count with
    | 1 => return some (← rlp.val_at 0)
    | 0 => return none
    | _ => .error .RlpIncorrectListLen

/-- A string is read from the bytes that its item holds. -/
def readData {α : Type} [Decodable α] (rlp : View) : Except DecoderError α :=
  rlp.decode_value fun bytes => Decodable.decode (.data bytes)

/-! ## Heads -/

theorem numberOf_lt (bytes : Bytes) : numberOf bytes < 256 ^ bytes.length := by
  have hlt := Nat.ofDigits_lt_base_pow_length (b := 256)
    (l := bytes.reverse.map UInt8.toNat) (by decide)
    (by
      intro d hd
      obtain ⟨b, -, rfl⟩ := List.mem_map.mp hd
      exact b.toNat_lt)
  rwa [List.length_map, List.length_reverse] at hlt

/-- A number in its shortest form. -/
theorem bytesOf_numberOf {bytes : Bytes} (hhead : bytes.head? ≠ some 0) :
    bytesOf (numberOf bytes) = bytes := by
  have hdigits : Nat.digits 256 (numberOf bytes) = bytes.reverse.map UInt8.toNat := by
    refine Nat.digits_ofDigits 256 (by decide) _ ?_ ?_
    · intro d hd
      obtain ⟨b, -, rfl⟩ := List.mem_map.mp hd
      exact b.toNat_lt
    · intro hne
      rw [List.getLast_map, List.getLast_reverse]
      intro hzero
      have hne : bytes ≠ [] := by simpa using hne
      have hzero : bytes.head hne = 0 := UInt8.toNat_inj.mp hzero
      exact hhead (by rw [List.head?_eq_some_head hne, hzero])
  rw [bytesOf, hdigits, ← List.map_reverse, List.reverse_reverse, List.map_map]
  conv_rhs => rw [← List.map_id bytes]
  exact List.map_congr_left fun b _ => by simp

theorem decode_usize_eq_ok {bytes : Bytes} {n : ℕ} :
    PayloadInfo.decode_usize bytes = .ok n ↔
      bytes.length ≤ 8 ∧ bytes.head? ≠ some 0 ∧ n = numberOf bytes := by
  unfold PayloadInfo.decode_usize
  by_cases hlen : bytes.length ≤ 8
  · rw [if_pos hlen]
    by_cases hhead : bytes.head? = some 0
    · rw [if_pos hhead]
      simp [hhead]
    · rw [if_neg hhead]
      constructor
      · intro h
        exact ⟨hlen, hhead, (Except.ok.inj h).symm⟩
      · rintro ⟨-, -, rfl⟩
        rfl
  · rw [if_neg hlen]
    simp [hlen]

/-- A long length is read from its bytes only if it needs as many. -/
theorem calculate_payload_info_eq_ok {l : UInt8} {rest : Bytes} {k : ℕ} {p : PayloadInfo}
    (hk : 0 < k)
    (hk8 : k ≤ 8) :
    PayloadInfo.calculate_payload_info (l :: rest) k = .ok p ↔
      ∃ n rest', rest = bytesOf n ++ rest' ∧ (bytesOf n).length = k ∧ 55 < n ∧ p = ⟨1 + k, n⟩ := by
  unfold PayloadInfo.calculate_payload_info
  rw [List.getElem?_cons_succ, List.drop_succ_cons, List.drop_zero]
  constructor
  · intro h
    rcases hrest : rest with _ | ⟨b, rest'⟩
    · rw [hrest] at h
      cases h
    rw [hrest] at h
    dsimp only [List.getElem?_cons_zero] at h
    split at h
    · cases h
    split at h
    · cases h
    rename_i hb hlen
    rw [List.length_cons, List.length_cons] at hlen
    rcases hsize : PayloadInfo.decode_usize ((b :: rest').take k) with e | n
    · rw [hsize] at h
      cases h
    rw [hsize] at h
    change (if n ≤ 55 then Except.error DecoderError.RlpInvalidIndirection
      else Except.ok (⟨1 + k, n⟩ : PayloadInfo)) = .ok p at h
    split at h
    · cases h
    rename_i hn
    obtain ⟨-, hhead, hnumber⟩ := decode_usize_eq_ok.mp hsize
    have hbytes : bytesOf n = (b :: rest').take k := by rw [hnumber, bytesOf_numberOf hhead]
    refine ⟨n, (b :: rest').drop k, ?_, ?_, by omega, (Except.ok.inj h).symm⟩
    · rw [hbytes, List.take_append_drop]
    · rw [hbytes, List.length_take, List.length_cons]
      omega
  · rintro ⟨n, rest', rfl, hlen, hn, rfl⟩
    have hpos : 0 < (bytesOf n).length := by omega
    rcases hbytes : bytesOf n with _ | ⟨b, bs⟩
    · rw [hbytes] at hpos
      cases hpos
    have hb : b ≠ 0 := head_bytesOf_ne_zero (n := n) (by rw [hbytes]; rfl)
    have htake : ((b :: bs) ++ rest').take k = bytesOf n := by
      rw [← hbytes, ← hlen, List.take_left]
    have hsize : PayloadInfo.decode_usize (bytesOf n) = .ok n := by
      refine decode_usize_eq_ok.mpr ⟨by omega, ?_, (numberOf_bytesOf n).symm⟩
      rw [hbytes, List.head?_cons]
      exact fun h => hb (Option.some.inj h)
    rw [htake, hsize]
    rw [hbytes] at hlen
    rw [List.cons_append, List.getElem?_cons_zero]
    dsimp only
    rw [if_neg hb, if_neg (by simp at hlen ⊢; omega)]
    change (if n ≤ 55 then Except.error DecoderError.RlpInvalidIndirection
      else Except.ok (⟨1 + k, n⟩ : PayloadInfo)) = _
    rw [if_neg (by omega)]

/-- The bytes begin with an item: a single byte, a string or a list, with its length in the shortest
    form. -/
inductive Begins : Bytes → PayloadInfo → Prop
  | byte {b : UInt8} (rest : Bytes) (hb : b.toNat ≤ 0x7f) : Begins (b :: rest) ⟨0, 1⟩
  | data {n : ℕ} {rest : Bytes} (hsize : n < 2 ^ 64) (hn : n ≤ rest.length) :
      Begins (header 0x80 n ++ rest) ⟨(header 0x80 n).length, n⟩
  | list {n : ℕ} {rest : Bytes} (hsize : n < 2 ^ 64) (hn : n ≤ rest.length) :
      Begins (header 0xc0 n ++ rest) ⟨(header 0xc0 n).length, n⟩

theorem header_short {offset n : ℕ} (hn : n < 56) : header offset n = [UInt8.ofNat (offset + n)] :=
  if_pos hn

theorem header_long {offset n : ℕ} (hn : 55 < n) :
    header offset n = UInt8.ofNat (offset + 55 + (bytesOf n).length) :: bytesOf n :=
  if_neg (by omega)

theorem bytesOf_length_mem {n : ℕ} (hn : 55 < n) (hsize : n < 2 ^ 64) :
    0 < (bytesOf n).length ∧ (bytesOf n).length ≤ 8 :=
  ⟨length_bytesOf_pos (by omega), length_bytesOf_le (k := 8) (by simpa using hsize)⟩

theorem toNat_ofNat_lt {n : ℕ} (hn : n < 256) : (UInt8.ofNat n).toNat = n := by
  rw [UInt8.toNat_ofNat', Nat.mod_eq_of_lt hn]

theorem payload_info_eq_ok {bytes : Bytes} {p : PayloadInfo} :
    payload_info bytes = .ok p ↔ PayloadInfo.of bytes = .ok p ∧ p.total ≤ bytes.length := by
  unfold payload_info
  rcases PayloadInfo.of bytes with e | item
  · constructor
    · intro h
      cases h
    · rintro ⟨h, -⟩
      cases h
  · change (if item.total ≤ bytes.length then Except.ok item
      else Except.error DecoderError.RlpIsTooShort) = _ ↔ _
    constructor
    · intro h
      split at h
      · rename_i hlen
        cases h
        exact ⟨rfl, hlen⟩
      · cases h
    · rintro ⟨h, hlen⟩
      cases h
      exact if_pos hlen

/-- The head of a short string or list. -/
theorem eq_header_short {l : UInt8} {offset : ℕ} (hoffset : offset ≤ l.toNat)
    (hl : l.toNat - offset < 56) : [l] = header offset (l.toNat - offset) := by
  rw [header_short hl, Nat.add_sub_cancel' hoffset, UInt8.ofNat_toNat]

/-- The head of a long one. -/
theorem eq_header_long {l : UInt8} {offset n : ℕ} (hl : l.toNat = offset + 55 + (bytesOf n).length)
    (hn : 55 < n) : l :: bytesOf n = header offset n := by
  rw [header_long hn, ← hl, UInt8.ofNat_toNat]

theorem begins_of_payload_info {bytes : Bytes} {p : PayloadInfo} (h : payload_info bytes = .ok p) :
    Begins bytes p := by
  obtain ⟨hof, hlen⟩ := payload_info_eq_ok.mp h
  rcases bytes with _ | ⟨l, rest⟩
  · cases hof
  have hl256 := l.toNat_lt
  have hlong : ∀ {offset}, (offset = 0x80 ∨ offset = 0xc0) → offset + 55 < l.toNat →
      l.toNat ≤ offset + 63 →
      PayloadInfo.calculate_payload_info (l :: rest) (l.toNat - (offset + 55)) = .ok p →
      ∃ n rest', n < 2 ^ 64 ∧ n ≤ rest'.length ∧ l :: rest = header offset n ++ rest' ∧
        p = ⟨(header offset n).length, n⟩ := by
    intro offset _ hlow hhigh hcalc
    obtain ⟨n, rest', rfl, hk, hn, rfl⟩ :=
      (calculate_payload_info_eq_ok (by omega) (by omega)).mp hcalc
    have hheader : l :: bytesOf n = header offset n := eq_header_long (by omega) hn
    have hsize : n < 256 ^ (bytesOf n).length := by
      have hlt := numberOf_lt (bytesOf n)
      rwa [numberOf_bytesOf] at hlt
    refine ⟨n, rest', ?_, ?_, ?_, ?_⟩
    · exact hsize.trans_le ((Nat.pow_le_pow_right (by decide) (by omega : _ ≤ 8)).trans_eq rfl)
    · simp only [PayloadInfo.total, List.length_cons, List.length_append] at hlen
      omega
    · rw [← hheader, List.cons_append]
    · rw [← hheader, List.length_cons, hk, Nat.add_comm]
  rw [PayloadInfo.of] at hof
  split at hof
  · rename_i hb
    cases hof
    exact .byte rest hb
  rename_i h7f
  split at hof
  · rename_i hb7
    cases hof
    have hheader : [l] = header 0x80 (l.toNat - 0x80) := eq_header_short (by omega) (by omega)
    simp only [PayloadInfo.total, List.length_cons] at hlen
    have hbegins := @Begins.data (l.toNat - 0x80) rest (by omega) (by omega)
    rw [← hheader] at hbegins
    exact hbegins
  rename_i hb7
  split at hof
  · obtain ⟨n, rest', hsize, hn, hbytes, rfl⟩ := @hlong 0x80 (.inl rfl) (by omega) (by omega) hof
    rw [hbytes]
    exact .data hsize hn
  rename_i hbf
  split at hof
  · rename_i hf7
    cases hof
    have hheader : [l] = header 0xc0 (l.toNat - 0xc0) := eq_header_short (by omega) (by omega)
    simp only [PayloadInfo.total, List.length_cons] at hlen
    have hbegins := @Begins.list (l.toNat - 0xc0) rest (by omega) (by omega)
    rw [← hheader] at hbegins
    exact hbegins
  · obtain ⟨n, rest', hsize, hn, hbytes, rfl⟩ := @hlong 0xc0 (.inr rfl) (by omega) (by omega) hof
    rw [hbytes]
    exact .list hsize hn

theorem of_header {n : ℕ} (hsize : n < 2 ^ 64) (rest : Bytes) :
    PayloadInfo.of (header 0x80 n ++ rest) = .ok ⟨(header 0x80 n).length, n⟩ ∧
      PayloadInfo.of (header 0xc0 n ++ rest) = .ok ⟨(header 0xc0 n).length, n⟩ := by
  by_cases hn : n < 56
  · have hdata := toNat_ofNat_lt (n := 0x80 + n) (by omega)
    have hlist := toNat_ofNat_lt (n := 0xc0 + n) (by omega)
    rw [header_short hn, header_short hn, List.singleton_append, List.singleton_append,
      PayloadInfo.of, PayloadInfo.of, hdata, hlist]
    constructor
    · rw [if_neg (by omega), if_pos (by omega), Nat.add_sub_cancel_left]
      rfl
    · rw [if_neg (by omega), if_neg (by omega), if_neg (by omega), if_pos (by omega),
        Nat.add_sub_cancel_left]
      rfl
  · obtain ⟨hpos, hle⟩ := bytesOf_length_mem (n := n) (by omega) hsize
    have hdata := toNat_ofNat_lt (n := 0x80 + 55 + (bytesOf n).length) (by omega)
    have hlist := toNat_ofNat_lt (n := 0xc0 + 55 + (bytesOf n).length) (by omega)
    have hcalc : ∀ l, PayloadInfo.calculate_payload_info (l :: (bytesOf n ++ rest))
      (bytesOf n).length =
        .ok ⟨1 + (bytesOf n).length, n⟩ := fun l =>
      (calculate_payload_info_eq_ok hpos hle).mpr ⟨n, rest, rfl, rfl, by omega, rfl⟩
    rw [header_long (by omega), header_long (by omega), List.cons_append, List.cons_append,
      PayloadInfo.of, PayloadInfo.of, hdata, hlist]
    constructor
    · rw [if_neg (by omega), if_neg (by omega), if_pos (by omega), Nat.add_sub_cancel_left, hcalc,
        List.length_cons, Nat.add_comm]
    · rw [if_neg (by omega), if_neg (by omega), if_neg (by omega), if_neg (by omega),
        Nat.add_sub_cancel_left, hcalc, List.length_cons, Nat.add_comm]

theorem payload_info_iff {bytes : Bytes} {p : PayloadInfo} :
    payload_info bytes = .ok p ↔ Begins bytes p := by
  refine ⟨begins_of_payload_info, fun h => payload_info_eq_ok.mpr ?_⟩
  cases h with
  | byte rest hb =>
    refine ⟨?_, ?_⟩
    · rw [PayloadInfo.of, if_pos hb]
    · simp [PayloadInfo.total]
  | data hsize hn =>
    refine ⟨(of_header hsize _).1, ?_⟩
    dsimp only [PayloadInfo.total]
    rw [List.length_append]
    omega
  | list hsize hn =>
    refine ⟨(of_header hsize _).2, ?_⟩
    dsimp only [PayloadInfo.total]
    rw [List.length_append]
    omega

/-! ## Whole items -/

/-- The bytes are those of one item. -/
def Whole (raw : Bytes) : Prop := ∃ p, payload_info raw = .ok p ∧ p.total = raw.length

/-- What comes after an item does not matter. -/
theorem payload_info_append {raw : Bytes} {p : PayloadInfo} (h : payload_info raw = .ok p)
    (rest : Bytes) :
    payload_info (raw ++ rest) = .ok p := by
  rw [payload_info_iff] at h ⊢
  cases h with
  | byte rest' hb => exact .byte _ hb
  | data hsize hn =>
    rw [List.append_assoc]
    exact .data hsize (by rw [List.length_append]; omega)
  | list hsize hn =>
    rw [List.append_assoc]
    exact .list hsize (by rw [List.length_append]; omega)

theorem Whole.pos {raw : Bytes} (h : Whole raw) : 0 < raw.length := by
  obtain ⟨p, hp, -⟩ := h
  rcases raw with _ | ⟨l, rest⟩
  · cases hp
  · exact Nat.succ_pos _

namespace View

theorem consume_items_flatten {items : List Bytes} (hitems : ∀ raw ∈ items, Whole raw)
    (rest : Bytes) :
    consume_items (items.flatten ++ rest) items.length = .ok rest := by
  induction items with
  | nil => rfl
  | cons raw items ih =>
    obtain ⟨p, hp, htotal⟩ := hitems raw List.mem_cons_self
    rw [List.flatten_cons, List.append_assoc, List.length_cons, consume_items,
      payload_info_append hp]
    show consume_items ((raw ++ (items.flatten ++ rest)).drop p.total) items.length = .ok rest
    rw [htotal, List.drop_left]
    exact ih fun raw' h => hitems raw' (List.mem_cons_of_mem _ h)

variable {items : List Bytes}

theorem is_list_listOf (hsize : items.flatten.length < 2 ^ 64) : is_list ⟨listOf items⟩ = true := by
  unfold listOf is_list
  by_cases hn : items.flatten.length < 56
  · rw [header_short hn, List.singleton_append]
    show decide (0xc0 ≤ (UInt8.ofNat (0xc0 + items.flatten.length)).toNat) = true
    rw [toNat_ofNat_lt (by omega), decide_eq_true_eq]
    omega
  · obtain ⟨hpos, hle⟩ := bytesOf_length_mem (n := items.flatten.length) (by omega) hsize
    rw [header_long (by omega), List.cons_append]
    show decide (0xc0 ≤ (UInt8.ofNat (0xc0 + 55 + (bytesOf items.flatten.length).length)).toNat) =
      true
    rw [toNat_ofNat_lt (by omega), decide_eq_true_eq]
    omega

theorem payload_listOf (hsize : items.flatten.length < 2 ^ 64) :
    consume_list_payload ⟨listOf items⟩ = .ok items.flatten := by
  have hinfo := payload_info_iff.mpr (@Begins.list items.flatten.length items.flatten hsize le_rfl)
  unfold consume_list_payload listOf
  rw [hinfo]
  show Except.ok _ = _
  rw [List.drop_left, List.take_length]

/-- With nothing after the list, every access sees its payload. -/
theorem following_listOf (hsize : items.flatten.length < 2 ^ 64) (fresh : Bool) :
    following ⟨listOf items⟩ fresh = .ok items.flatten := by
  cases fresh with
  | true => exact payload_listOf hsize
  | false =>
    have hinfo :=
      payload_info_iff.mpr (@Begins.list items.flatten.length items.flatten hsize le_rfl)
    unfold following listOf
    rw [if_neg Bool.false_ne_true, hinfo]
    show Except.ok _ = _
    rw [List.drop_left]

/-- The items of a list. -/
theorem item_from_listOf (hsize : items.flatten.length < 2 ^ 64) (hitems : ∀ raw ∈ items, Whole raw)
    (fresh : Bool) {i : ℕ} {raw : Bytes} (hraw : items[i]? = some raw) :
    item_from ⟨listOf items⟩ fresh i = .ok ⟨raw⟩ := by
  obtain ⟨hi, hget⟩ := List.getElem?_eq_some_iff.mp hraw
  obtain ⟨p, hp, htotal⟩ := hitems raw (List.mem_of_getElem? hraw)
  have hsplit : items.flatten = (items.take i).flatten ++
      (raw ++ (items.drop (i + 1)).flatten) := by
    conv_lhs => rw [← List.take_append_drop i items, List.drop_eq_getElem_cons hi, hget]
    rw [List.flatten_append, List.flatten_cons]
  have hconsume : consume_items items.flatten i = .ok (raw ++ (items.drop (i + 1)).flatten) := by
    have htake := @consume_items_flatten (items.take i)
      (fun raw' h => hitems raw' (List.mem_of_mem_take h)) (raw ++ (items.drop (i + 1)).flatten)
    rwa [List.length_take, Nat.min_eq_left hi.le, ← hsplit] at htake
  unfold item_from
  rw [if_pos (is_list_listOf hsize), following_listOf hsize]
  show (consume_items items.flatten i >>= _) = _
  rw [hconsume]
  show (payload_info (raw ++ _) >>= _) = _
  rw [payload_info_append hp]
  show Except.ok (View.mk ((raw ++ (items.drop (i + 1)).flatten).take p.total)) = _
  rw [htotal, List.take_left]

theorem item_at_listOf (hsize : items.flatten.length < 2 ^ 64)
    (hitems : ∀ raw ∈ items, Whole raw) {i : ℕ}
    {raw : Bytes} (hraw : items[i]? = some raw) : item_at ⟨listOf items⟩ i = .ok ⟨raw⟩ :=
  item_from_listOf hsize hitems _ hraw

/-- There is no item after the last one. -/
theorem item_at_end (hsize : items.flatten.length < 2 ^ 64) (hitems : ∀ raw ∈ items, Whole raw) :
    item_at ⟨listOf items⟩ items.length = .error .RlpIsTooShort := by
  have hconsume := consume_items_flatten hitems []
  rw [List.append_nil] at hconsume
  unfold item_at item_from
  rw [if_pos (is_list_listOf hsize), following_listOf hsize]
  show (consume_items items.flatten items.length >>= _) = _
  rw [hconsume]
  rfl

theorem countFrom_eq {rlp : View} {n : ℕ} {e : DecoderError} (hend : rlp.item_at n = .error e)
    (fuel k : ℕ) (hk : k ≤ n) (hfuel : n - k ≤ fuel)
    (hitems : ∀ i, k ≤ i → i < n → ∃ item, rlp.item_at i = .ok item) :
    rlp.countFrom fuel k = n := by
  induction fuel generalizing k with
  | zero =>
    show k = n
    omega
  | succ fuel ih =>
    unfold countFrom
    by_cases hkn : k = n
    · subst hkn
      rw [hend]
    · obtain ⟨item, hitem⟩ := hitems k le_rfl (by omega)
      rw [hitem]
      exact ih (k + 1) (by omega) (by omega) fun i hi hin => hitems i (by omega) hin

theorem countFrom_listOf (hsize : items.flatten.length < 2 ^ 64)
    (hitems : ∀ raw ∈ items, Whole raw) :
    countFrom ⟨listOf items⟩ (listOf items).length 0 = items.length := by
  have hlen : items.length ≤ items.flatten.length := by
    clear hsize
    induction items with
    | nil => exact Nat.zero_le _
    | cons raw items ih =>
      have hpos := (hitems raw List.mem_cons_self).pos
      have hrest := ih fun raw' h => hitems raw' (List.mem_cons_of_mem _ h)
      rw [List.flatten_cons, List.length_append, List.length_cons]
      omega
  refine countFrom_eq (item_at_end hsize hitems) _ 0 (Nat.zero_le _) ?_ fun i _ hi => ?_
  · rw [listOf, List.length_append]
    omega
  · exact ⟨_, item_at_listOf hsize hitems (List.getElem?_eq_getElem hi)⟩

theorem item_count_listOf (hsize : items.flatten.length < 2 ^ 64)
    (hitems : ∀ raw ∈ items, Whole raw) :
    item_count ⟨listOf items⟩ = .ok items.length := by
  unfold item_count
  rw [if_pos (is_list_listOf hsize)]
  exact congrArg Except.ok (countFrom_listOf hsize hitems)

theorem val_at_listOf {α : Type} [Readable α] (hsize : items.flatten.length < 2 ^ 64)
    (hitems : ∀ raw ∈ items, Whole raw) {i : ℕ} {raw : Bytes} (hraw : items[i]? = some raw) :
    (val_at ⟨listOf items⟩ i : Except DecoderError α) = Readable.read ⟨raw⟩ := by
  unfold val_at
  rw [item_at_listOf hsize hitems hraw]
  rfl

theorem val_anew_listOf {α : Type} [Readable α] (hsize : items.flatten.length < 2 ^ 64)
    (hitems : ∀ raw ∈ items, Whole raw) {i : ℕ} {raw : Bytes} (hraw : items[i]? = some raw) :
    (val_anew ⟨listOf items⟩ i : Except DecoderError α) = Readable.read ⟨raw⟩ := by
  unfold val_anew item_anew
  rw [item_from_listOf hsize hitems _ hraw]
  rfl

end View

/-! ## Strings -/

/-- The string that comes after a head, which must not be a single small byte. -/
theorem decode_value_header {α : Type} (f : Bytes → Except DecoderError α) {bytes : Bytes}
    (hsize : bytes.length < 2 ^ 64) :
    View.decode_value ⟨header 0x80 bytes.length ++ bytes⟩ f =
      if bytes.length = 1 ∧ bytes.head?.any (· < 0x80) = true then .error .RlpInvalidIndirection
      else f bytes := by
  unfold View.decode_value
  by_cases hn : bytes.length < 56
  · have hl := toNat_ofNat_lt (n := 0x80 + bytes.length) (by omega)
    have hone : UInt8.ofNat (0x80 + bytes.length) = 0x81 ↔ bytes.length = 1 := by
      rw [← UInt8.toNat_inj, hl]
      show 0x80 + bytes.length = 0x81 ↔ _
      omega
    rw [header_short hn, List.singleton_append]
    dsimp only
    rw [hl, if_neg (by omega), if_pos (by omega), Nat.add_sub_cancel_left, if_neg (by omega),
      List.take_length]
    simp only [hone]
  · obtain ⟨hpos, hle⟩ := bytesOf_length_mem (n := bytes.length) (by omega) hsize
    have hl := toNat_ofNat_lt (n := 0x80 + 55 + (bytesOf bytes.length).length) (by omega)
    have hlen : PayloadInfo.decode_usize (bytesOf bytes.length) = .ok bytes.length := by
      refine decode_usize_eq_ok.mpr ⟨hle, ?_, (numberOf_bytesOf _).symm⟩
      exact fun h => head_bytesOf_ne_zero h rfl
    rw [header_long (by omega), List.cons_append]
    dsimp only
    rw [hl, if_neg (by omega), if_neg (by omega), if_pos (by omega), Nat.add_sub_cancel_left,
      if_neg (by rw [List.length_append]; omega), List.take_left, hlen, List.drop_left]
    show (if (bytesOf bytes.length ++ bytes).length < (bytesOf bytes.length).length +
      bytes.length then _
      else f (bytes.take bytes.length)) = _
    rw [if_neg (by rw [List.length_append]; omega), List.take_length, if_neg (by omega)]

theorem encodeData_byte {b : UInt8} (hb : b.toNat ≤ 0x7f) : encodeData [b] = [b] :=
  if_pos (show b.toNat < 0x80 by omega)

/-- Any other string has a head. -/
theorem encodeData_header {bytes : Bytes}
    (h : ¬(bytes.length = 1 ∧ bytes.head?.any (· < 0x80) = true)) :
    encodeData bytes = header 0x80 bytes.length ++ bytes := by
  unfold encodeData
  split
  · rename_i b
    have hb : ¬b < 0x80 := fun hb => h ⟨rfl, by simpa using hb⟩
    rw [if_neg hb]
    rfl
  · rfl

theorem encodeData_cases (bytes : Bytes) :
    (∃ b : UInt8, b.toNat ≤ 0x7f ∧ bytes = [b]) ∨
      ¬(bytes.length = 1 ∧ bytes.head?.any (· < 0x80) = true) := by
  by_cases h : bytes.length = 1 ∧ bytes.head?.any (· < 0x80) = true
  · obtain ⟨b, rfl⟩ := List.length_eq_one_iff.mp h.1
    have hb : b < 0x80 := by simpa using h.2
    have hb : b.toNat < 0x80 := hb
    exact .inl ⟨b, by omega, rfl⟩
  · exact .inr h

theorem whole_encodeData {bytes : Bytes} (hsize : bytes.length < 2 ^ 64) :
    Whole (encodeData bytes) := by
  rcases encodeData_cases bytes with ⟨b, hb, rfl⟩ | h
  · rw [encodeData_byte hb]
    exact ⟨_, payload_info_iff.mpr (.byte [] hb), rfl⟩
  · rw [encodeData_header h]
    refine ⟨_, payload_info_iff.mpr (.data hsize le_rfl), ?_⟩
    rw [List.length_append]
    rfl

/-- The bytes are a list of whole items, and nothing else. A slice holds less than `2 ^ 63`
    bytes. -/
def OnlyItems (bytes : Bytes) : Prop :=
  ∃ items : List Bytes, (∀ raw ∈ items, Whole raw) ∧ items.flatten.length < 2 ^ 63 ∧
    bytes = listOf items

theorem whole_listOf {items : List Bytes} (hsize : items.flatten.length < 2 ^ 64) :
    Whole (listOf items) := by
  refine ⟨_, payload_info_iff.mpr (.list hsize le_rfl), ?_⟩
  rw [listOf, List.length_append]
  rfl

/-- A string is read as it was written. -/
theorem decode_value_encodeData {α : Type} (f : Bytes → Except DecoderError α) {bytes : Bytes}
    (hsize : bytes.length < 2 ^ 64) : View.decode_value ⟨encodeData bytes⟩ f = f bytes := by
  rcases encodeData_cases bytes with ⟨b, hb, rfl⟩ | h
  · rw [encodeData_byte hb]
    exact if_pos hb
  · rw [encodeData_header h, decode_value_header f hsize, if_neg h]

theorem readData_encodeData {α : Type} [Decodable α] {bytes : Bytes} {v : α}
    (hsize : bytes.length < 2 ^ 64)
    (hdecode : Decodable.decode (.data bytes) = .ok v) : readData ⟨encodeData bytes⟩ = .ok v := by
  unfold readData
  rw [decode_value_encodeData _ hsize, hdecode]

/-- A string is read in one spelling only. -/
theorem eq_encodeData_of_decode_value {α : Type} {f : Bytes → Except DecoderError α}
    {raw : Bytes} {v : α}
    (hwhole : Whole raw) (h : View.decode_value ⟨raw⟩ f = .ok v) :
    ∃ bytes, bytes.length < 2 ^ 64 ∧ raw = encodeData bytes ∧ f bytes = .ok v := by
  obtain ⟨p, hp, htotal⟩ := hwhole
  cases payload_info_iff.mp hp with
  | byte rest hb =>
    rename_i b
    have hrest : rest = [] := List.length_eq_zero_iff.mp (by
      simp only [PayloadInfo.total, List.length_cons] at htotal
      omega)
    subst hrest
    refine ⟨[b], by simp, (encodeData_byte hb).symm, ?_⟩
    have hread : View.decode_value ⟨[b]⟩ f = f [b] := if_pos hb
    rwa [hread] at h
  | data hsize hn =>
    rename_i n bytes
    have hlen : n = bytes.length := by
      simp only [PayloadInfo.total, List.length_append] at htotal
      omega
    subst hlen
    rw [decode_value_header f hsize] at h
    split at h
    · cases h
    · rename_i hne
      exact ⟨bytes, hsize, (encodeData_header hne).symm, h⟩
  | list hsize hn =>
    rename_i n bytes
    have hfirst : ∃ l rest, header 0xc0 n ++ bytes = l :: rest ∧ 0xbf < l.toNat := by
      by_cases hshort : n < 56
      · rw [header_short hshort]
        exact ⟨_, _, rfl, by rw [toNat_ofNat_lt (by omega)]; omega⟩
      · obtain ⟨hpos, hle⟩ := bytesOf_length_mem (n := n) (by omega) hsize
        rw [header_long (by omega)]
        exact ⟨_, _, rfl, by rw [toNat_ofNat_lt (by omega)]; omega⟩
    obtain ⟨l, rest, hbytes, hl⟩ := hfirst
    rw [hbytes, View.decode_value] at h
    dsimp only at h
    rw [if_neg (by omega), if_neg (by omega), if_neg (by omega)] at h
    cases h

/-! ## Items -/

theorem length_encode_le {items : List Item} {item : Item} (hitem : item ∈ items) :
    (encode item).length ≤ (items.map encode).flatten.length :=
  (List.sublist_flatten_of_mem (List.mem_map_of_mem hitem)).length_le

theorem length_payload_le (items : List Item) :
    (items.map encode).flatten.length ≤ (encode (.list items)).length := by
  rw [encode_list, listOf, List.length_append]
  exact Nat.le_add_left _ _

theorem whole_encode {item : Item} (hsize : (encode item).length < 2 ^ 64) :
    Whole (encode item) := by
  cases item with
  | data bytes =>
    rw [encode] at hsize ⊢
    exact whole_encodeData ((length_le_encodeData bytes).trans_lt hsize)
  | list items =>
    have hle := length_payload_le items
    rw [encode_list]
    exact whole_listOf (by omega)

/-- The items of a list that is not too long. -/
theorem whole_items {items : List Item} (hsize : (encode (.list items)).length < 2 ^ 64) :
    (items.map encode).flatten.length < 2 ^ 64 ∧ ∀ raw ∈ items.map encode, Whole raw := by
  have hle := length_payload_le items
  refine ⟨by omega, fun raw hraw => ?_⟩
  obtain ⟨item, hitem, rfl⟩ := List.mem_map.mp hraw
  have hitem := length_encode_le hitem
  exact whole_encode (by omega)

theorem length_encode_lt {items : List Item} (hsize : (encode (.list items)).length < 2 ^ 64)
    {item : Item}
    (hitem : item ∈ items) : (encode item).length < 2 ^ 64 :=
  ((length_encode_le hitem).trans (length_payload_le items)).trans_lt hsize

namespace View

theorem item_count_encode {items : List Item} (hsize : (encode (.list items)).length < 2 ^ 64) :
    item_count ⟨encode (.list items)⟩ = .ok items.length := by
  obtain ⟨hflat, hwhole⟩ := whole_items hsize
  rw [encode_list, item_count_listOf hflat hwhole, List.length_map]

theorem item_at_encode {items : List Item} (hsize : (encode (.list items)).length < 2 ^ 64) {i : ℕ}
    {item : Item} (hitem : items[i]? = some item) :
    item_at ⟨encode (.list items)⟩ i = .ok ⟨encode item⟩ := by
  obtain ⟨hflat, hwhole⟩ := whole_items hsize
  rw [encode_list]
  exact item_at_listOf hflat hwhole (by rw [List.getElem?_map, hitem]; rfl)

theorem val_at_encode {α : Type} [Readable α] {items : List Item}
    (hsize : (encode (.list items)).length < 2 ^ 64) {i : ℕ} {item : Item}
    (hitem : items[i]? = some item) :
    (val_at ⟨encode (.list items)⟩ i : Except DecoderError α) = Readable.read ⟨encode item⟩ := by
  unfold val_at
  rw [item_at_encode hsize hitem]
  rfl

end View

/-- A loop that reads the elements of a list by their numbers. -/
theorem mapM_range'_eq_ok {ε α : Type} {f : ℕ → Except ε α} {values : List α} (k : ℕ)
    (h : ∀ i v, values[i]? = some v → f (k + i) = .ok v) :
    (List.range' k values.length).mapM f = .ok values := by
  induction values generalizing k with
  | nil => rfl
  | cons v values ih =>
    have hhead : f k = .ok v := h 0 v rfl
    have htail := ih (k + 1) fun i v' hv' => by
      have := h (i + 1) v' hv'
      rwa [← Nat.add_assoc, Nat.add_right_comm] at this
    rw [List.length_cons, List.range'_succ, List.mapM_cons, hhead]
    show ((List.range' (k + 1) values.length).mapM f >>= _) = _
    rw [htail]
    rfl

/-- The values of a list. -/
theorem as_list_encode {α : Type} [Readable α] {values : List α} {item : α → Item}
    (hsize : (encode (.list (values.map item))).length < 2 ^ 64)
    (hread : ∀ v ∈ values, Readable.read ⟨encode (item v)⟩ = .ok v) :
    View.as_list ⟨encode (.list (values.map item))⟩ = .ok values := by
  obtain ⟨hflat, hwhole⟩ := whole_items hsize
  rw [encode_list]
  unfold View.as_list
  rw [View.countFrom_listOf hflat hwhole, List.length_map, List.length_map, List.range_eq_range']
  refine mapM_range'_eq_ok 0 fun i v hv => ?_
  have hraw : ((values.map item).map encode)[0 + i]? = some (encode (item v)) := by
    rw [Nat.zero_add, List.getElem?_map, List.getElem?_map, hv]
    rfl
  rw [View.val_at_listOf hflat hwhole hraw]
  exact hread v (List.mem_of_getElem? hv)

theorem encode_injective {item item' : Item} (hsize : (encode item).length < 2 ^ 64)
    (h : encode item = encode item') : item = item' := by
  have hread := read_encode hsize
  rw [h, read_encode (h ▸ hsize)] at hread
  exact (Option.some.inj hread).symm

theorem is_list_encodeData {bytes : Bytes} (hsize : bytes.length < 2 ^ 64) :
    View.is_list ⟨encodeData bytes⟩ = false := by
  rcases encodeData_cases bytes with ⟨b, hb, rfl⟩ | h
  · rw [encodeData_byte hb]
    exact decide_eq_false (by omega)
  · rw [encodeData_header h]
    by_cases hn : bytes.length < 56
    · rw [header_short hn]
      exact decide_eq_false (by rw [toNat_ofNat_lt (by omega)]; omega)
    · obtain ⟨hpos, hle⟩ := bytesOf_length_mem (n := bytes.length) (by omega) hsize
      rw [header_long (by omega)]
      exact decide_eq_false (by rw [toNat_ofNat_lt (by omega)]; omega)

/-- An item that is read as an optional value that is there. -/
theorem read_option_eq_some {α : Type} [Readable α] {item : Item} {v : α}
    (hsize : (encode item).length < 2 ^ 64) :
    (Readable.read ⟨encode item⟩ : Except DecoderError (Option α)) = .ok (some v) ↔
      ∃ item', item = .list [item'] ∧ Readable.read ⟨encode item'⟩ = .ok v := by
  constructor
  · intro h
    obtain ⟨n, hn, h⟩ := bind_eq_ok.mp h
    cases item with
    | data bytes =>
      rw [encode] at hn hsize
      unfold View.item_count at hn
      rw [is_list_encodeData ((length_le_encodeData bytes).trans_lt hsize)] at hn
      cases hn
    | list items =>
      obtain ⟨hflat, hwhole⟩ := whole_items hsize
      rw [encode_list] at hn h
      rw [View.item_count_listOf hflat hwhole] at hn
      cases hn
      match items with
      | [] => cases h
      | [item'] =>
        obtain ⟨v', hv', h⟩ := bind_eq_ok.mp h
        rw [View.val_at_listOf hflat hwhole (i := 0) rfl] at hv'
        cases h
        exact ⟨item', rfl, hv'⟩
      | _ :: _ :: _ => cases h
  · rintro ⟨item', rfl, hread⟩
    obtain ⟨hflat, hwhole⟩ := whole_items hsize
    rw [encode_list]
    refine bind_eq_ok.mpr ⟨1, View.item_count_listOf hflat hwhole, ?_⟩
    refine bind_eq_ok.mpr ⟨v, ?_, rfl⟩
    rw [View.val_at_listOf hflat hwhole (i := 0) rfl]
    exact hread

/-! ## Round trips -/

section
variable {α : Type} [Encodable α] [Readable α] {v : α} {item : Item}

/-- The value is written as the item, and read from it as long as its bytes can be counted. -/
structure Carries (v : α) (item : Item) : Prop where
  writes : Writes v item
  read : (encode item).length < 2 ^ 64 → Readable.read ⟨encode item⟩ = .ok v

/-- An element of a list. -/
theorem Carries.val_at (h : Carries v item) {items : List Item} {i : ℕ}
    (hitem : items[i]? = some item)
    (hsize : (encode (.list items)).length < 2 ^ 64) :
    View.val_at ⟨encode (.list items)⟩ i = .ok v := by
  rw [View.val_at_encode hsize hitem]
  exact h.read (length_encode_lt hsize (List.mem_of_getElem? hitem))

/-- A list of values as an element of a list. -/
theorem list_at_encode {values : List α} {toItem : α → Item}
    (h : ∀ v ∈ values, Carries v (toItem v))
    {items : List Item} {i : ℕ} (hitem : items[i]? = some (.list (values.map toItem)))
    (hsize : (encode (.list items)).length < 2 ^ 64) :
    View.list_at ⟨encode (.list items)⟩ i = .ok values := by
  have hlist := length_encode_lt hsize (List.mem_of_getElem? hitem)
  unfold View.list_at
  rw [View.item_at_encode hsize hitem]
  refine as_list_encode hlist fun v hv => (h v hv).read ?_
  exact length_encode_lt hlist (List.mem_map_of_mem hv)

theorem Carries.round_trip (h : Carries v item) (hsize : (encode item).length < 2 ^ 64) :
    ∃ bytes, encodeValue v = .ok bytes ∧ View.as_val ⟨bytes⟩ = .ok v :=
  ⟨encode item, h.writes.encodeValue, h.read hsize⟩

end

end Rlp

end Lib
