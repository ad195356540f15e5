import CfxEvm.Abi.Compound
import CfxEvm.State.Proofs.BackendProofs

/-!
# Proofs: decoding undoes encoding

A list of values is written as its places and, behind them, what the places point to. A `Block` is a
part of such a list: what it adds to the places and to what is behind them is enough to read it
again, wherever the list begins and whatever follows it. Blocks can be put one after another, and a
closed list of blocks is read back.
-/

open Lib

namespace CfxEvm

open Abi

/-! ## Blocks of a list -/

/-- What `write` adds to a list takes `len` bytes of the places, and `read` finds `v` there. A
    static block adds nothing behind the places. -/
def Block {β : Type} (write : ABIListWriter → Except Panic ABIListWriter)
    (read : Bytes → Bytes → Except String (β × Bytes)) (len : Nat) (static : Bool) (v : β) : Prop :=
  ∀ w, ∃ heads tails,
    write w = .ok { w with heads := w.heads ++ heads, tails := w.tails ++ tails } ∧
    heads.length = len ∧ (static = true → tails = []) ∧
    ∀ data rest pointer, (static = false → data.length < 2 ^ 256) →
      data.drop (w.heads_length + w.tails.length) = tails ++ rest →
      read data (heads ++ pointer) = .ok (v, pointer)

section
variable {β γ δ : Type}

theorem Block.nil (static : Bool) (v : β) :
    Block (fun w => .ok w) (fun _ pointer => .ok (v, pointer)) 0 static v := by
  intro w
  refine ⟨[], [], ?_, rfl, fun _ => rfl, fun _ _ _ _ _ => rfl⟩
  rw [List.append_nil, List.append_nil]

/-- Two blocks, one after the other. -/
theorem Block.append {write₁ write₂ : ABIListWriter → Except Panic ABIListWriter}
    {read₁ : Bytes → Bytes → Except String (β × Bytes)}
    {read₂ : Bytes → Bytes → Except String (γ × Bytes)} {len₁ len₂ : Nat} {static₁ static₂ : Bool}
    {v₁ : β} {v₂ : γ} (h₁ : Block write₁ read₁ len₁ static₁ v₁)
    (h₂ : Block write₂ read₂ len₂ static₂ v₂) (f : β → γ → δ) :
    Block (fun w => do
        let w ← write₁ w
        write₂ w)
      (fun data pointer => do
        let (a, pointer) ← read₁ data pointer
        let (b, pointer) ← read₂ data pointer
        return (f a b, pointer))
      (len₁ + len₂) (static₁ && static₂) (f v₁ v₂) := by
  intro w
  obtain ⟨heads₁, tails₁, hwrite₁, hlen₁, hstatic₁, hread₁⟩ := h₁ w
  obtain ⟨heads₂, tails₂, hwrite₂, hlen₂, hstatic₂, hread₂⟩ :=
    h₂ { w with heads := w.heads ++ heads₁, tails := w.tails ++ tails₁ }
  refine ⟨heads₁ ++ heads₂, tails₁ ++ tails₂, ?_, ?_, ?_, ?_⟩
  · show (write₁ w >>= write₂) = _
    rw [hwrite₁]
    show write₂ _ = _
    rw [hwrite₂, List.append_assoc, List.append_assoc]
  · rw [List.length_append, hlen₁, hlen₂]
  · intro hstatic
    rw [Bool.and_eq_true] at hstatic
    rw [hstatic₁ hstatic.1, hstatic₂ hstatic.2, List.append_nil]
  · intro data rest pointer hdata hdrop
    rw [List.append_assoc] at hdrop
    have hdrop₂ : data.drop (w.heads_length + (w.tails ++ tails₁).length) = tails₂ ++ rest := by
      rw [List.length_append, ← Nat.add_assoc, ← List.drop_drop, hdrop, List.drop_left]
    show (read₁ data (heads₁ ++ heads₂ ++ pointer) >>= _) = _
    rw [List.append_assoc, hread₁ data _ _ (fun hfalse => hdata (by rw [hfalse, Bool.false_and]))
      hdrop]
    show (read₂ data (heads₂ ++ pointer) >>= _) = _
    rw [hread₂ data rest pointer (fun hfalse => hdata (by rw [hfalse, Bool.and_false])) hdrop₂]
    rfl

/-- A list that is closed behind a block is read back, whatever follows it. -/
theorem Block.closed {write : ABIListWriter → Except Panic ABIListWriter}
    {read : Bytes → Bytes → Except String (β × Bytes)} {len : Nat} {static : Bool} {v : β}
    (h : Block write read len static v) :
    ∃ bytes, (do
        let recorder ← write (.with_heads_length len)
        recorder.into_linked_bytes) = .ok bytes ∧
      len ≤ bytes.length ∧ (static = true → bytes.length = len) ∧
      ∀ junk, (static = false → (bytes ++ junk).length < 2 ^ 256) →
        ∃ pointer, read (bytes ++ junk) (bytes ++ junk) = .ok (v, pointer) := by
  obtain ⟨heads, tails, hwrite, hlen, hstatic, hread⟩ := h (.with_heads_length len)
  refine ⟨heads ++ tails, ?_, ?_, ?_, ?_⟩
  · rw [hwrite]
    exact if_pos hlen
  · rw [List.length_append, hlen]
    exact Nat.le_add_right _ _
  · intro htrue
    rw [hstatic htrue, List.append_nil, hlen]
  · intro junk hsize
    refine ⟨tails ++ junk, ?_⟩
    rw [List.append_assoc] at hsize ⊢
    refine hread _ junk (tails ++ junk) hsize ?_
    show (heads ++ (tails ++ junk)).drop (len + 0) = tails ++ junk
    rw [Nat.add_zero, ← hlen, List.drop_left]

end

/-! ## Values -/

/-- Encoding a value does not panic. What is static takes its length and is read back; what is not
    takes some bytes and is read back whatever follows it. -/
structure ABIVariable.Lawful (α : Type) [ABIVariable α] : Prop where
  static : ∀ len, ABIVariable.STATIC_LENGTH α = some len → 0 < len ∧
    ∀ x : α, ∃ bytes, ABIVariable.to_abi x = .ok bytes ∧ bytes.length = len ∧
      ABIVariable.from_abi bytes = .ok x
  dynamic : ABIVariable.STATIC_LENGTH α = none →
    ∀ x : α, ∃ bytes, ABIVariable.to_abi x = .ok bytes ∧ 0 < bytes.length ∧
      ∀ junk, (bytes ++ junk).length < 2 ^ 256 → ABIVariable.from_abi (bytes ++ junk) = .ok x

theorem length_padded_big_endian (n : Nat) : (padded_big_endian n).length = 32 :=
  length_bigEndian 32 _

theorem ofBigEndian_padded {n : Nat} (h : n < 2 ^ 256) : ofBigEndian (padded_big_endian n) = n := by
  rw [padded_big_endian, ofBigEndian_bigEndian, Nat.mod_eq_of_lt h]
  exact Nat.mod_eq_of_lt (by simpa using h)

theorem pull_slice_append {head rest : Bytes} {n : Nat} (h : head.length = n) (desc : String) :
    pull_slice (head ++ rest) n desc = .ok (head, rest) := by
  subst h
  rw [pull_slice, if_pos (by simp), List.take_left, List.drop_left]

section
variable {α : Type} [ABIVariable α]

theorem head_length_pos (h : ABIVariable.Lawful α) : 0 < head_length α := by
  unfold head_length
  rcases hlen : ABIVariable.STATIC_LENGTH α with _ | len
  · decide
  · exact (h.static len hlen).1

/-- A value is a block. -/
theorem block_value (h : ABIVariable.Lawful α) (x : α) :
    Block (fun w => w.write_down x) (read_abi_list α) (head_length α)
      (ABIVariable.STATIC_LENGTH α).isSome x := by
  intro w
  unfold ABIListWriter.write_down read_abi_list head_length
  rcases hlen : ABIVariable.STATIC_LENGTH α with _ | len
  · obtain ⟨bytes, hto, hpos, hfrom⟩ := h.dynamic hlen x
    refine ⟨padded_big_endian (w.tails.length + w.heads_length), bytes, ?_,
      length_padded_big_endian _, by simp, ?_⟩
    · rw [hto]
      rfl
    · intro data rest pointer hsmall hdrop
      have hdata := hsmall rfl
      have hlt : w.heads_length + w.tails.length < data.length := by
        have hlength := congrArg List.length hdrop
        rw [List.length_drop, List.length_append] at hlength
        omega
      have hlocation : ofBigEndian (padded_big_endian (w.tails.length + w.heads_length)) =
          w.heads_length + w.tails.length := by
        rw [Nat.add_comm]
        exact ofBigEndian_padded (by omega)
      simp only [pull_slice_append (length_padded_big_endian _)]
      show (abi_require (decide (ofBigEndian (padded_big_endian (w.tails.length + w.heads_length)) <
        data.length)) _ >>= fun _ => ABIVariable.from_abi (data.drop
        (ofBigEndian (padded_big_endian (w.tails.length + w.heads_length)))) >>= _) = _
      rw [hlocation, decide_eq_true hlt, hdrop]
      show (ABIVariable.from_abi (bytes ++ rest) >>= _) = _
      rw [hfrom rest]
      · rfl
      · rw [← hdrop, List.length_drop]
        omega
  · obtain ⟨-, hvalues⟩ := h.static len hlen
    obtain ⟨bytes, hto, hlength, hfrom⟩ := hvalues x
    refine ⟨bytes, [], ?_, hlength, fun _ => rfl, ?_⟩
    · rw [hto, List.append_nil]
      exact if_pos hlength
    · intro data rest pointer _ _
      simp only [pull_slice_append hlength]
      show (ABIVariable.from_abi bytes >>= _) = _
      rw [hfrom]
      rfl

end

/-! ## Basic types -/

/-- A type whose values take a word. -/
theorem lawful_of_word {α : Type} [ABIVariable α] (hlen : ABIVariable.STATIC_LENGTH α = some 32)
    {word : α → Bytes} (hto : ∀ x : α, ABIVariable.to_abi x = .ok (word x))
    (hlength : ∀ x, (word x).length = 32)
    (hfrom : ∀ x, ABIVariable.from_abi (word x) = .ok x) : ABIVariable.Lawful α where
  static len h := by
    obtain rfl := Option.some_inj.mp (hlen.symm.trans h)
    exact ⟨by decide, fun x => ⟨word x, hto x, hlength x, hfrom x⟩⟩
  dynamic h := by
    rw [hlen] at h
    cases h

/-- A number of so many bytes behind zeros. -/
theorem ofBigEndian_padded_left {n : Nat} (bytes : Nat) (hbytes : bytes ≤ 32)
    (hn : n < 256 ^ bytes) :
    (List.replicate (32 - bytes) (0 : UInt8) ++ bigEndian bytes n).length = 32 ∧
      ofBigEndian ((List.replicate (32 - bytes) (0 : UInt8) ++ bigEndian bytes n).drop
        (32 - bytes)) =
        n := by
  constructor
  · rw [List.length_append, List.length_replicate, length_bigEndian]
    omega
  · rw [List.drop_left' (List.length_replicate), ofBigEndian_bigEndian, Nat.mod_eq_of_lt hn]

theorem lawful_address : ABIVariable.Lawful Address := by
  refine lawful_of_word rfl (fun _ => rfl) (fun a => ?_) fun a => ?_
  · exact (ofBigEndian_padded_left 20 (by decide) a.isLt).1
  · obtain ⟨hlength, hvalue⟩ := ofBigEndian_padded_left 20 (by decide) a.isLt
    show (abi_require ((List.replicate (32 - 20) (0 : UInt8) ++ bigEndian 20 a.toNat).length
      == 32) _ >>=
      fun _ => Except.ok (BitVec.ofNat 160 (ofBigEndian
        ((List.replicate (32 - 20) (0 : UInt8) ++ bigEndian 20 a.toNat).drop (32 - 20))))) = _
    rw [hlength, hvalue, BitVec.ofNat_toNat, BitVec.setWidth_eq]
    rfl

theorem lawful_primitive (bytes : Nat) (hbytes : bytes ≤ 32) :
    @ABIVariable.Lawful (BitVec (8 * bytes)) (ABIVariable.primitive bytes) := by
  have hlt : ∀ v : BitVec (8 * bytes), v.toNat < 256 ^ bytes := by
    intro v
    have h := v.isLt
    rwa [Nat.pow_mul] at h
  refine @lawful_of_word _ (ABIVariable.primitive bytes) rfl _ (fun _ => rfl) (fun v => ?_)
    fun v => ?_
  · exact (ofBigEndian_padded_left bytes hbytes (hlt v)).1
  · obtain ⟨hlength, hvalue⟩ := ofBigEndian_padded_left bytes hbytes (hlt v)
    show (abi_require
      ((List.replicate (32 - bytes) (0 : UInt8) ++ bigEndian bytes v.toNat).length == 32) _ >>=
      fun _ => Except.ok (BitVec.ofNat (8 * bytes) (ofBigEndian
        ((List.replicate (32 - bytes) (0 : UInt8) ++ bigEndian bytes v.toNat).drop
          (32 - bytes))))) = _
    rw [hlength, hvalue, BitVec.ofNat_toNat, BitVec.setWidth_eq]
    rfl

theorem lawful_u256 : ABIVariable.Lawful U256 := by
  refine lawful_of_word rfl (fun _ => rfl) (fun v => length_bigEndian 32 _) fun v => ?_
  show (abi_require ((bigEndian 32 v.toNat).length == 32) _ >>=
    fun _ => Except.ok (BitVec.ofNat 256 (ofBigEndian (bigEndian 32 v.toNat)))) = _
  rw [length_bigEndian, ofNat_bigEndian]
  rfl

theorem lawful_bool : ABIVariable.Lawful Bool := by
  refine lawful_of_word rfl (fun _ => rfl) (fun b => ?_) fun b => ?_
  · simp
  · cases b <;> rfl

/-- The bytes of an array are read again. -/
theorem from_abi_fixed_bytes {n : Nat} (b : FixedBytes n) (rest : Bytes) :
    (ABIVariable.from_abi (b.1 ++ rest) : Except String (FixedBytes n)) = .ok b := by
  obtain ⟨bytes, rfl⟩ := b
  show (if h : bytes.length ≤ (bytes ++ rest).length then _ else _) = _
  rw [dif_pos (by simp)]
  exact congrArg Except.ok (Subtype.ext List.take_left)

theorem lawful_fixed_bytes {n : Nat} (hn : n ≤ 32) : ABIVariable.Lawful (FixedBytes n) := by
  refine lawful_of_word rfl (fun _ => rfl) (fun b => ?_) fun b => ?_
  · rw [List.length_append, b.2, List.length_replicate]
    omega
  · exact from_abi_fixed_bytes b _

theorem lawful_h256 : @ABIVariable.Lawful H256 ABIVariable.h256 := by
  refine @lawful_of_word _ ABIVariable.h256 rfl _ (fun _ => rfl) (fun h => ?_) fun h => ?_
  · rw [List.length_append, (H256.to_fixed_bytes h).2]
    rfl
  · show ((ABIVariable.from_abi ((H256.to_fixed_bytes h).1 ++ _) :
      Except String (FixedBytes 32)) >>=
      fun bytes => Except.ok (BitVec.ofNat 256 (ofBigEndian bytes.1))) = _
    rw [from_abi_fixed_bytes]
    exact congrArg Except.ok (ofNat_bigEndian h)

/-- The bytes of a string are read again, whatever follows them. -/
theorem from_abi_bytes {b : Bytes} {rest : Bytes} (hsize : b.length < 2 ^ 256) :
    (ABIVariable.from_abi (padded_big_endian b.length ++ (b ++ rest)) : Except String Bytes) =
      .ok b := by
  show (pull_slice _ 32 _ >>= _) = _
  rw [pull_slice_append (length_padded_big_endian _)]
  show (if (b ++ rest).length < ofBigEndian (padded_big_endian b.length) then _ else _) = _
  rw [ofBigEndian_padded hsize, if_neg (by simp), List.take_left]
  rfl

theorem lawful_bytes : ABIVariable.Lawful Bytes where
  static len h := by cases h
  dynamic _ b := by
    refine ⟨_, rfl, ?_, fun junk hsize => ?_⟩
    · simp [length_padded_big_endian]
    · rw [List.append_assoc, List.append_assoc] at hsize ⊢
      refine from_abi_bytes ?_
      rw [List.length_append, List.length_append] at hsize
      omega

/-- The bytes of a text are those of that text only. -/
theorem fromUTF8_toUTF8 (s : String) :
    String.fromUTF8? ⟨s.toUTF8.data.toList.toArray⟩ = some s := by
  have hbytes : (⟨s.toUTF8.data.toList.toArray⟩ : ByteArray) = s.toByteArray := rfl
  rw [hbytes, String.fromUTF8?, dif_pos s.isValidUTF8]
  rfl

theorem lawful_string : ABIVariable.Lawful String where
  static len h := by cases h
  dynamic _ s := by
    obtain ⟨bytes, hto, hpos, hfrom⟩ := lawful_bytes.dynamic rfl s.toUTF8.data.toList
    refine ⟨bytes, hto, hpos, fun junk hsize => ?_⟩
    show ((ABIVariable.from_abi (bytes ++ junk) : Except String Bytes) >>= _) = _
    rw [hfrom junk hsize]
    simp only [bind, Except.bind, fromUTF8_toUTF8]
    rfl

/-! ## Vectors, arrays and structures -/

section
variable {α : Type} [ABIVariable α]

theorem foldlM_write_down_cons (x : α) (items : List α) :
    (fun w : ABIListWriter => (x :: items).foldlM ABIListWriter.write_down w) =
      fun w => (w.write_down x >>= fun w => items.foldlM ABIListWriter.write_down w) := by
  funext w
  exact List.foldlM_cons

/-- The items of an array are a block. -/
theorem block_items (h : ABIVariable.Lawful α) (items : List α) :
    Block (fun w => items.foldlM ABIListWriter.write_down w)
      (fun data pointer => read_items α data items.length pointer) (head_length α * items.length)
      (ABIVariable.STATIC_LENGTH α).isSome ⟨items, rfl⟩ := by
  induction items with
  | nil => exact Block.nil _ _
  | cons x items ih =>
    have hblock := (block_value h x).append ih fun x (rest : FixedArray α items.length) =>
      (⟨x :: rest.1, congrArg Nat.succ rest.2⟩ : FixedArray α (items.length + 1))
    rw [Bool.and_self] at hblock
    have hlen : head_length α * (x :: items).length =
        head_length α + head_length α * items.length := by
      rw [List.length_cons, Nat.mul_succ, Nat.add_comm]
    rw [hlen, foldlM_write_down_cons]
    exact hblock

theorem lawful_vec (h : ABIVariable.Lawful α) : @ABIVariable.Lawful (List α) ABIVariable.vec := by
  refine @ABIVariable.Lawful.mk _ ABIVariable.vec (fun len hlen => ?_) fun _ items => ?_
  · cases hlen
  · obtain ⟨bytes, hwrite, hlen, -, hread⟩ := (block_items h items).closed
    refine ⟨padded_big_endian items.length ++ bytes, ?_, ?_, fun junk hsize => ?_⟩
    · show (items.foldlM ABIListWriter.write_down
          (.with_heads_length (head_length α * items.length)) >>= fun recorder =>
        recorder.into_linked_bytes >>= fun bytes =>
          pure (padded_big_endian items.length ++ bytes)) = _
      rw [← bind_assoc]
      show (_ >>= _ : Except Panic Bytes) = _
      rw [show (items.foldlM ABIListWriter.write_down
        (ABIListWriter.with_heads_length (head_length α * items.length)) >>=
          ABIListWriter.into_linked_bytes) = .ok bytes from hwrite]
      rfl
    · rw [List.length_append, length_padded_big_endian]
      omega
    · rw [List.append_assoc] at hsize ⊢
      rw [List.length_append] at hsize
      have hcount : items.length ≤ head_length α * items.length :=
        Nat.le_mul_of_pos_left _ (head_length_pos h)
      have hitems : items.length < 2 ^ 256 := by
        rw [List.length_append] at hsize
        omega
      obtain ⟨pointer, hitemsread⟩ := hread junk fun _ => by omega
      show (pull_slice _ 32 _ >>= _) = _
      rw [pull_slice_append (length_padded_big_endian _)]
      show (read_items α (bytes ++ junk) (ofBigEndian (padded_big_endian items.length))
        (bytes ++ junk)
        >>= fun r => pure r.1.1) = _
      rw [ofBigEndian_padded hitems, hitemsread]
      rfl

theorem lawful_array (h : ABIVariable.Lawful α) {n : Nat} (hn : 1 ≤ n) :
    @ABIVariable.Lawful (FixedArray α n) (ABIVariable.array n) := by
  have hclosed : ∀ items : FixedArray α n, ∃ bytes,
      (ABIVariable.array n).to_abi items = .ok bytes ∧ head_length α * n ≤ bytes.length ∧
      ((ABIVariable.STATIC_LENGTH α).isSome = true → bytes.length = head_length α * n) ∧
      ∀ junk, ((ABIVariable.STATIC_LENGTH α).isSome = false → (bytes ++ junk).length < 2 ^ 256) →
        (ABIVariable.array n).from_abi (bytes ++ junk) = .ok items := by
    intro items
    obtain ⟨items, rfl⟩ := items
    obtain ⟨bytes, hwrite, hlen, hstatic, hread⟩ := (block_items h items).closed
    refine ⟨bytes, hwrite, hlen, hstatic, fun junk hsize => ?_⟩
    obtain ⟨pointer, hitems⟩ := hread junk hsize
    show (read_items α (bytes ++ junk) items.length (bytes ++ junk) >>= fun r => pure r.1) = _
    rw [hitems]
    rfl
  have hpos : 0 < head_length α * n := Nat.mul_pos (head_length_pos h) hn
  refine @ABIVariable.Lawful.mk _ (ABIVariable.array n) (fun len hlen => ?_) fun hlen items => ?_
  · change (ABIVariable.STATIC_LENGTH α).map (fun length => length * n) = some len at hlen
    obtain ⟨length, hlength, rfl⟩ := Option.map_eq_some_iff.mp hlen
    have hsome : (ABIVariable.STATIC_LENGTH α).isSome = true := by rw [hlength]; rfl
    have hhead : head_length α = length := by rw [head_length, hlength]; rfl
    rw [hhead] at hpos
    refine ⟨hpos, fun items => ?_⟩
    obtain ⟨bytes, hto, -, hexact, hfrom⟩ := hclosed items
    refine ⟨bytes, hto, (hexact hsome).trans (by rw [hhead]), ?_⟩
    have hread := hfrom [] fun hnone => by rw [hsome] at hnone; cases hnone
    rwa [List.append_nil] at hread
  · change (ABIVariable.STATIC_LENGTH α).map (fun length => length * n) = none at hlen
    rw [Option.map_eq_none_iff] at hlen
    obtain ⟨bytes, hto, hle, -, hfrom⟩ := hclosed items
    exact ⟨bytes, hto, by omega, fun junk hsize => hfrom junk fun _ => hsize⟩

end

/-- The fields of a structure are a block, static if all of them are. -/
structure ABIFields.Lawful (α : Type) [ABIFields α] : Prop where
  pos : 0 < ABIFields.heads_length α
  block : ∃ static : Bool,
    (∀ answer, ABIFields.static_length α answer =
      if static then answer.map (· + ABIFields.heads_length α) else none) ∧
    ∀ x : α, Block (fun w => ABIFields.write_fields w x) ABIFields.read_fields
      (ABIFields.heads_length α) static x

theorem add_static_length_head {α : Type} [ABIVariable α] (answer : Option Nat) :
    add_static_length answer (ABIVariable.STATIC_LENGTH α) =
      if (ABIVariable.STATIC_LENGTH α).isSome then answer.map (· + head_length α) else none := by
  unfold add_static_length head_length
  cases answer <;> cases ABIVariable.STATIC_LENGTH α <;> rfl

section
variable {α β : Type} [ABIVariable α] [ABIFields β]

theorem lawful_last (h : ABIVariable.Lawful α) : @ABIFields.Lawful α ABIFields.last :=
  @ABIFields.Lawful.mk α ABIFields.last (head_length_pos h)
    ⟨(ABIVariable.STATIC_LENGTH α).isSome, add_static_length_head, block_value h⟩

theorem lawful_cons (h : ABIVariable.Lawful α) (hrest : ABIFields.Lawful β) :
    ABIFields.Lawful (α × β) := by
  obtain ⟨static, hlength, hblock⟩ := hrest.block
  refine ⟨Nat.add_pos_left (head_length_pos h) _,
    (ABIVariable.STATIC_LENGTH α).isSome && static, fun answer => ?_, fun x => ?_⟩
  · show ABIFields.static_length β (add_static_length answer (ABIVariable.STATIC_LENGTH α)) = _
    rw [hlength, add_static_length_head]
    cases (ABIVariable.STATIC_LENGTH α).isSome <;> cases static <;> cases answer <;>
      first | rfl | exact congrArg some (Nat.add_assoc _ _ _)
  · exact (block_value h x.1).append (hblock x.2) Prod.mk

theorem lawful_struct (h : ABIFields.Lawful β) : ABIVariable.Lawful (Struct β) := by
  obtain ⟨static, hlength, hblock⟩ := h.block
  have hclosed : ∀ x : Struct β, ∃ bytes,
      ABIVariable.to_abi x = .ok bytes ∧ ABIFields.heads_length β ≤ bytes.length ∧
      (static = true → bytes.length = ABIFields.heads_length β) ∧
      ∀ junk, (static = false → (bytes ++ junk).length < 2 ^ 256) →
        ABIVariable.from_abi (bytes ++ junk) = .ok x := by
    intro x
    obtain ⟨bytes, hwrite, hlen, hstatic, hread⟩ := (hblock x.fields).closed
    refine ⟨bytes, hwrite, hlen, hstatic, fun junk hsize => ?_⟩
    obtain ⟨pointer, hfields⟩ := hread junk hsize
    show (ABIFields.read_fields (bytes ++ junk) (bytes ++ junk) >>=
      fun r => pure (Struct.mk r.1)) = _
    rw [hfields]
    rfl
  have hpos := h.pos
  have hstatic : ABIVariable.STATIC_LENGTH (Struct β) =
      if static then some (ABIFields.heads_length β) else none := by
    show ABIFields.static_length β (some 0) = _
    rw [hlength, Option.map_some, Nat.zero_add]
  constructor
  · intro len hlen
    rw [hstatic] at hlen
    cases static with
    | false => cases hlen
    | true =>
      obtain rfl := Option.some_inj.mp hlen
      refine ⟨hpos, fun x => ?_⟩
      obtain ⟨bytes, hto, -, hexact, hfrom⟩ := hclosed x
      refine ⟨bytes, hto, hexact rfl, ?_⟩
      have hread := hfrom [] fun hfalse => by cases hfalse
      rwa [List.append_nil] at hread
  · intro hlen x
    obtain ⟨bytes, hto, hle, -, hfrom⟩ := hclosed x
    exact ⟨bytes, hto, by omega, fun junk hsize => hfrom junk fun _ => hsize⟩

end

mutual

/-- Every type is lawful. -/
theorem AbiType.lawful : (t : AbiType) → ABIVariable.Lawful t.type
  | .address => lawful_address
  | .u256 => lawful_u256
  | .h256 => lawful_h256
  | .bool => lawful_bool
  | .primitive bytes h => lawful_primitive bytes (by
      revert h
      simp only [List.mem_cons, List.not_mem_nil, or_false]
      omega)
  | .fixed_bytes n h => lawful_fixed_bytes h.2
  | .bytes => lawful_bytes
  | .string => lawful_string
  | .vec item => @lawful_vec item.type item.variable item.lawful
  | .array item n h => @lawful_array item.type item.variable item.lawful n h
  | .struct fields => @lawful_struct fields.type fields.fields fields.lawful

theorem AbiFields.lawful : (fields : AbiFields) → @ABIFields.Lawful fields.type fields.fields
  | .last field => @lawful_last field.type field.variable field.lawful
  | .cons field rest =>
    @lawful_cons field.type rest.type field.variable rest.fields field.lawful rest.lawful

end

/-! ## Lists of parameters -/

/-- The encoding of a value does not panic, and decoding it gives the value again, whatever follows
    it in a slice. -/
def RoundTrips {α : Type} [ABIEncodable α] [ABIDecodable α] (x : α) : Prop :=
  ∃ bytes, abi_encode x = .ok bytes ∧
    ∀ junk, (bytes ++ junk).length < 2 ^ 64 → abi_decode (bytes ++ junk) = .ok x

/-- Parameters that are written and read as the fields of a structure are. -/
theorem roundTrips_of_fields {α : Type} [ABIFields α] [ABIEncodable α] [ABIDecodable α]
    (h : ABIFields.Lawful α)
    (hencode : ∀ x : α, abi_encode x =
      (ABIFields.write_fields (.with_heads_length (ABIFields.heads_length α)) x >>= fun recorder =>
        recorder.into_linked_bytes))
    (hdecode : ∀ data : Bytes, (abi_decode data : Except String α) =
      (ABIFields.read_fields data data >>= fun r => .ok r.1)) (x : α) : RoundTrips x := by
  obtain ⟨static, -, hblock⟩ := h.block
  obtain ⟨bytes, hwrite, -, -, hread⟩ := (hblock x).closed
  refine ⟨bytes, (hencode x).trans hwrite, fun junk hsize => ?_⟩
  obtain ⟨pointer, hfields⟩ := hread junk fun _ => by omega
  rw [hdecode, hfields]
  rfl

theorem read_fields_cons_bind {α β γ : Type} [ABIVariable α] [ABIFields β] (data pointer : Bytes)
    (next : (α × β) × Bytes → Except String γ) :
    (ABIFields.read_fields data pointer >>= next) =
      (read_abi_list α data pointer >>= fun r =>
        ABIFields.read_fields data r.2 >>= fun s => next ((r.1, s.1), s.2)) := by
  show ((read_abi_list α data pointer >>= _) >>= next) = _
  rw [bind_assoc]
  congr 1
  funext r
  exact bind_assoc _ _ _

section
variable {α β γ δ ε : Type} [ABIVariable α] [ABIVariable β] [ABIVariable γ] [ABIVariable δ]
  [ABIVariable ε]

theorem roundTrips_one (h : ABIVariable.Lawful α) (x : α) : RoundTrips x := by
  refine roundTrips_of_fields (lawful_last h) (fun _ => rfl) (fun data => ?_) x
  show (read_abi_list α data data).map Prod.fst = (read_abi_list α data data >>= _)
  cases read_abi_list α data data <;> rfl

theorem roundTrips_two (h : ABIFields.Lawful (α × β)) (x : α × β) : RoundTrips x := by
  refine roundTrips_of_fields h (fun x => ?_) (fun data => ?_) x
  · exact (bind_assoc _ _ _).symm
  · rw [read_fields_cons_bind]
    rfl

theorem roundTrips_three (h : ABIFields.Lawful (α × β × γ)) (x : α × β × γ) : RoundTrips x := by
  refine roundTrips_of_fields h (fun x => ?_) (fun data => ?_) x
  · simp only [abi_encode, ABIFields.write_fields, ABIFields.heads_length, bind_assoc,
      Nat.add_assoc]
  · simp only [read_fields_cons_bind]
    rfl

theorem roundTrips_four (h : ABIFields.Lawful (α × β × γ × δ)) (x : α × β × γ × δ) :
    RoundTrips x := by
  refine roundTrips_of_fields h (fun x => ?_) (fun data => ?_) x
  · simp only [abi_encode, ABIFields.write_fields, ABIFields.heads_length, bind_assoc,
      Nat.add_assoc]
  · simp only [read_fields_cons_bind]
    rfl

theorem roundTrips_five (h : ABIFields.Lawful (α × β × γ × δ × ε)) (x : α × β × γ × δ × ε) :
    RoundTrips x := by
  refine roundTrips_of_fields h (fun x => ?_) (fun data => ?_) x
  · simp only [abi_encode, ABIFields.write_fields, ABIFields.heads_length, bind_assoc,
      Nat.add_assoc]
  · simp only [read_fields_cons_bind]
    rfl

end

/-- Decoding undoes encoding, for every type and for lists of two to five parameters. -/
theorem abi_decode_abi_encode (a b c d e : AbiType) :
    (∀ x : a.type, RoundTrips x) ∧
    (∀ x : a.type × b.type, RoundTrips x) ∧
    (∀ x : a.type × b.type × c.type, RoundTrips x) ∧
    (∀ x : a.type × b.type × c.type × d.type, RoundTrips x) ∧
    (∀ x : a.type × b.type × c.type × d.type × e.type, RoundTrips x) := by
  refine ⟨roundTrips_one a.lawful, roundTrips_two ?_, roundTrips_three ?_, roundTrips_four ?_,
    roundTrips_five ?_⟩
  · exact (AbiFields.cons a (.last b)).lawful
  · exact (AbiFields.cons a (.cons b (.last c))).lawful
  · exact (AbiFields.cons a (.cons b (.cons c (.last d)))).lawful
  · exact (AbiFields.cons a (.cons b (.cons c (.cons d (.last e))))).lawful

/-- A vector of texts behind a number, with a byte after them. -/
theorem texts_are_read_back :
    ∃ bytes, abi_encode (((7 : U256), ["a", "bc"]) : AbiType.u256.type ×
      (AbiType.vec .string).type) =
        .ok bytes ∧
      (abi_decode (bytes ++ [1]) : Except String (AbiType.u256.type × (AbiType.vec .string).type)) =
        .ok ((7 : U256), ["a", "bc"]) := by
  obtain ⟨bytes, hencode, hdecode⟩ :=
    (abi_decode_abi_encode .u256 (.vec .string) .bool .bool .bool).2.1 ((7 : U256), ["a", "bc"])
  refine ⟨bytes, hencode, hdecode [1] ?_⟩
  have hlength : ((abi_encode (((7 : U256), ["a", "bc"]) :
      AbiType.u256.type × (AbiType.vec .string).type)).toOption.map List.length) = some 288 := by
    decide +kernel
  rw [hencode] at hlength
  have hbytes : bytes.length = 288 := Option.some_inj.mp hlength
  rw [List.length_append, hbytes]
  decide

end CfxEvm
