import CfxEvm.Execution.RevertReason

/-!
# Proofs: revert reasons

What the output of a contract has to look like for it to give a reason, and which part of the reason
is shown. The reason is cut at a number of bytes, so cutting it fails just when the cut is inside a
character.
-/

open Lib

namespace CfxEvm

/-! ## Outputs that give a reason -/

/-- The bytes of a text in UTF-8. -/
def utf8 (s : String) : Bytes := s.toUTF8.data.toList

/-- The output is a call of `Error(string)` with these bytes as the text: behind the selector the
    first word is the location of the text, at which there is a word with its length, and then its
    bytes. -/
structure EncodesText (output text : Bytes) : Prop where
  selector : output.take 4 = [8, 195, 121, 160]
  head : 32 ≤ (output.drop 4).length
  location : ofBigEndian ((output.drop 4).take 32) < (output.drop 4).length
  length : 32 ≤ ((output.drop 4).drop (ofBigEndian ((output.drop 4).take 32))).length
  size : ofBigEndian (((output.drop 4).drop (ofBigEndian ((output.drop 4).take 32))).take 32) =
    text.length
  bytes : text <+: ((output.drop 4).drop (ofBigEndian ((output.drop 4).take 32))).drop 32

/-- The output gives the reason. Its bytes are those of a text, so they are valid UTF-8. -/
def GivesReason (output : Bytes) (reason : String) : Prop := EncodesText output (utf8 reason)

/-- What is shown of the output: nothing unless it gives a reason, a short reason, or the beginning
    of a longer one. -/
def DecodesSafely (output : Bytes) : Prop :=
  ∃ text, revert_reason_decode output = .ok text ∧
    ((∀ reason, ¬GivesReason output reason) → text = "") ∧
    ∀ reason, GivesReason output reason →
      ((utf8 reason).length < 50 → text = reason) ∧
      (50 ≤ (utf8 reason).length → ∃ part, utf8 part <+: utf8 reason ∧ text = part ++ "...")

/-! ## Texts and their bytes -/

theorem from_utf8_utf8 (s : String) : from_utf8 (utf8 s) = some s := by
  unfold from_utf8 utf8 String.fromUTF8?
  exact dif_pos s.isValidUTF8

theorem utf8_of_from_utf8 {bytes : Bytes} {s : String} (h : from_utf8 bytes = some s) :
    utf8 s = bytes := by
  unfold from_utf8 String.fromUTF8? at h
  split at h
  · obtain rfl := Option.some_inj.mp h
    rfl
  · cases h

theorem utf8_inj {s t : String} (h : utf8 s = utf8 t) : s = t := by
  have hs := from_utf8_utf8 s
  rw [h, from_utf8_utf8 t] at hs
  exact (Option.some_inj.mp hs).symm

theorem length_utf8 (s : String) : (utf8 s).length = s.utf8ByteSize := rfl

theorem isValidUTF8_of_from_utf8 {bytes : Bytes} :
    (from_utf8 bytes).isSome ↔ (ByteArray.mk bytes.toArray).IsValidUTF8 := by
  unfold from_utf8 String.fromUTF8?
  by_cases h : (ByteArray.mk bytes.toArray).IsValidUTF8
  · simp [h]
  · simp [h]

theorem mk_take (s : String) (n : Nat) :
    ByteArray.mk ((utf8 s).take n).toArray = s.toByteArray.extract 0 n := by
  apply ByteArray.ext
  rw [ByteArray.data_extract, ← Array.toList_inj]
  simp [utf8]

/-- The bytes of a text up to `n` are a text just when the next one begins a character. -/
theorem from_utf8_take {s : String} {n : Nat} (h : n ≤ (utf8 s).length) :
    (from_utf8 ((utf8 s).take n)).isSome ↔ ∀ b, (utf8 s)[n]? = some b → b.IsUTF8FirstByte := by
  have hle : (⟨n⟩ : String.Pos.Raw) ≤ s.rawEndPos := h
  rw [isValidUTF8_of_from_utf8, mk_take]
  have hvalid := String.Pos.Raw.isValid_iff_isValidUTF8_extract_zero (s := s) (p := ⟨n⟩)
  rw [and_iff_right hle] at hvalid
  rw [← hvalid, String.Pos.Raw.isValid_iff_isUTF8FirstByte]
  rcases Nat.lt_or_ge n (utf8 s).length with hlt | hge
  · have hbyte : (utf8 s)[n]? = some (s.getUTF8Byte ⟨n⟩ hlt) := List.getElem?_eq_getElem hlt
    rw [hbyte]
    constructor
    · rintro (hend | ⟨_, hfirst⟩)
      · have : n = (utf8 s).length := congrArg String.Pos.Raw.byteIdx hend
        omega
      · rintro b ⟨⟩
        exact hfirst
    · intro hfirst
      exact .inr ⟨hlt, hfirst _ rfl⟩
  · have hend : (⟨n⟩ : String.Pos.Raw) = s.rawEndPos := congrArg String.Pos.Raw.mk (by
      rw [length_utf8] at h hge
      omega)
    have hnone : (utf8 s)[n]? = none := List.getElem?_eq_none hge
    rw [hnone]
    exact iff_of_true (.inl hend) fun _ hb => nomatch hb

/-! ## Decoding -/

open Abi in
/-- The bytes of a text are read from a word with their number and what is behind it. -/
theorem from_abi_text {data text : Bytes} :
    (ABIVariable.from_abi data : Except String Bytes) = .ok text ↔
      32 ≤ data.length ∧ ofBigEndian (data.take 32) = text.length ∧ text <+: data.drop 32 := by
  show (pull_slice data 32 _ >>= _ : Except String Bytes) = _ ↔ _
  unfold pull_slice
  by_cases hlength : 32 ≤ data.length
  · simp only [hlength, if_true, true_and, bind, Except.bind]
    by_cases hshort : (data.drop 32).length < ofBigEndian (data.take 32)
    · simp only [hshort, if_true]
      refine iff_of_false (by rintro ⟨⟩) ?_
      rintro ⟨hsize, hstarts⟩
      have hle := hstarts.length_le
      omega
    · simp only [hshort, if_false]
      constructor
      · rintro ⟨⟩
        refine ⟨?_, List.take_prefix _ _⟩
        rw [List.length_take]
        omega
      · rintro ⟨hsize, hstarts⟩
        rw [hsize, ← List.prefix_iff_eq_take.mp hstarts]
        rfl
  · simp only [hlength, if_false, false_and, bind, Except.bind]
    exact iff_of_false (by rintro ⟨⟩) id

/-- A text is read from bytes that are valid UTF-8. -/
theorem from_abi_string {data : Bytes} {reason : String} :
    (ABIVariable.from_abi data : Except String String) = .ok reason ↔
      (ABIVariable.from_abi data : Except String Bytes) = .ok (utf8 reason) := by
  show ((ABIVariable.from_abi data : Except String Bytes) >>= _ : Except String String) = _ ↔ _
  rcases (ABIVariable.from_abi data : Except String Bytes) with e | bytes
  · exact iff_of_false (by rintro ⟨⟩) (by rintro ⟨⟩)
  · simp only [bind, Except.bind, Except.ok.injEq]
    rcases hutf8 : String.fromUTF8? ⟨bytes.toArray⟩ with _ | text
    · change from_utf8 bytes = none at hutf8
      refine iff_of_false (by rintro ⟨⟩) ?_
      rintro rfl
      rw [from_utf8_utf8] at hutf8
      cases hutf8
    · have htext := utf8_of_from_utf8 hutf8
      constructor
      · rintro ⟨⟩
        exact htext.symm
      · rintro rfl
        rw [utf8_inj htext]
        rfl

open Abi in
/-- A single text is read at the location that the first word says. -/
theorem abi_decode_string {data : Bytes} {reason : String} :
    (abi_decode data : Except String String) = .ok reason ↔
      32 ≤ data.length ∧ ofBigEndian (data.take 32) < data.length ∧
        (ABIVariable.from_abi (data.drop (ofBigEndian (data.take 32))) : Except String String) =
          .ok reason := by
  show (read_abi_list String data data).map Prod.fst = _ ↔ _
  have hdynamic : ABIVariable.STATIC_LENGTH String = none := rfl
  unfold read_abi_list
  simp only [hdynamic]
  unfold pull_slice abi_require
  by_cases hhead : 32 ≤ data.length
  · simp only [hhead, if_true, true_and, bind, Except.bind]
    by_cases hlocation : ofBigEndian (data.take 32) < data.length
    · simp only [hlocation, decide_true, if_true, true_and]
      rcases (ABIVariable.from_abi (data.drop (ofBigEndian (data.take 32))) :
        Except String String) with
        e | text
      · exact iff_of_false (by rintro ⟨⟩) (by rintro ⟨⟩)
      · exact Iff.rfl
    · simp only [hlocation, decide_false, false_and]
      exact iff_of_false (by rintro ⟨⟩) id
  · simp only [hhead, if_false, false_and, bind, Except.bind]
    exact iff_of_false (by rintro ⟨⟩) id

/-- The reason that is read is the one that the output gives. -/
theorem decode_reason_iff {output : Bytes} {reason : String} :
    decode_reason output = .ok reason ↔ GivesReason output reason := by
  have hdecoded : (abi_decode (output.drop 4) : Except String String) = .ok reason ∧
      output.take 4 = [8, 195, 121, 160] ↔ GivesReason output reason := by
    rw [abi_decode_string, from_abi_string, from_abi_text]
    constructor
    · rintro ⟨⟨hhead, hlocation, hlength, hsize, hbytes⟩, hselector⟩
      exact ⟨hselector, hhead, hlocation, hlength, hsize, hbytes⟩
    · rintro ⟨hselector, hhead, hlocation, hlength, hsize, hbytes⟩
      exact ⟨⟨hhead, hlocation, hlength, hsize, hbytes⟩, hselector⟩
  rw [← hdecoded]
  unfold decode_reason
  by_cases hselector : output.take 4 = [8, 195, 121, 160]
  · have hlength : ¬output.length < 4 := by
      have := congrArg List.length hselector
      simp only [List.length_take, List.length_cons, List.length_nil] at this
      omega
    simp [hlength, hselector]
  · simp only [hselector, not_false_eq_true, if_true, and_false, ne_eq, iff_false]
    split <;> rintro ⟨⟩

/-! ## The cut -/

/-- Revert reasons are decoded safely, just when the reason is not cut inside a character: if it has
    more than 50 bytes, the byte after the first 50 begins a character. -/
theorem revert_reasons_are_decoded_safely_iff (output : Bytes) :
    DecodesSafely output ↔ ∀ reason, GivesReason output reason →
      ∀ b, (utf8 reason)[50]? = some b → b.IsUTF8FirstByte := by
  unfold DecodesSafely
  rcases hdecoded : decode_reason output with e | reason
  · -- there is no reason
    have hnone : ∀ reason, ¬GivesReason output reason := by
      intro reason hgives
      rw [decode_reason_iff.mpr hgives] at hdecoded
      cases hdecoded
    refine iff_of_true ⟨"", ?_, fun _ => rfl, fun reason hgives => absurd hgives (hnone reason)⟩
      fun reason hgives => absurd hgives (hnone reason)
    unfold revert_reason_decode
    rw [hdecoded]
  have hgives : GivesReason output reason := decode_reason_iff.mp hdecoded
  have honly : ∀ reason', GivesReason output reason' → reason' = reason := by
    intro reason' hgives'
    exact Except.ok.inj ((decode_reason_iff.mpr hgives').symm.trans hdecoded)
  have hrun : revert_reason_decode output = if (utf8 reason).length < 50 then .ok reason
      else (slice_to reason 50).map (· ++ "...") := by
    unfold revert_reason_decode
    rw [hdecoded]
    rfl
  rw [hrun]
  by_cases hshort : (utf8 reason).length < 50
  · -- a short reason is shown as it is
    rw [if_pos hshort]
    refine iff_of_true ⟨reason, rfl, fun hnone => absurd hgives (hnone reason), ?_⟩ ?_
    · intro reason' hgives'
      obtain rfl := honly reason' hgives'
      exact ⟨fun _ => rfl, fun hlong => by omega⟩
    · intro reason' hgives' b hb
      obtain rfl := honly reason' hgives'
      rw [List.getElem?_eq_none (by omega)] at hb
      cases hb
  -- a longer one is cut
  rw [if_neg hshort]
  have hcut := from_utf8_take (s := reason) (n := 50) (by omega)
  unfold slice_to
  have hstarts : from_utf8 (reason.toUTF8.data.toList.take 50) =
    from_utf8 ((utf8 reason).take 50) := rfl
  rw [hstarts]
  rcases hpart : from_utf8 ((utf8 reason).take 50) with _ | part
  · rw [hpart] at hcut
    refine iff_of_false (by rintro ⟨text, ⟨⟩, -⟩) fun hbytes => ?_
    exact absurd (hcut.mpr (hbytes reason hgives)) (by simp)
  · rw [hpart] at hcut
    refine iff_of_true ⟨part ++ "...", rfl, fun hnone => absurd hgives (hnone reason), ?_⟩ ?_
    · intro reason' hgives'
      obtain rfl := honly reason' hgives'
      refine ⟨fun h => absurd h hshort, fun _ => ⟨part, ?_, rfl⟩⟩
      rw [utf8_of_from_utf8 hpart]
      exact List.take_prefix _ _
    · intro reason' hgives'
      obtain rfl := honly reason' hgives'
      exact hcut.mp rfl

/-- The output of a contract that reverts with a reason of 51 bytes, the last two of which are one
    character. -/
def longReason : Bytes :=
  [8, 195, 121, 160] ++ bigEndian 32 32 ++ bigEndian 32 51 ++ List.replicate 49 97 ++
    [0xc3, 0xa9] ++
    List.replicate 13 0

/-- Its reason cannot be cut after 50 bytes. -/
theorem long_reason_is_not_decoded : ¬DecodesSafely longReason := by
  rintro ⟨text, htext, -⟩
  have hpanics : (match revert_reason_decode longReason with
    | .ok _ => false
    | .error _ => true) = true := by decide +kernel
  rw [htext] at hpanics
  cases hpanics

end CfxEvm
