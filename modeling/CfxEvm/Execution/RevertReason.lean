import CfxEvm.Abi.Compound

/-!
# Revert reasons

The reason that a contract gives for reverting, taken from its return data and cut to a length.
-/

open Lib

namespace CfxEvm

/-- Where decoding and unwinding can panic. -/
inductive UnwindPanic
  /-- `expect("trace call and their results must be matched")`. -/
  | callstack_empty
  /-- `expect("Return data is encoded from valid utf-8 string")`. -/
  | invalid_utf8
  /-- `str[..len]` where `len` is not at the end of a character. -/
  | char_boundary
  deriving DecidableEq, Repr

/-- The string with these bytes, if they are valid UTF-8. -/
def from_utf8 (bytes : Bytes) : Option String := String.fromUTF8? ⟨bytes.toArray⟩

def MAX_LENGTH : Nat := 50

/-- `str[..len]`: the bytes up to `len` are a string again if and only if they end with a
    character. -/
def slice_to (str : String) (len : Nat) : Except UnwindPanic String :=
  match from_utf8 (str.toUTF8.data.toList.take len) with
  | some part => .ok part
  | none => .error .char_boundary

/-- The text that was given to `Error(string)`. -/
def decode_reason (output : Bytes) : Except String String :=
  if output.length < 4 then .error "Uncompleted Signature"
  else if output.take 4 ≠ [8, 195, 121, 160] then .error "Unrecognized Signature"
  else abi_decode (output.drop 4)

def revert_reason_decode (output : Bytes) : Except UnwindPanic String :=
  match decode_reason output with
  | .ok str =>
    if str.utf8ByteSize < MAX_LENGTH then .ok str
    else (slice_to str MAX_LENGTH).map (· ++ "...")
  | .error _ => .ok ""

end CfxEvm
