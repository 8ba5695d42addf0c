import WasmBinary.Leb128
import WasmBinary.Text

/-!
# Vectors and names

A vector is a count followed by that many elements; an element that fails is told with its
position. A byte vector is a count and that many bytes. A name is a byte vector that holds UTF-8.
-/
namespace WasmBinary

/-- mirrors `DecodeVectorError` -/
inductive VectorError (ε : Type) where
  | length (cause : Leb128.UnsignedError)
  | element (position : Nat) (cause : ε)

instance {ε : Type} [Reportable ε] : Reportable (VectorError ε) where
  report
    | .length cause => .because "failed decoding vector length" (report cause)
    | .element position cause =>
      .because ("failed parsing vector element at position " ++ toString position) (report cause)

/-- mirrors `DecodeByteVectorError` -/
inductive ByteVectorError where
  | length (cause : Leb128.UnsignedError)
  | truncated (declared found : Nat)

instance : Reportable ByteVectorError where
  report
    | .length cause => .because "failed decoding vector length" (report cause)
    | .truncated declared found =>
      .leaf ("byte vector truncated: declared " ++ toString declared ++ " bytes; found "
        ++ toString found)

/-- mirrors `DecodeNameError` -/
inductive NameError where
  | bytes (cause : ByteVectorError)
  | notUtf8 (cause : Text.Utf8.Invalid)

instance : Reportable NameError where
  report
    | .bytes cause => report cause
    | .notUtf8 cause => .because "name is not valid UTF-8" (report cause)

namespace Decoder

variable {ε α : Type}

/-- The elements at positions `position` to `position + count - 1` of a vector. -/
def elements (d : Decoder ε α) : (position count : Nat) → Decoder (VectorError ε) (List α)
  | _, 0 => return []
  | position, count + 1 => do
    let a ← d.mapError (.element position)
    return a :: (← elements d (position + 1) count)

/-- A count, then that many elements.
mirrors `decode_vector` -/
def vector (d : Decoder ε α) : Decoder (VectorError ε) (List α) := do
  let count ← Leb128.u32.mapError .length
  elements d 0 count.toNat

/-- A count, then that many bytes.
mirrors `decode_byte_vector` -/
def byteVector : Decoder ByteVectorError Bytes := do
  let declared ← Leb128.u32.mapError .length
  let bytes ← takeUpTo declared.toNat
  if bytes.length = declared.toNat then return bytes
  else throw (.truncated declared.toNat bytes.length)

/-- A text, stored as a byte vector.
mirrors `decode_name` -/
def name : Decoder NameError String := do
  match Text.Utf8.decode (← byteVector.mapError .bytes) with
  | .ok text => return text
  | .error invalid => throw (.notUtf8 invalid)

end Decoder

end WasmBinary
