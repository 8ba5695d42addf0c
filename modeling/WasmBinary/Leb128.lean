import WasmBinary.Decoder

/-!
# LEB128 numbers

A number is cut into groups of seven bits, least significant first, one group a byte; the top bit
of a byte says that another group follows. A number of `bits` bits takes at most
`groupCount bits` bytes, and what the last permitted byte carries above those bits has to be zero,
or copies of the sign. Padding within these limits is accepted when reading. Writing uses the
fewest bytes.

* `unsigned`, `signed`: reading at a given width;
* `encodeUnsigned`, `encodeSigned`: writing;
* `unsignedLength`, `signedLength`: how many bytes writing takes, without writing.
-/
namespace WasmBinary.Leb128

/-- mirrors `DecodeUnsignedError` -/
inductive UnsignedError where
  | tooLarge (bits : Nat)
  | tooLong (bits : Nat)
  | endOfInput

/-- mirrors `DecodeSignedError` -/
inductive SignedError where
  | wrongSign (bits : Nat)
  | tooLong (bits : Nat)
  | endOfInput

instance : Reportable UnsignedError where
  report
    | .tooLarge bits => .leaf ("uint" ++ toString bits ++ " too large")
    | .tooLong bits => .leaf ("uint" ++ toString bits ++ " representation too long")
    | .endOfInput => .endOfInput

instance : Reportable SignedError where
  report
    | .wrongSign bits => .leaf ("int" ++ toString bits ++ " incorrect sign extension")
    | .tooLong bits => .leaf ("int" ++ toString bits ++ " representation too long")
    | .endOfInput => .endOfInput

/-- The most bytes a number of `bits` bits may take.
mirrors `max_len` -/
def groupCount (bits : Nat) : Nat := (bits + 6) / 7

/-! ## Reading -/

/-- Reads up to `groups` groups that together carry `width` bits. -/
def unsignedGroups (bits : Nat) : (groups width : Nat) → Decoder UnsignedError Nat
  | 0, _ => throw (.tooLong bits)
  | groups + 1, width => do
    let byte ← Decoder.byte.mapError fun _ => .endOfInput
    let payload := byte.toNat % 128
    if byte < 0x80 then
      if groups = 0 ∧ payload >>> width ≠ 0 then throw (.tooLarge bits) else return payload
    else
      return payload + 128 * (← unsignedGroups bits groups (width - 7))

/-- A natural number below `2 ^ bits`.
mirrors `decode_unsigned` -/
def unsigned (bits : Nat) : Decoder UnsignedError Nat := unsignedGroups bits (groupCount bits) bits

/-- The number a last group stands for: its upper bit is the sign. -/
def signedPayload (byte : UInt8) : Int :=
  let payload := byte.toNat % 128
  if payload < 64 then payload else payload - 128

/-- Reads up to `groups` groups that together carry `width` bits, sign included. -/
def signedGroups (bits : Nat) : (groups width : Nat) → Decoder SignedError Int
  | 0, _ => throw (.tooLong bits)
  | groups + 1, width => do
    let byte ← Decoder.byte.mapError fun _ => .endOfInput
    if byte < 0x80 then
      let value := signedPayload byte
      let above := value >>> (width - 1)   -- the sign bit of the number and all above it
      if groups = 0 ∧ above ≠ 0 ∧ above ≠ -1 then throw (.wrongSign bits) else return value
    else
      return (byte.toNat % 128 : Nat) + 128 * (← signedGroups bits groups (width - 7))

/-- An integer of `bits` bits in two's complement.
mirrors `decode_signed` -/
def signed (bits : Nat) : Decoder SignedError Int := signedGroups bits (groupCount bits) bits

def u32 : Decoder UnsignedError UInt32 := UInt32.ofNat <$> unsigned 32

def u64 : Decoder UnsignedError UInt64 := UInt64.ofNat <$> unsigned 64

def i32 : Decoder SignedError Int32 := Int32.ofInt <$> signed 32

def i64 : Decoder SignedError Int64 := Int64.ofInt <$> signed 64

/-! ## Writing -/

/-- The shortest form of a natural number.
mirrors `write_unsigned` -/
def encodeUnsigned (n : Nat) : Bytes :=
  if n < 128 then [UInt8.ofNat n]
  else UInt8.ofNat (n % 128 + 128) :: encodeUnsigned (n / 128)

/-- The shortest form of an integer.
mirrors `write_signed` -/
def encodeSigned (v : Int) : Bytes :=
  let payload := (v % 128).toNat
  if -64 ≤ v ∧ v < 64 then [UInt8.ofNat payload]
  else UInt8.ofNat (payload + 128) :: encodeSigned (v / 128)
termination_by v.natAbs

/-- How many bytes `encodeUnsigned` takes.
mirrors `unsigned_len` -/
def unsignedLength (n : Nat) : Nat :=
  if n < 128 then 1 else 1 + unsignedLength (n / 128)

/-- How many bytes `encodeSigned` takes.
mirrors `signed_len` -/
def signedLength (v : Int) : Nat :=
  if -64 ≤ v ∧ v < 64 then 1 else 1 + signedLength (v / 128)
termination_by v.natAbs

theorem length_encodeUnsigned (n : Nat) : (encodeUnsigned n).length = unsignedLength n := by
  fun_induction encodeUnsigned n with
  | case1 n h => rw [unsignedLength]; simp [h]
  | case2 n h ih => rw [unsignedLength]; simp [h, ih, Nat.add_comm]

theorem length_encodeSigned (v : Int) : (encodeSigned v).length = signedLength v := by
  fun_induction encodeSigned v with
  | case1 v _ h => rw [signedLength]; simp [h]
  | case2 v _ h ih => rw [signedLength]; simp only [if_neg h, List.length_cons, ih, Nat.add_comm]

end WasmBinary.Leb128
