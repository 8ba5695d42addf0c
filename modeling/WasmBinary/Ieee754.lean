import WasmBinary.Text

/-!
# Floating-point constants

A constant is kept as its bit pattern, so that the payload of a NaN survives. `text` writes the
shortest decimal that reads back to the same pattern; `==` compares the numbers, under which a NaN
differs from everything and the two zeros agree. Equality of patterns is `=`.
-/
namespace WasmBinary.Ieee754

/-- An interchange format: a sign bit, an exponent field and a fraction field. -/
structure Format where
  exponentBits : Nat
  fractionBits : Nat

def single : Format := ⟨8, 23⟩

def double : Format := ⟨11, 52⟩

namespace Format

/-- The pattern without its sign bit. -/
def magnitude (f : Format) (bits : Nat) : Nat := bits % (1 <<< (f.exponentBits + f.fractionBits))

def isNegative (f : Format) (bits : Nat) : Bool := bits.testBit (f.exponentBits + f.fractionBits)

/-- The magnitude of infinity. Finite numbers lie below it and NaNs above. -/
def infinity (f : Format) : Nat := ((1 <<< f.exponentBits) - 1) <<< f.fractionBits

def isNaN (f : Format) (bits : Nat) : Bool := f.infinity < f.magnitude bits

/-- The number of a magnitude, counted in the smallest positive number of the format. -/
def units (f : Format) (magnitude : Nat) : Nat :=
  let exponent := magnitude >>> f.fractionBits
  let fraction := magnitude % (1 <<< f.fractionBits)
  if exponent = 0 then fraction else ((1 <<< f.fractionBits) + fraction) <<< (exponent - 1)

/-- The smallest positive number is `2` to the power of minus this. -/
def places (f : Format) : Nat := (1 <<< (f.exponentBits - 1)) - 2 + f.fractionBits

/-- The reals nearest to the number of a positive magnitude, as multiples of `10 ^ -f.places`. They
reach half way to the next magnitude on either side, and include the ends if the magnitude is
even. -/
def interval (f : Format) (magnitude : Nat) : Text.Decimal.Interval where
  value := f.units magnitude * Nat.pow 5 f.places
  twiceLow := (f.units (magnitude - 1) + f.units magnitude) * Nat.pow 5 f.places
  twiceHigh := (f.units magnitude + f.units (magnitude + 1)) * Nat.pow 5 f.places
  closed := magnitude % 2 = 0

/-- The text of a pattern: the shortest decimal that reads back, without an exponent. -/
def text (f : Format) (bits : Nat) : String :=
  let magnitude := f.magnitude bits
  let sign := if f.isNegative bits then "-" else ""
  if f.infinity < magnitude then "NaN"
  else if magnitude = f.infinity then sign ++ "inf"
  else if magnitude = 0 then sign ++ "0"
  else sign ++ (f.interval magnitude).shortest f.places

/-- Whether two patterns stand for the same number. -/
def sameNumber (f : Format) (a b : Nat) : Bool :=
  !f.isNaN a && !f.isNaN b && (a == b || (f.magnitude a == 0 && f.magnitude b == 0))

end Format

/-- A constant of 32 bits. -/
structure F32 where
  bits : UInt32
  deriving DecidableEq

/-- A constant of 64 bits. -/
structure F64 where
  bits : UInt64
  deriving DecidableEq

instance : BEq F32 := ⟨fun a b => single.sameNumber a.bits.toNat b.bits.toNat⟩

instance : BEq F64 := ⟨fun a b => double.sameNumber a.bits.toNat b.bits.toNat⟩

def F32.text (x : F32) : String := single.text x.bits.toNat

def F64.text (x : F64) : String := double.text x.bits.toNat

end WasmBinary.Ieee754
