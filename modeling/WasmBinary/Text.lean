import WasmBinary.Bytes

/-!
# Texts

How failures, numbers and characters are written.

* `Report`: a failure is told as one line of its own followed by the lines of the failures below it, outermost
  first. A failure that adds nothing to its cause reports the cause itself.
* `Decimal.fixed` writes a number with a given count of decimal places. `Decimal.Interval.shortest` writes a value
  that stands for a whole interval of reals: it takes the coarsest power of ten that has a multiple in the interval,
  and of those multiples the nearest to the value, the upper one if two are equally near. Neither ever writes an
  exponent.
* `Hex` writes numbers in base sixteen, padded with zeros to a least number of digits.
* `Percent.text` writes the share of a part in a whole with two places. The quotient is first brought to 53
  significant bits, then to hundredths; each step goes to the nearest and from half way to the even neighbour.
* `Utf8.encode` writes the bytes of a text, `Utf8.decode` reads them back and tells where a byte string stops being
  UTF-8: the index of the sequence that fails, and how many of its bytes were read before it was known to fail. A
  sequence that the input cuts short, but that was valid so far, has no such number.
-/
namespace WasmBinary

/-! ## Reports -/

structure Report where
  message : String
  causes : List String   -- outermost first
  deriving DecidableEq

namespace Report

/-- A failure with no cause below it. -/
def leaf (message : String) : Report := ⟨message, []⟩

/-- A failure whose cause is told by `inner`. -/
def because (message : String) (inner : Report) : Report := ⟨message, inner.message :: inner.causes⟩

/-- Reading went past the last byte. -/
def endOfInput : Report := leaf "failed to fill whole buffer"

/-- The last line, which tells the failure that has no cause. -/
def innermost (r : Report) : String := (r.message :: r.causes).getLast (List.cons_ne_nil _ _)

theorem innermost_because (message : String) (inner : Report) :
    (because message inner).innermost = inner.innermost := rfl

end Report

/-- Failures that can be told. -/
class Reportable (ε : Type) where
  report : ε → Report

export Reportable (report)

/-! ## Decimal numbers -/

namespace Text.Decimal

/-- The number `n / 10 ^ places`, with all its places. -/
def fixed (places n : Nat) : String :=
  if places = 0 then toString n
  else
    let fraction := Nat.toDigits 10 (n % Nat.pow 10 places)
    toString (n / Nat.pow 10 places) ++ "."
      ++ String.ofList (List.replicate (places - fraction.length) '0' ++ fraction)

/-- A value inside an interval of values that may be written in its place. Both bounds are given
twice as large, so that a bound half way between two values is a number. -/
structure Interval where
  value : Nat
  twiceLow : Nat
  twiceHigh : Nat
  closed : Bool   -- whether the bounds belong to the interval

namespace Interval

def holds (i : Interval) (n : Nat) : Bool :=
  if i.closed then i.twiceLow ≤ 2 * n && 2 * n ≤ i.twiceHigh
  else i.twiceLow < 2 * n && 2 * n < i.twiceHigh

/-- The multiple of `step` in the interval that is nearest to the value, divided by `step`. Only
the neighbours of the value can be nearest. -/
def nearest? (i : Interval) (step : Nat) : Option Nat :=
  let below := i.value / step
  let above := below + 1
  if i.holds (below * step) then
    if i.holds (above * step) ∧ above * step - i.value ≤ i.value - below * step then some above
    else some below
  else if i.holds (above * step) then some above
  else none

/-- The pair `(n, k)` with `n * 10 ^ k` in the interval and `k` as large as it can be, at most
the given bound. -/
def coarsest (i : Interval) : Nat → Nat × Nat
  | 0 => (i.value, 0)
  | k + 1 =>
    match i.nearest? (Nat.pow 10 (k + 1)) with
    | some n => (n, k + 1)
    | none => i.coarsest k

/-- An exponent of ten above which no multiple lies in the interval. -/
def bound (i : Interval) : Nat := Nat.log2 i.twiceHigh / 3 + 1

/-- The text of the value divided by `10 ^ places`. -/
def shortest (i : Interval) (places : Nat) : String :=
  let (n, k) := i.coarsest i.bound
  if places ≤ k then toString (n * Nat.pow 10 (k - places)) else fixed (places - k) n

end Interval

end Text.Decimal

/-! ## Hexadecimal numbers -/

namespace Text.Hex

/-- The digits of `n` in lower case, padded with zeros to at least `width` of them. -/
def lower (width n : Nat) : String :=
  let digits := Nat.toDigits 16 n
  String.ofList (List.replicate (width - digits.length) '0' ++ digits)

/-- The digits of `n` in upper case, padded with zeros to at least `width` of them. -/
def upper (width n : Nat) : String := (lower width n).map Char.toUpper

/-- A byte or an opcode: `0x` and at least two upper-case digits. -/
def byte (n : Nat) : String := "0x" ++ upper 2 n

/-- An offset: `0x` and as many upper-case digits as it needs. -/
def offset (n : Nat) : String := "0x" ++ upper 1 n

end Text.Hex

/-! ## Percentages -/

namespace Text.Percent

/-- The whole number nearest to `n / d`, the even one from half way. -/
def roundEven (n d : Nat) : Nat :=
  let q := n / d
  let r := n % d
  if d < 2 * r ∨ (2 * r = d ∧ q % 2 = 1) then q + 1 else q

/-- A pair `(m, e)` such that `m / 2 ^ e` is `n / d` with 53 significant bits, for quotients below
`2 ^ 52`. -/
def significant (n d : Nat) : Nat × Nat :=
  let e := 53 + Nat.log2 d - Nat.log2 n
  if d <<< 53 ≤ n <<< e then (roundEven (n <<< (e - 1)) d, e - 1)
  else (roundEven (n <<< e) d, e)

/-- The percentage text of `part` in `whole`; of nothing, the part is zero percent. -/
def text (part whole : Nat) : String :=
  if part = 0 ∨ whole = 0 then Decimal.fixed 2 0
  else
    let (m, e) := significant (100 * part) whole
    Decimal.fixed 2 (roundEven (100 * m) (1 <<< e))

end Text.Percent

/-! ## UTF-8 -/

namespace Text.Utf8

/-- Where a byte string stops being UTF-8. -/
structure Invalid where
  index : Nat
  length : Option Nat   -- of the failing sequence; none if the input ends inside it
  deriving DecidableEq

instance : Reportable Invalid where
  report
    | ⟨index, some length⟩ =>
      .leaf ("invalid utf-8 sequence of " ++ toString length ++ " bytes from index " ++ toString index)
    | ⟨index, none⟩ => .leaf ("incomplete utf-8 byte sequence from index " ++ toString index)

/-- The bytes of a text. -/
def encode (s : String) : Bytes := s.toList.flatMap String.utf8EncodeChar

/-- How many bytes follow a byte that starts a sequence. -/
def followers? (lead : UInt8) : Option Nat :=
  if lead < 0x80 then some 0
  else if 0xC2 ≤ lead ∧ lead ≤ 0xDF then some 1
  else if 0xE0 ≤ lead ∧ lead ≤ 0xEF then some 2
  else if 0xF0 ≤ lead ∧ lead ≤ 0xF4 then some 3
  else none

/-- Whether `byte` may stand right behind `lead`. The narrower ranges keep out overlong forms,
surrogates and numbers above U+10FFFF. -/
def isSecond (lead byte : UInt8) : Bool :=
  let low : UInt8 := if lead = 0xE0 then 0xA0 else if lead = 0xF0 then 0x90 else 0x80
  let high : UInt8 := if lead = 0xED then 0x9F else if lead = 0xF4 then 0x8F else 0xBF
  low ≤ byte && byte ≤ high

/-- Whether `byte` may stand in third or fourth place. -/
def isContinuation (byte : UInt8) : Bool := 0x80 ≤ byte && byte ≤ 0xBF

/-- The six bits that a byte behind the first one carries. -/
def payload (byte : UInt8) : Nat := byte.toNat % 64

/-- The characters of `bytes`, whose first byte has the given index. -/
def decodeFrom (index : Nat) : Bytes → Except Invalid (List Char)
  | [] => .ok []
  | lead :: rest =>
    match followers? lead, rest with
    | none, _ => .error ⟨index, some 1⟩
    | some 0, rest => (Char.ofNat lead.toNat :: ·) <$> decodeFrom (index + 1) rest
    | some _, [] => .error ⟨index, none⟩
    | some 1, b :: rest =>
      if isSecond lead b then
        (Char.ofNat (lead.toNat % 32 * 64 + payload b) :: ·) <$> decodeFrom (index + 2) rest
      else .error ⟨index, some 1⟩
    | some 2, b :: rest =>
      if isSecond lead b then
        match rest with
        | [] => .error ⟨index, none⟩
        | c :: rest =>
          if isContinuation c then
            (Char.ofNat ((lead.toNat % 16 * 64 + payload b) * 64 + payload c) :: ·) <$>
              decodeFrom (index + 3) rest
          else .error ⟨index, some 2⟩
      else .error ⟨index, some 1⟩
    | some _, b :: rest =>
      if isSecond lead b then
        match rest with
        | [] => .error ⟨index, none⟩
        | c :: rest =>
          if isContinuation c then
            match rest with
            | [] => .error ⟨index, none⟩
            | d :: rest =>
              if isContinuation d then
                (Char.ofNat (((lead.toNat % 8 * 64 + payload b) * 64 + payload c) * 64 + payload d)
                  :: ·) <$> decodeFrom (index + 4) rest
              else .error ⟨index, some 3⟩
          else .error ⟨index, some 2⟩
      else .error ⟨index, some 1⟩

/-- The text whose bytes these are. -/
def decode (bytes : Bytes) : Except Invalid String := String.ofList <$> decodeFrom 0 bytes

end Text.Utf8

end WasmBinary
