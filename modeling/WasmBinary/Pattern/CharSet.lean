/-!
# Sets of characters

A set of characters is kept as its runs, in ascending order and with a gap behind each. The numbers between `0xD800`
and `0xDFFF` belong to no character, so a set may hold them or not.

The tables follow Unicode 16: white space, the characters that write decimal digits, and the letters that differ in
case only. By simple case folding these fall into families, such as `K`, `k` and the Kelvin sign; a set that ignores
case has all members of a family or none. A row of the table covers the letters from `first` to `last` in steps of
`step`; the least member of the family of each lies `distance` below it.
-/
namespace WasmBinary.Pattern

/-- The characters whose numbers go from `first` to `last`. -/
structure Run where
  first : Nat
  last : Nat
  deriving DecidableEq

structure CharSet where
  runs : List Run
  deriving DecidableEq

namespace CharSet

/-! ## Runs -/

/-- Joins a run with those behind it that overlap or touch it. -/
def joinRuns (r : Run) : List Run → List Run
  | [] => [r]
  | s :: rest =>
    if s.first ≤ r.last + 1 then joinRuns ⟨r.first, Nat.max r.last s.last⟩ rest
    else r :: joinRuns s rest

/-- The set of all characters in some runs, which may overlap and be in any order. -/
def ofRuns (runs : List Run) : CharSet :=
  match runs.mergeSort fun r s => r.first ≤ s.first with
  | [] => ⟨[]⟩
  | r :: rest => ⟨joinRuns r rest⟩

/-- The run of the characters from `start` to before `stop`, if there are any. -/
def runBetween (start stop : Nat) : List Run :=
  let start := if 0xD800 ≤ start ∧ start < 0xE000 then 0xE000 else start
  let stop := if 0xD800 < stop ∧ stop ≤ 0xE000 then 0xD800 else stop
  if start < stop then [⟨start, stop - 1⟩] else []

/-- The gaps in front of, between and behind runs, from `start` on. -/
def gaps (start : Nat) : List Run → List Run
  | [] => runBetween start 0x110000
  | r :: rest => runBetween start r.first ++ gaps (r.last + 1) rest

/-! ## Sets -/

def empty : CharSet := ⟨[]⟩

def ofRange (first last : Char) : CharSet := ⟨[⟨first.toNat, last.toNat⟩]⟩

def ofChar (c : Char) : CharSet := ofRange c c

def contains (s : CharSet) (c : Char) : Bool :=
  s.runs.any fun r => r.first ≤ c.toNat && c.toNat ≤ r.last

def isEmpty (s : CharSet) : Bool := s.runs.isEmpty

/-- The character of a set that has no other. -/
def single? (s : CharSet) : Option Char :=
  match s.runs with
  | [⟨first, last⟩] => if first = last then some (Char.ofNat first) else none
  | _ => none

/-- Whether all characters of the set are written with one byte. -/
def isAscii (s : CharSet) : Bool := s.runs.all (·.last ≤ 0x7F)

def union (a b : CharSet) : CharSet := ofRuns (a.runs ++ b.runs)

/-- All characters that are not in the set. -/
def complement (s : CharSet) : CharSet := ⟨gaps 0 s.runs⟩

def intersection (a b : CharSet) : CharSet := (a.complement.union b.complement).complement

def difference (a b : CharSet) : CharSet := a.intersection b.complement

def symmetricDifference (a b : CharSet) : CharSet := (a.union b).difference (a.intersection b)

/-- All characters but the line feed. -/
def dot : CharSet := (ofChar '\n').complement

/-! ## White space -/

def blanks : CharSet := ⟨[
  ⟨0x9, 0xD⟩, ⟨0x20, 0x20⟩, ⟨0x85, 0x85⟩, ⟨0xA0, 0xA0⟩, ⟨0x1680, 0x1680⟩, ⟨0x2000, 0x200A⟩,
  ⟨0x2028, 0x2029⟩, ⟨0x202F, 0x202F⟩, ⟨0x205F, 0x205F⟩, ⟨0x3000, 0x3000⟩]⟩

end CharSet

/-! ## Decimal digits -/

def CharSet.digits : CharSet := ⟨[
  ⟨0x30, 0x39⟩, ⟨0x660, 0x669⟩, ⟨0x6F0, 0x6F9⟩, ⟨0x7C0, 0x7C9⟩, ⟨0x966, 0x96F⟩, ⟨0x9E6, 0x9EF⟩,
  ⟨0xA66, 0xA6F⟩, ⟨0xAE6, 0xAEF⟩, ⟨0xB66, 0xB6F⟩, ⟨0xBE6, 0xBEF⟩, ⟨0xC66, 0xC6F⟩, ⟨0xCE6, 0xCEF⟩,
  ⟨0xD66, 0xD6F⟩, ⟨0xDE6, 0xDEF⟩, ⟨0xE50, 0xE59⟩, ⟨0xED0, 0xED9⟩, ⟨0xF20, 0xF29⟩, ⟨0x1040, 0x1049⟩,
  ⟨0x1090, 0x1099⟩, ⟨0x17E0, 0x17E9⟩, ⟨0x1810, 0x1819⟩, ⟨0x1946, 0x194F⟩, ⟨0x19D0, 0x19D9⟩,
  ⟨0x1A80, 0x1A89⟩, ⟨0x1A90, 0x1A99⟩, ⟨0x1B50, 0x1B59⟩, ⟨0x1BB0, 0x1BB9⟩, ⟨0x1C40, 0x1C49⟩,
  ⟨0x1C50, 0x1C59⟩, ⟨0xA620, 0xA629⟩, ⟨0xA8D0, 0xA8D9⟩, ⟨0xA900, 0xA909⟩, ⟨0xA9D0, 0xA9D9⟩,
  ⟨0xA9F0, 0xA9F9⟩, ⟨0xAA50, 0xAA59⟩, ⟨0xABF0, 0xABF9⟩, ⟨0xFF10, 0xFF19⟩, ⟨0x104A0, 0x104A9⟩,
  ⟨0x10D30, 0x10D39⟩, ⟨0x10D40, 0x10D49⟩, ⟨0x11066, 0x1106F⟩, ⟨0x110F0, 0x110F9⟩,
  ⟨0x11136, 0x1113F⟩, ⟨0x111D0, 0x111D9⟩, ⟨0x112F0, 0x112F9⟩, ⟨0x11450, 0x11459⟩,
  ⟨0x114D0, 0x114D9⟩, ⟨0x11650, 0x11659⟩, ⟨0x116C0, 0x116C9⟩, ⟨0x116D0, 0x116E3⟩,
  ⟨0x11730, 0x11739⟩, ⟨0x118E0, 0x118E9⟩, ⟨0x11950, 0x11959⟩, ⟨0x11BF0, 0x11BF9⟩,
  ⟨0x11C50, 0x11C59⟩, ⟨0x11D50, 0x11D59⟩, ⟨0x11DA0, 0x11DA9⟩, ⟨0x11F50, 0x11F59⟩,
  ⟨0x16130, 0x16139⟩, ⟨0x16A60, 0x16A69⟩, ⟨0x16AC0, 0x16AC9⟩, ⟨0x16B50, 0x16B59⟩,
  ⟨0x16D70, 0x16D79⟩, ⟨0x1CCF0, 0x1CCF9⟩, ⟨0x1D7CE, 0x1D7FF⟩, ⟨0x1E140, 0x1E149⟩,
  ⟨0x1E2F0, 0x1E2F9⟩, ⟨0x1E4F0, 0x1E4F9⟩, ⟨0x1E5F1, 0x1E5FA⟩, ⟨0x1E950, 0x1E959⟩,
  ⟨0x1FBF0, 0x1FBF9⟩]⟩

/-! ## Letters that differ in case only -/

namespace CaseFold

structure Row where
  first : Nat
  last : Nat
  step : Nat
  distance : Nat

def rows : List Row := [
  ⟨0x61, 0x7A, 1, 32⟩, ⟨0xE0, 0xF6, 1, 32⟩, ⟨0xF8, 0xFE, 1, 32⟩, ⟨0x101, 0x12F, 2, 1⟩,
  ⟨0x133, 0x137, 2, 1⟩, ⟨0x13A, 0x148, 2, 1⟩, ⟨0x14B, 0x177, 2, 1⟩, ⟨0x178, 0x178, 1, 121⟩,
  ⟨0x17A, 0x17E, 2, 1⟩, ⟨0x17F, 0x17F, 1, 300⟩, ⟨0x183, 0x185, 2, 1⟩, ⟨0x188, 0x188, 1, 1⟩,
  ⟨0x18C, 0x18C, 1, 1⟩, ⟨0x192, 0x192, 1, 1⟩, ⟨0x199, 0x199, 1, 1⟩, ⟨0x1A1, 0x1A5, 2, 1⟩,
  ⟨0x1A8, 0x1A8, 1, 1⟩, ⟨0x1AD, 0x1AD, 1, 1⟩, ⟨0x1B0, 0x1B0, 1, 1⟩, ⟨0x1B4, 0x1B6, 2, 1⟩,
  ⟨0x1B9, 0x1B9, 1, 1⟩, ⟨0x1BD, 0x1BD, 1, 1⟩, ⟨0x1C5, 0x1C5, 1, 1⟩, ⟨0x1C6, 0x1C6, 1, 2⟩,
  ⟨0x1C8, 0x1C8, 1, 1⟩, ⟨0x1C9, 0x1C9, 1, 2⟩, ⟨0x1CB, 0x1CB, 1, 1⟩, ⟨0x1CC, 0x1CC, 1, 2⟩,
  ⟨0x1CE, 0x1DC, 2, 1⟩, ⟨0x1DD, 0x1DD, 1, 79⟩, ⟨0x1DF, 0x1EF, 2, 1⟩, ⟨0x1F2, 0x1F2, 1, 1⟩,
  ⟨0x1F3, 0x1F3, 1, 2⟩, ⟨0x1F5, 0x1F5, 1, 1⟩, ⟨0x1F6, 0x1F6, 1, 97⟩, ⟨0x1F7, 0x1F7, 1, 56⟩,
  ⟨0x1F9, 0x21F, 2, 1⟩, ⟨0x220, 0x220, 1, 130⟩, ⟨0x223, 0x233, 2, 1⟩, ⟨0x23C, 0x23C, 1, 1⟩,
  ⟨0x23D, 0x23D, 1, 163⟩, ⟨0x242, 0x242, 1, 1⟩, ⟨0x243, 0x243, 1, 195⟩, ⟨0x247, 0x24F, 2, 1⟩,
  ⟨0x253, 0x253, 1, 210⟩, ⟨0x254, 0x254, 1, 206⟩, ⟨0x256, 0x257, 1, 205⟩, ⟨0x259, 0x259, 1, 202⟩,
  ⟨0x25B, 0x25B, 1, 203⟩, ⟨0x260, 0x260, 1, 205⟩, ⟨0x263, 0x263, 1, 207⟩, ⟨0x268, 0x268, 1, 209⟩,
  ⟨0x269, 0x269, 1, 211⟩, ⟨0x26F, 0x26F, 1, 211⟩, ⟨0x272, 0x272, 1, 213⟩, ⟨0x275, 0x275, 1, 214⟩,
  ⟨0x280, 0x280, 1, 218⟩, ⟨0x283, 0x283, 1, 218⟩, ⟨0x288, 0x288, 1, 218⟩, ⟨0x289, 0x289, 1, 69⟩,
  ⟨0x28A, 0x28B, 1, 217⟩, ⟨0x28C, 0x28C, 1, 71⟩, ⟨0x292, 0x292, 1, 219⟩, ⟨0x371, 0x373, 2, 1⟩,
  ⟨0x377, 0x377, 1, 1⟩, ⟨0x399, 0x399, 1, 84⟩, ⟨0x39C, 0x39C, 1, 743⟩, ⟨0x3AC, 0x3AC, 1, 38⟩,
  ⟨0x3AD, 0x3AF, 1, 37⟩, ⟨0x3B1, 0x3B8, 1, 32⟩, ⟨0x3B9, 0x3B9, 1, 116⟩, ⟨0x3BA, 0x3BB, 1, 32⟩,
  ⟨0x3BC, 0x3BC, 1, 775⟩, ⟨0x3BD, 0x3C1, 1, 32⟩, ⟨0x3C2, 0x3C2, 1, 31⟩, ⟨0x3C3, 0x3CB, 1, 32⟩,
  ⟨0x3CC, 0x3CC, 1, 64⟩, ⟨0x3CD, 0x3CE, 1, 63⟩, ⟨0x3D0, 0x3D0, 1, 62⟩, ⟨0x3D1, 0x3D1, 1, 57⟩,
  ⟨0x3D5, 0x3D5, 1, 47⟩, ⟨0x3D6, 0x3D6, 1, 54⟩, ⟨0x3D7, 0x3D7, 1, 8⟩, ⟨0x3D9, 0x3EF, 2, 1⟩,
  ⟨0x3F0, 0x3F0, 1, 86⟩, ⟨0x3F1, 0x3F1, 1, 80⟩, ⟨0x3F3, 0x3F3, 1, 116⟩, ⟨0x3F4, 0x3F4, 1, 92⟩,
  ⟨0x3F5, 0x3F5, 1, 96⟩, ⟨0x3F8, 0x3F8, 1, 1⟩, ⟨0x3F9, 0x3F9, 1, 7⟩, ⟨0x3FB, 0x3FB, 1, 1⟩,
  ⟨0x3FD, 0x3FF, 1, 130⟩, ⟨0x430, 0x44F, 1, 32⟩, ⟨0x450, 0x45F, 1, 80⟩, ⟨0x461, 0x481, 2, 1⟩,
  ⟨0x48B, 0x4BF, 2, 1⟩, ⟨0x4C2, 0x4CE, 2, 1⟩, ⟨0x4CF, 0x4CF, 1, 15⟩, ⟨0x4D1, 0x52F, 2, 1⟩,
  ⟨0x561, 0x586, 1, 48⟩, ⟨0x13F8, 0x13FD, 1, 8⟩, ⟨0x1C80, 0x1C80, 1, 6254⟩,
  ⟨0x1C81, 0x1C81, 1, 6253⟩, ⟨0x1C82, 0x1C82, 1, 6244⟩, ⟨0x1C83, 0x1C84, 1, 6242⟩,
  ⟨0x1C85, 0x1C85, 1, 6243⟩, ⟨0x1C86, 0x1C86, 1, 6236⟩, ⟨0x1C87, 0x1C87, 1, 6181⟩,
  ⟨0x1C8A, 0x1C8A, 1, 1⟩, ⟨0x1C90, 0x1CBA, 1, 3008⟩, ⟨0x1CBD, 0x1CBF, 1, 3008⟩,
  ⟨0x1E01, 0x1E95, 2, 1⟩, ⟨0x1E9B, 0x1E9B, 1, 59⟩, ⟨0x1E9E, 0x1E9E, 1, 7615⟩,
  ⟨0x1EA1, 0x1EFF, 2, 1⟩, ⟨0x1F08, 0x1F0F, 1, 8⟩, ⟨0x1F18, 0x1F1D, 1, 8⟩, ⟨0x1F28, 0x1F2F, 1, 8⟩,
  ⟨0x1F38, 0x1F3F, 1, 8⟩, ⟨0x1F48, 0x1F4D, 1, 8⟩, ⟨0x1F59, 0x1F5F, 2, 8⟩, ⟨0x1F68, 0x1F6F, 1, 8⟩,
  ⟨0x1F88, 0x1F8F, 1, 8⟩, ⟨0x1F98, 0x1F9F, 1, 8⟩, ⟨0x1FA8, 0x1FAF, 1, 8⟩, ⟨0x1FB8, 0x1FB9, 1, 8⟩,
  ⟨0x1FBA, 0x1FBB, 1, 74⟩, ⟨0x1FBC, 0x1FBC, 1, 9⟩, ⟨0x1FBE, 0x1FBE, 1, 7289⟩,
  ⟨0x1FC8, 0x1FCB, 1, 86⟩, ⟨0x1FCC, 0x1FCC, 1, 9⟩, ⟨0x1FD3, 0x1FD3, 1, 7235⟩,
  ⟨0x1FD8, 0x1FD9, 1, 8⟩, ⟨0x1FDA, 0x1FDB, 1, 100⟩, ⟨0x1FE3, 0x1FE3, 1, 7219⟩,
  ⟨0x1FE8, 0x1FE9, 1, 8⟩, ⟨0x1FEA, 0x1FEB, 1, 112⟩, ⟨0x1FEC, 0x1FEC, 1, 7⟩,
  ⟨0x1FF8, 0x1FF9, 1, 128⟩, ⟨0x1FFA, 0x1FFB, 1, 126⟩, ⟨0x1FFC, 0x1FFC, 1, 9⟩,
  ⟨0x2126, 0x2126, 1, 7549⟩, ⟨0x212A, 0x212A, 1, 8415⟩, ⟨0x212B, 0x212B, 1, 8294⟩,
  ⟨0x214E, 0x214E, 1, 28⟩, ⟨0x2170, 0x217F, 1, 16⟩, ⟨0x2184, 0x2184, 1, 1⟩, ⟨0x24D0, 0x24E9, 1, 26⟩,
  ⟨0x2C30, 0x2C5F, 1, 48⟩, ⟨0x2C61, 0x2C61, 1, 1⟩, ⟨0x2C62, 0x2C62, 1, 10743⟩,
  ⟨0x2C63, 0x2C63, 1, 3814⟩, ⟨0x2C64, 0x2C64, 1, 10727⟩, ⟨0x2C65, 0x2C65, 1, 10795⟩,
  ⟨0x2C66, 0x2C66, 1, 10792⟩, ⟨0x2C68, 0x2C6C, 2, 1⟩, ⟨0x2C6D, 0x2C6D, 1, 10780⟩,
  ⟨0x2C6E, 0x2C6E, 1, 10749⟩, ⟨0x2C6F, 0x2C6F, 1, 10783⟩, ⟨0x2C70, 0x2C70, 1, 10782⟩,
  ⟨0x2C73, 0x2C73, 1, 1⟩, ⟨0x2C76, 0x2C76, 1, 1⟩, ⟨0x2C7E, 0x2C7F, 1, 10815⟩,
  ⟨0x2C81, 0x2CE3, 2, 1⟩, ⟨0x2CEC, 0x2CEE, 2, 1⟩, ⟨0x2CF3, 0x2CF3, 1, 1⟩, ⟨0x2D00, 0x2D25, 1, 7264⟩,
  ⟨0x2D27, 0x2D27, 1, 7264⟩, ⟨0x2D2D, 0x2D2D, 1, 7264⟩, ⟨0xA641, 0xA649, 2, 1⟩,
  ⟨0xA64A, 0xA64A, 1, 35266⟩, ⟨0xA64B, 0xA64B, 1, 35267⟩, ⟨0xA64D, 0xA66D, 2, 1⟩,
  ⟨0xA681, 0xA69B, 2, 1⟩, ⟨0xA723, 0xA72F, 2, 1⟩, ⟨0xA733, 0xA76F, 2, 1⟩, ⟨0xA77A, 0xA77C, 2, 1⟩,
  ⟨0xA77D, 0xA77D, 1, 35332⟩, ⟨0xA77F, 0xA787, 2, 1⟩, ⟨0xA78C, 0xA78C, 1, 1⟩,
  ⟨0xA78D, 0xA78D, 1, 42280⟩, ⟨0xA791, 0xA793, 2, 1⟩, ⟨0xA797, 0xA7A9, 2, 1⟩,
  ⟨0xA7AA, 0xA7AA, 1, 42308⟩, ⟨0xA7AB, 0xA7AB, 1, 42319⟩, ⟨0xA7AC, 0xA7AC, 1, 42315⟩,
  ⟨0xA7AD, 0xA7AD, 1, 42305⟩, ⟨0xA7AE, 0xA7AE, 1, 42308⟩, ⟨0xA7B0, 0xA7B0, 1, 42258⟩,
  ⟨0xA7B1, 0xA7B1, 1, 42282⟩, ⟨0xA7B2, 0xA7B2, 1, 42261⟩, ⟨0xA7B5, 0xA7C3, 2, 1⟩,
  ⟨0xA7C4, 0xA7C4, 1, 48⟩, ⟨0xA7C5, 0xA7C5, 1, 42307⟩, ⟨0xA7C6, 0xA7C6, 1, 35384⟩,
  ⟨0xA7C8, 0xA7CA, 2, 1⟩, ⟨0xA7CB, 0xA7CB, 1, 42343⟩, ⟨0xA7CD, 0xA7CD, 1, 1⟩,
  ⟨0xA7D1, 0xA7D1, 1, 1⟩, ⟨0xA7D7, 0xA7D9, 2, 1⟩, ⟨0xA7DB, 0xA7DB, 1, 1⟩,
  ⟨0xA7DC, 0xA7DC, 1, 42561⟩, ⟨0xA7F6, 0xA7F6, 1, 1⟩, ⟨0xAB53, 0xAB53, 1, 928⟩,
  ⟨0xAB70, 0xABBF, 1, 38864⟩, ⟨0xFB06, 0xFB06, 1, 1⟩, ⟨0xFF41, 0xFF5A, 1, 32⟩,
  ⟨0x10428, 0x1044F, 1, 40⟩, ⟨0x104D8, 0x104FB, 1, 40⟩, ⟨0x10597, 0x105A1, 1, 39⟩,
  ⟨0x105A3, 0x105B1, 1, 39⟩, ⟨0x105B3, 0x105B9, 1, 39⟩, ⟨0x105BB, 0x105BC, 1, 39⟩,
  ⟨0x10CC0, 0x10CF2, 1, 64⟩, ⟨0x10D70, 0x10D85, 1, 32⟩, ⟨0x118C0, 0x118DF, 1, 32⟩,
  ⟨0x16E60, 0x16E7F, 1, 32⟩, ⟨0x1E922, 0x1E943, 1, 34⟩]

/-- Whether the row covers a letter. -/
def Row.covers (r : Row) (c : Nat) : Bool :=
  r.first ≤ c && c ≤ r.last && (c - r.first) % r.step == 0

/-- The letters that a row covers. -/
def Row.letters (r : Row) : List Nat :=
  (List.range ((r.last - r.first) / r.step + 1)).map (r.first + · * r.step)

/-- The family whose least member this is. -/
def family (least : Nat) : List Char :=
  Char.ofNat least ::
    (rows.filter fun r => r.covers (least + r.distance)).map fun r => Char.ofNat (least + r.distance)

/-- All families with more than one member. Some stand more than once. -/
def families : List (List Char) :=
  rows.flatMap fun r => r.letters.map fun c => family (c - r.distance)

end CaseFold

/-- The characters that differ in case only from one in the set, and those of the set. -/
def CharSet.ignoreCase (s : CharSet) : CharSet :=
  let families := CaseFold.families.filter (·.any s.contains)
  CharSet.ofRuns (s.runs ++ families.flatten.map fun c => ⟨c.toNat, c.toNat⟩)

end WasmBinary.Pattern
