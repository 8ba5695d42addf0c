import WasmBinary.Text

/-!
# Decoders

A decoder consumes bytes from a `Cursor`, which knows the absolute position of the next byte and
the bytes that are left. It ends in a value or in an error, and leaves the cursor behind the
bytes it took either way.

* `byte`, `take`: the two ways to consume input;
* `mapError`: the same reading with its failure seen from one level up;
* `within`: reading bounded to a declared size, going on at the declared end.
-/
namespace WasmBinary

/-- A place in the input. -/
structure Cursor where
  position : Nat   -- of the first byte of `rest`, counted from the start of the input
  rest : Bytes
  deriving DecidableEq

namespace Cursor

/-- The start of an input. -/
def start (bytes : Bytes) : Cursor := ⟨0, bytes⟩

/-- The cursor `n` bytes further on. -/
def skip (c : Cursor) (n : Nat) : Cursor := ⟨c.position + n, c.rest.drop n⟩

end Cursor

abbrev Decoder (ε α : Type) := EStateM ε Cursor α

/-- The input ended inside a value. -/
inductive EndOfInput where
  | endOfInput
  deriving DecidableEq

instance : Reportable EndOfInput := ⟨fun _ => .endOfInput⟩

namespace Decoder

variable {ε ε' α : Type}

/-- The outcome of reading all of `bytes`, without the cursor. -/
def outcome (d : Decoder ε α) (c : Cursor) : Except ε α :=
  match d c with
  | .ok a _ => .ok a
  | .error e _ => .error e

/-- Turns the error of a decoder into that of its caller. -/
def mapError (f : ε → ε') (d : Decoder ε α) : Decoder ε' α := fun c =>
  match d c with
  | .ok a c' => .ok a c'
  | .error e c' => .error (f e) c'

/-- The absolute position of the next byte. -/
def position : Decoder ε Nat := fun c => .ok c.position c

/-- The next byte.
mirrors `read_byte` -/
def byte : Decoder EndOfInput UInt8 := fun c =>
  match c.rest with
  | [] => .error .endOfInput c
  | b :: rest => .ok b ⟨c.position + 1, rest⟩

/-- The next `n` bytes.
mirrors `read_array` -/
def take : (n : Nat) → Decoder EndOfInput { bytes : Bytes // bytes.length = n }
  | 0 => pure ⟨[], rfl⟩
  | n + 1 => do
    let b ← byte
    let ⟨bytes, h⟩ ← take n
    return ⟨b :: bytes, by simp [h]⟩

/-- The next `n` bytes, or the fewer that are left. -/
def takeUpTo (n : Nat) : Decoder ε Bytes := fun c =>
  let bytes := c.rest.take n
  .ok bytes (c.skip bytes.length)

/-- All bytes that are left. -/
def takeAll : Decoder ε Bytes := fun c => .ok c.rest ⟨c.position + c.rest.length, []⟩

/-- Runs `d` on the next `size` bytes alone. Reading goes on behind those bytes, however many of
them `d` consumed. -/
def within (size : Nat) (d : Decoder ε α) : Decoder ε α := fun c =>
  match d ⟨c.position, c.rest.take size⟩ with
  | .ok a _ => .ok a (c.skip size)
  | .error e c' => .error e c'

end Decoder

end WasmBinary
