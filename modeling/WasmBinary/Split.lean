import WasmBinary.Bytes

/-!
# Splitting at runs of zeros

`split` cuts a byte string into the chunks that lie between its long runs of zero bytes. Memory
starts out zero, so the runs need not be stored. Runs shorter than the limit stay inside a chunk. A
byte string without a long run, the empty one included, is one chunk.
-/
namespace WasmBinary

/-- A part of a byte string. -/
structure Chunk where
  index : Nat   -- of the first byte
  size : Nat
  deriving DecidableEq

namespace Chunk

/-- The bytes of a chunk of `data`. -/
def of (data : Bytes) (c : Chunk) : Bytes := (data.drop c.index).take c.size

/-- Whether `z` zero bytes start here.
mirrors the test of `find_zero_run` at one place -/
def startsRun : (z : Nat) → Bytes → Bool
  | 0, _ => true
  | _ + 1, [] => false
  | z + 1, b :: rest => b == 0 && startsRun z rest

/-- The chunks of the bytes from `index` on. `start` is where the current chunk began; inside a run
of zeros there is none. -/
def scan (z : Nat) : (index : Nat) → (start : Option Nat) → Bytes → List Chunk
  | _, none, [] => []
  | index, some start, [] => [⟨start, index - start⟩]
  | index, none, b :: rest =>
    if b = 0 then scan z (index + 1) none rest else scan z (index + 1) (some index) rest
  | index, some start, b :: rest =>
    if startsRun z (b :: rest) then ⟨start, index - start⟩ :: scan z (index + 1) none rest
    else scan z (index + 1) (some start) rest

/-- The number of bytes in chunks. -/
def total : List Chunk → Nat
  | [] => 0
  | c :: rest => c.size + total rest

end Chunk

structure Split where
  chunks : List Chunk
  stripped : Nat   -- how many bytes lie outside the chunks
  deriving DecidableEq

/-- The chunks between the runs of at least `zeroRun` zero bytes; a run has at least one.
mirrors `split` -/
def split (data : Bytes) (zeroRun : Nat) : Split :=
  let z := max zeroRun 1
  let chunks := Chunk.scan z 0 (if Chunk.startsRun z data then none else some 0) data
  ⟨chunks, data.length - Chunk.total chunks⟩

end WasmBinary
