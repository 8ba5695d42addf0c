import WasmBinary.Opcode.Table

/-!
# Opcodes

An opcode belongs to one of four spaces. Those of the core space are single bytes; those of the
others are a byte that names the space and a LEB128 code. An `Opcode` is a code that the table of
its space lists, so that its mnemonic and its shape always exist.

The named opcodes below are those that the library treats specially.
-/
namespace WasmBinary

namespace Opcode

inductive Space where
  | core
  | misc
  | simd
  | atomic
  deriving DecidableEq

def Space.rows : Space → List Row
  | .core => coreRows
  | .misc => miscRows
  | .simd => simdRows
  | .atomic => atomicRows

/-- The row of a code. -/
def Space.row? (space : Space) (code : Nat) : Option Row := space.rows.find? (·.code == code)

/-- The space that a byte in front of a code names. -/
def Space.ofPrefixByte? (byte : UInt8) : Option Space :=
  if byte = 0xFC then some .misc
  else if byte = 0xFD then some .simd
  else if byte = 0xFE then some .atomic
  else none

end Opcode

structure Opcode where
  space : Opcode.Space
  code : Nat
  listed : (space.row? code).isSome
  deriving DecidableEq

namespace Opcode

def row (o : Opcode) : Row := (o.space.row? o.code).get o.listed

/-- mirrors `mnemonic` -/
def mnemonic (o : Opcode) : String := o.row.mnemonic

/-- mirrors `shape` -/
def shape (o : Opcode) : Shape := o.row.shape

/-- The opcode with a code, if the table of the space lists it.
mirrors `from_code` -/
def ofCode? (space : Space) (code : Nat) : Option Opcode :=
  if h : (space.row? code).isSome then some ⟨space, code, h⟩ else none

theorem ofCode?_code (o : Opcode) : ofCode? o.space o.code = some o := by simp [ofCode?, o.listed]

theorem eq_of_ofCode? {space : Space} {code : Nat} {o : Opcode} (h : ofCode? space code = some o) :
    o.space = space ∧ o.code = code := by
  unfold ofCode? at h
  split at h
  · cases h; exact ⟨rfl, rfl⟩
  · cases h

/-! ## Named opcodes -/

def ifBlock : Opcode := ⟨.core, 0x04, by decide⟩
def tryBlock : Opcode := ⟨.core, 0x06, by decide⟩
def call : Opcode := ⟨.core, 0x10, by decide⟩
def globalGet : Opcode := ⟨.core, 0x23, by decide⟩
def globalSet : Opcode := ⟨.core, 0x24, by decide⟩
def i32Const : Opcode := ⟨.core, 0x41, by decide⟩
def i64Const : Opcode := ⟨.core, 0x42, by decide⟩
def f32Const : Opcode := ⟨.core, 0x43, by decide⟩
def f64Const : Opcode := ⟨.core, 0x44, by decide⟩
def refNull : Opcode := ⟨.core, 0xD0, by decide⟩
def refFunc : Opcode := ⟨.core, 0xD2, by decide⟩

/-! ## Bytes that close a block -/

def elseByte : UInt8 := 0x05
def endByte : UInt8 := 0x0B
def delegateByte : UInt8 := 0x18

end Opcode

end WasmBinary
