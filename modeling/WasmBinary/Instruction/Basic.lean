import WasmBinary.Ieee754
import WasmBinary.Opcode.Basic
import WasmBinary.Types.Basic

/-!
# Instructions

An instruction is an opcode, the absolute offset of its first byte, and its immediates. Blocks hold
their nested instructions. Only `if` has a second arm and only `try` can be closed by `delegate`;
those two forms have constructors of their own.

* `walk`, `walkAll`: an instruction and all that is nested in it, in the order of the encoding;
* `sameValue`: equality that compares floating-point constants as numbers;
* `text`: the mnemonic and the immediates, without nested instructions.
-/
namespace WasmBinary

/-- Sixteen bytes. -/
abbrev Lanes := { bytes : Bytes // bytes.length = 16 }

/-- How memory is accessed. -/
structure MemArg where
  align : UInt32    -- exponent of two
  offset : UInt32
  deriving DecidableEq

inductive BlockType where
  | empty
  | value (type : ValueType)
  | typeIndex (index : Index)
  deriving DecidableEq

/-- What follows the opcode of an instruction that nests no others. -/
inductive Immediate where
  | none
  | index (index : Index)
  | indexPair (first second : Index)
  | branchTable (targets : List Index) (fallback : Index)
  | i32 (value : Int32)
  | i64 (value : Int64)
  | f32 (value : Ieee754.F32)
  | f64 (value : Ieee754.F64)
  | memArg (access : MemArg)
  | memArgLane (access : MemArg) (lane : UInt8)
  | lane (lane : UInt8)
  | v128 (lanes : Lanes)
  | valueTypes (types : List ValueType)
  | refType (type : RefType)
  deriving BEq

inductive Instruction where
  | plain (opcode : Opcode) (offset : Nat) (immediate : Immediate)
  /-- Nested instructions closed by `end`. -/
  | block (opcode : Opcode) (offset : Nat) (type : BlockType) (body : List Instruction)
  /-- An `if` with both arms. -/
  | ifElse (offset : Nat) (type : BlockType) (body alternative : List Instruction)
  /-- A `try` closed by `delegate`. -/
  | tryDelegate (offset : Nat) (type : BlockType) (body : List Instruction) (label : Index)

/-- Instructions in sequence, without the byte that closes them. -/
abbrev Expr := List Instruction

namespace Instruction

def opcode : Instruction → Opcode
  | plain opcode .. => opcode
  | block opcode .. => opcode
  | ifElse .. => .ifBlock
  | tryDelegate .. => .tryBlock

def offset : Instruction → Nat
  | plain _ offset _ => offset
  | block _ offset _ _ => offset
  | ifElse offset _ _ _ => offset
  | tryDelegate offset _ _ _ => offset

/-- The constant `value`, at offset zero. -/
def i32Const (value : Int32) : Instruction := plain .i32Const 0 (.i32 value)

/-- The index of an instruction whose only immediate is an index.
mirrors `index` of `Instruction` -/
def index? : Instruction → Option Index
  | plain _ _ (.index index) => some index
  | _ => none

mutual

/-- The instruction and those nested in it, in the order of the encoding. -/
def walk : Instruction → List Instruction
  | i@(plain ..) => [i]
  | i@(block _ _ _ body) => i :: walkAll body
  | i@(ifElse _ _ body alternative) => i :: (walkAll body ++ walkAll alternative)
  | i@(tryDelegate _ _ body _) => i :: walkAll body

/-- All instructions of a sequence, nested ones included.
mirrors `walk_all` -/
def walkAll : List Instruction → List Instruction
  | [] => []
  | i :: rest => walk i ++ walkAll rest

end

mutual

/-- Whether two instructions agree in everything, constants being compared as numbers. -/
def sameValue : Instruction → Instruction → Bool
  | plain o p i, plain o' p' i' => o == o' && p == p' && i == i'
  | block o p t b, block o' p' t' b' => o == o' && p == p' && t == t' && sameValues b b'
  | ifElse p t b a, ifElse p' t' b' a' => p == p' && t == t' && sameValues b b' && sameValues a a'
  | tryDelegate p t b l, tryDelegate p' t' b' l' =>
    p == p' && t == t' && sameValues b b' && l == l'
  | _, _ => false

def sameValues : List Instruction → List Instruction → Bool
  | [], [] => true
  | i :: rest, i' :: rest' => sameValue i i' && sameValues rest rest'
  | _, _ => false

end

instance : BEq Instruction := ⟨sameValue⟩

end Instruction

/-! ## Text -/

/-- The type behind the mnemonic of a block.
mirrors `fmt` of `BlockType` -/
def BlockType.text : BlockType → String
  | .empty => ""
  | .value type => " (result " ++ type.text ++ ")"
  | .typeIndex index => " (type " ++ toString index ++ ")"

/-- The offset, if there is one, and the alignment in bytes, of which the text knows at most
`2 ^ 63`. -/
def MemArg.text (m : MemArg) : String :=
  (if m.offset = 0 then "" else " offset=" ++ toString m.offset)
    ++ " align=" ++ toString (1 <<< min m.align.toNat 63)

/-- The immediates behind the mnemonic, each behind a space.
mirrors the match in `fmt` of `Instruction` -/
def Immediate.text : Immediate → String
  | .none => ""
  | .index i => " " ++ toString i
  | .indexPair first second => " " ++ toString first ++ " " ++ toString second
  | .branchTable targets fallback => spaced ((targets ++ [fallback]).map toString)
  | .i32 value => " " ++ toString value.toInt
  | .i64 value => " " ++ toString value.toInt
  | .f32 value => " " ++ value.text
  | .f64 value => " " ++ value.text
  | .memArg access => access.text
  | .memArgLane access l => access.text ++ " " ++ toString l
  | .lane l => " " ++ toString l
  | .v128 lanes => " i8x16" ++ spaced (lanes.val.map fun b => "0x" ++ Text.Hex.lower 2 b.toNat)
  | .valueTypes types => " (result" ++ spaced (types.map ValueType.text) ++ ")"
  | .refType .func => " func"
  | .refType .externRef => " extern"

/-- The mnemonic and the immediates.
mirrors `fmt` of `Instruction` -/
def Instruction.text : Instruction → String
  | .plain opcode _ immediate => opcode.mnemonic ++ immediate.text
  | .block opcode _ type _ => opcode.mnemonic ++ type.text
  | .ifElse _ type _ _ => Opcode.ifBlock.mnemonic ++ type.text
  | .tryDelegate _ type _ _ => Opcode.tryBlock.mnemonic ++ type.text

end WasmBinary
