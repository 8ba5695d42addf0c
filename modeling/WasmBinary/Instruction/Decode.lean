import WasmBinary.Instruction.Basic
import WasmBinary.Types.Decode

/-!
# Reading instructions

`Instruction.sequence` reads instructions up to the terminator that closes them and returns both;
whoever opened the sequence decides whether that terminator may close it:

* an expression is closed by `end` alone (`Expr.decode`);
* a block is closed by `end`; an `if` may go on behind `else` with a second arm, once; a `try` may
  be closed by `delegate`. The `catch` clauses of a `try` are plain instructions of its body.

Every instruction is at least one byte long, so the number of bytes left bounds the recursion.
-/
namespace WasmBinary

/-! ## Errors -/

/-- mirrors `DecodeBlockTypeError` -/
inductive BlockTypeError where
  | endOfInput
  | typeIndex (cause : Leb128.SignedError)
  | negative (index : Int)

instance : Reportable BlockTypeError where
  report
    | .endOfInput => .because "failed reading block type" .endOfInput
    | .typeIndex cause => .because "failed decoding block type index" (report cause)
    | .negative index => .leaf ("negative block type index: " ++ toString index)

/-- mirrors `OperandError` -/
inductive ImmediateError where
  | unsigned (cause : Leb128.UnsignedError)
  | signed (cause : Leb128.SignedError)
  | endOfInput
  | branchTargets (cause : VectorError Leb128.UnsignedError)
  | valueTypes (cause : VectorError (MarkerError ValueType.markers))
  | refType (cause : MarkerError RefType.markers)

instance : Reportable ImmediateError where
  report
    | .unsigned cause => .because "failed decoding unsigned immediate" (report cause)
    | .signed cause => .because "failed decoding signed immediate" (report cause)
    | .endOfInput => .because "failed reading immediate bytes" .endOfInput
    | .branchTargets cause => .because "failed decoding branch targets" (report cause)
    | .valueTypes cause => .because "failed decoding select result types" (report cause)
    | .refType cause => report cause

/-- mirrors `ParseError` -/
inductive InstructionError where
  | endOfInput
  | unknownOpcode (byte : UInt8)
  | code (prefixByte : UInt8) (cause : Leb128.UnsignedError)
  | unknownCode (prefixByte : UInt8) (code : UInt32)
  | immediates (opcode : Opcode) (offset : Nat) (cause : ImmediateError)
  | blockType (cause : BlockTypeError)
  | delegateLabel (cause : Leb128.UnsignedError)
  | unexpectedElse (opcode : Opcode)
  | unexpectedDelegate (opcode : Opcode)

instance : Reportable InstructionError where
  report
    | .endOfInput => .because "failed reading instruction opcode" .endOfInput
    | .unknownOpcode byte =>
      .leaf ("unknown opcode " ++ Text.Hex.byte byte.toNat ++ " (" ++ toString byte ++ ")")
    | .code prefixByte cause =>
      .because ("failed reading opcode after prefix " ++ Text.Hex.byte prefixByte.toNat)
        (report cause)
    | .unknownCode prefixByte code =>
      .leaf ("unknown opcode " ++ Text.Hex.byte code.toNat ++ " (" ++ toString code
        ++ ") after prefix " ++ Text.Hex.byte prefixByte.toNat)
    | .immediates opcode offset cause =>
      .because ("failed decoding immediates of `" ++ opcode.mnemonic ++ "` at offset "
        ++ Text.Hex.offset offset) (report cause)
    | .blockType cause => .because "failed decoding block type" (report cause)
    | .delegateLabel _ => .leaf "failed decoding delegate label"
    | .unexpectedElse opcode => .leaf ("unexpected `else` inside `" ++ opcode.mnemonic ++ "`")
    | .unexpectedDelegate opcode =>
      .leaf ("unexpected `delegate` inside `" ++ opcode.mnemonic ++ "`")

/-- mirrors `ParseExpressionError` -/
inductive ExprError where
  | instruction (cause : InstructionError)
  | unexpectedElse
  | unexpectedDelegate

instance : Reportable ExprError where
  report
    | .instruction cause => .because "failed parsing instruction" (report cause)
    | .unexpectedElse => .leaf "`else` outside of an `if` block"
    | .unexpectedDelegate => .leaf "`delegate` outside of a `try` block"

/-! ## Immediates -/

def MemArg.decode : Decoder Leb128.UnsignedError MemArg := do
  let align ← Leb128.u32
  let offset ← Leb128.u32
  return ⟨align, offset⟩

namespace Immediate

def unsigned : Decoder ImmediateError UInt32 := Leb128.u32.mapError .unsigned

def rawByte : Decoder ImmediateError UInt8 := Decoder.byte.mapError fun _ => .endOfInput

def rawBytes (n : Nat) : Decoder ImmediateError { bytes : Bytes // bytes.length = n } :=
  (Decoder.take n).mapError fun _ => .endOfInput

def access : Decoder ImmediateError MemArg := MemArg.decode.mapError .unsigned

/-- The immediates of an opcode of the given shape. Those of a block are read by
`Instruction.sequence`.
mirrors `decode_immediates` -/
def decode : Shape → Decoder ImmediateError Immediate
  | .none | .block => return .none
  | .index => return .index (← unsigned)
  | .indexPair => do
    let first ← unsigned
    return .indexPair first (← unsigned)
  | .branchTable => do
    let targets ← (Decoder.vector Leb128.u32).mapError .branchTargets
    return .branchTable targets (← unsigned)
  | .i32 => return .i32 (← Leb128.i32.mapError .signed)
  | .i64 => return .i64 (← Leb128.i64.mapError .signed)
  | .f32 => return .f32 ⟨UInt32.ofNat (Bytes.ofLittleEndian (← rawBytes 4).val)⟩
  | .f64 => return .f64 ⟨UInt64.ofNat (Bytes.ofLittleEndian (← rawBytes 8).val)⟩
  | .memArg => return .memArg (← access)
  | .memArgLane => do
    let access ← access
    return .memArgLane access (← rawByte)
  | .lane => return .lane (← rawByte)
  | .v128 => return .v128 (← rawBytes 16)
  | .selectTyped =>
    return .valueTypes (← (Decoder.vector ValueType.markers.decode).mapError .valueTypes)
  | .refNull => return .refType (← RefType.markers.decode.mapError .refType)
  | .reserved => do
    let _ ← rawByte
    return .none

end Immediate

/-! ## Block types -/

/-- The block type without parameters and results. -/
def BlockType.emptyByte : UInt8 := 0x40

/-- A byte that is neither the empty type nor a value type is the first of a type index, which is
stored as a signed number of 33 bits. -/
def BlockType.decode : Decoder BlockTypeError BlockType := fun c =>
  match c.rest with
  | [] => .error .endOfInput c
  | byte :: rest =>
    let next : Cursor := ⟨c.position + 1, rest⟩
    if byte = emptyByte then .ok .empty next
    else
      match ValueType.markers.find? byte with
      | some type => .ok (.value type) next
      | none =>
        match Leb128.signed 33 c with
        | .error cause c' => .error (.typeIndex cause) c'
        | .ok index c' =>
          if 0 ≤ index then .ok (.typeIndex (UInt32.ofNat index.toNat)) c'
          else .error (.negative index) c'

/-! ## Instructions -/

/-- What closes a sequence of instructions. -/
inductive Terminator where
  | finish
  | orElse
  | delegate (label : Index)

namespace Instruction

/-- The start of an instruction, or a terminator.
mirrors `Parsed` -/
inductive Head where
  | opcode (opcode : Opcode)
  | terminator (terminator : Terminator)

/-- mirrors `parse` of `Instruction` -/
def Head.decode : Decoder InstructionError Head := do
  let byte ← Decoder.byte.mapError fun _ => .endOfInput
  if byte = Opcode.endByte then return .terminator .finish
  else if byte = Opcode.elseByte then return .terminator .orElse
  else if byte = Opcode.delegateByte then
    return .terminator (.delegate (← Leb128.u32.mapError .delegateLabel))
  else
    match Opcode.Space.ofPrefixByte? byte with
    | some space =>
      let code ← Leb128.u32.mapError (.code byte)
      match Opcode.ofCode? space code.toNat with
      | some known => return .opcode known
      | none => throw (.unknownCode byte code)
    | none =>
      match Opcode.ofCode? .core byte.toNat with
      | some known => return .opcode known
      | none => throw (.unknownOpcode byte)

/-- The rest of a block behind its opcode. `nested` reads instructions up to a terminator.
mirrors `parse_block` -/
def decodeBlock (nested : Decoder InstructionError (Expr × Terminator)) (opcode : Opcode)
    (offset : Nat) : Decoder InstructionError Instruction := do
  let type ← BlockType.decode.mapError .blockType
  let (body, closing) ← nested
  match closing with
  | .finish => return block opcode offset type body
  | .orElse =>
    if opcode = .ifBlock then
      let (alternative, closing) ← nested
      match closing with
      | .finish => return ifElse offset type body alternative
      | .orElse => throw (.unexpectedElse opcode)
      | .delegate _ => throw (.unexpectedDelegate opcode)
    else throw (.unexpectedElse opcode)
  | .delegate label =>
    if opcode = .tryBlock then return tryDelegate offset type body label
    else throw (.unexpectedDelegate opcode)

/-- The rest of an instruction behind its opcode. -/
def decodeRest (nested : Decoder InstructionError (Expr × Terminator)) (opcode : Opcode)
    (offset : Nat) : Decoder InstructionError Instruction :=
  if opcode.shape = .block then decodeBlock nested opcode offset
  else plain opcode offset <$> (Immediate.decode opcode.shape).mapError (.immediates opcode offset)

/-- Instructions up to a terminator, and the terminator. The number bounds how many instructions
and terminators are read. -/
def sequence : Nat → Decoder InstructionError (Expr × Terminator)
  | 0 => throw .endOfInput
  | bound + 1 => do
    let offset ← Decoder.position
    match ← Head.decode with
    | .terminator closing => return ([], closing)
    | .opcode opcode =>
      let first ← decodeRest (sequence bound) opcode offset
      let (rest, closing) ← sequence bound
      return (first :: rest, closing)

end Instruction

/-- Instructions up to the `end` that closes them.
mirrors `decode_expr` -/
def Expr.decode : Decoder ExprError Expr := fun c =>
  match Instruction.sequence (c.rest.length + 1) c with
  | .error cause c' => .error (.instruction cause) c'
  | .ok (expr, .finish) c' => .ok expr c'
  | .ok (_, .orElse) c' => .error .unexpectedElse c'
  | .ok (_, .delegate _) c' => .error .unexpectedDelegate c'

end WasmBinary
