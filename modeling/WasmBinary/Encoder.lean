import WasmBinary.Instruction.Basic
import WasmBinary.Leb128
import WasmBinary.Module.Basic
import WasmBinary.Module.Entity
import WasmBinary.Module.Section

/-!
# Writing the parts of a module

A sink takes the bytes of an output, all of them or only so many. A write that does not fit stores what fits and
fails; after that the sink is full. `Writer` is an operation on a sink that may fail, and keeps what was written
before it failed.

Sections that change are written from their entities, all others are copied from the file they were read from. Of
instruction sequences only single constants can be written; `Constant` says which. A section writer needs the size
of its payload first, which the `…Length` functions give without writing.
-/
namespace WasmBinary

/-! ## Sinks -/

structure Sink where
  chunks : List Bytes    -- latest first
  room : Option Nat      -- how many more bytes fit; none: any number
  deriving DecidableEq

namespace Sink

/-- A sink that takes `capacity` bytes, or any number. -/
def empty (capacity : Option Nat) : Sink := ⟨[], capacity⟩

/-- All bytes written so far. -/
def bytes (s : Sink) : Bytes := s.chunks.reverse.flatten

end Sink

abbrev Writer (ε α : Type) := EStateM ε Sink α

/-- The sink took only a part of a write. -/
inductive SinkFull where
  | sinkFull

instance : Reportable SinkFull := ⟨fun _ => .leaf "failed to write whole buffer"⟩

namespace Writer

variable {ε ε' α : Type}

/-- Turns the error of a writer into that of its caller. -/
def mapError (f : ε → ε') (w : Writer ε α) : Writer ε' α := fun s =>
  match w s with
  | .ok a s' => .ok a s'
  | .error e s' => .error (f e) s'

/-- A result that was found without writing. -/
def ofExcept : Except ε α → Writer ε α
  | .ok a => pure a
  | .error e => throw e

/-- Writes the bytes in one piece. -/
def put (bytes : Bytes) : Writer SinkFull Unit := fun s =>
  match s.room with
  | none => .ok () ⟨bytes :: s.chunks, none⟩
  | some room =>
    if bytes.length ≤ room then .ok () ⟨bytes :: s.chunks, some (room - bytes.length)⟩
    else .error .sinkFull ⟨bytes.take room :: s.chunks, some 0⟩

/-- Writes the bytes one by one. -/
def putEach : Bytes → Writer SinkFull Unit
  | [] => return
  | b :: rest => do
    put [b]
    putEach rest

end Writer

theorem Sink.bytes_empty (capacity : Option Nat) : (Sink.empty capacity).bytes = [] := rfl

/-! ## Errors -/

inductive EncodeError where
  | sinkFull
  | outOfFile
  | unsupportedInstruction (text : String)
  | unsupportedExpression (length : Nat)
  | tooLarge (length : Nat)
  deriving DecidableEq

instance : Reportable EncodeError where
  report
    | .sinkFull => .because "failed writing output" (report SinkFull.sinkFull)
    | .outOfFile => .because "failed writing output" (.leaf "unexpected end of file")
    | .unsupportedInstruction text =>
      .leaf ("cannot encode `" ++ text ++ "` in a constant expression")
    | .unsupportedExpression length =>
      .leaf ("only single-instruction constant expressions can be encoded; got " ++ toString length
        ++ " instructions")
    | .tooLarge length => .leaf ("length " ++ toString length ++ " does not fit in u32")

/-! ## Constants -/

/-- What stands behind an opcode, whichever opcode it is. Every nested form may have a second arm and a label here,
and not only those of an `Instruction`. -/
inductive LooseOperands where
  | immediate (immediate : Immediate)
  | nested (type : BlockType) (body : Expr) (alternative : Option Expr) (label : Option Index)

def Instruction.looseOperands : Instruction → LooseOperands
  | .plain _ _ immediate => .immediate immediate
  | .block _ _ type body => .nested type body none none
  | .ifElse _ type body alternative => .nested type body (some alternative) none
  | .tryDelegate _ type body label => .nested type body none (some label)

/-- A value that one instruction gives. -/
inductive Constant where
  | i32 (value : Int32)
  | i64 (value : Int64)
  | f32 (value : Ieee754.F32)
  | f64 (value : Ieee754.F64)
  | globalGet (index : Index)
  | refFunc (index : Index)
  | refNull (type : RefType)
  deriving DecidableEq

/-- The constant that an opcode and its operands give: the two have to fit.
mirrors the match of `write_const_expr` -/
def Constant.of? (opcode : Opcode) : LooseOperands → Option Constant
  | .immediate (.i32 value) => if opcode = .i32Const then some (.i32 value) else none
  | .immediate (.i64 value) => if opcode = .i64Const then some (.i64 value) else none
  | .immediate (.f32 value) => if opcode = .f32Const then some (.f32 value) else none
  | .immediate (.f64 value) => if opcode = .f64Const then some (.f64 value) else none
  | .immediate (.index i) =>
    if opcode = .globalGet then some (.globalGet i)
    else if opcode = .refFunc then some (.refFunc i)
    else none
  | .immediate (.refType type) => if opcode = .refNull then some (.refNull type) else none
  | _ => none

def Instruction.constant? (i : Instruction) : Option Constant := Constant.of? i.opcode i.looseOperands

/-- The constant that a sequence consists of.
mirrors `single_instruction` -/
def Expr.constant (expr : Expr) : Except EncodeError Constant :=
  match expr with
  | [i] =>
    match i.constant? with
    | some constant => .ok constant
    | none => .error (.unsupportedInstruction i.text)
  | _ => .error (.unsupportedExpression expr.length)

/-! ## Lengths -/

/-- A length as it is stored.
mirrors `checked_len` -/
def checkedLength (length : Nat) : Except EncodeError UInt32 :=
  if length < UInt32.size then .ok (UInt32.ofNat length) else .error (.tooLarge length)

/-- How many bytes stand between the opcode and the `end` of a constant. Constants are told here once more, apart
from `Constant.of?`.
mirrors the match of `const_expr_len` -/
def operandsLength? (opcode : Opcode) : LooseOperands → Option Nat
  | .immediate (.i32 value) =>
    if opcode = .i32Const then some (Leb128.signedLength value.toInt) else none
  | .immediate (.i64 value) =>
    if opcode = .i64Const then some (Leb128.signedLength value.toInt) else none
  | .immediate (.f32 _) => if opcode = .f32Const then some 4 else none
  | .immediate (.f64 _) => if opcode = .f64Const then some 8 else none
  | .immediate (.index i) =>
    if opcode = .globalGet ∨ opcode = .refFunc then some (Leb128.unsignedLength i.toNat) else none
  | .immediate (.refType _) => if opcode = .refNull then some 1 else none
  | _ => none

/-- mirrors `const_expr_len` -/
def constExprLength (expr : Expr) : Except EncodeError Nat :=
  match expr with
  | [i] =>
    match operandsLength? i.opcode i.looseOperands with
    | some length => .ok (1 + length + 1)
    | none => .error (.unsupportedInstruction i.text)
  | _ => .error (.unsupportedExpression expr.length)

/-- mirrors `global_len` -/
def globalLength (g : Global) : Except EncodeError Nat := do
  return 2 + (← constExprLength g.init)

/-- mirrors `data_segment_len` -/
def dataSegmentLength (d : DataSegment) : Except EncodeError Nat := do
  let mode ←
    match d.mode with
    | .active offset => constExprLength offset
    | .passive => pure 0
    | .activeIn memory offset =>
      (Leb128.unsignedLength memory.toNat + ·) <$> constExprLength offset
  let init ← checkedLength d.init.length
  return Leb128.unsignedLength d.mode.tag.toNat + mode + Leb128.unsignedLength init.toNat
    + d.init.length

/-- The length of items one behind the other. -/
def itemsLength {α : Type} (itemLength : α → Except EncodeError Nat) : List α → Except EncodeError Nat
  | [] => return 0
  | item :: rest => do
    let length ← itemLength item
    return length + (← itemsLength itemLength rest)

/-- The length of a count and that many items.
mirrors `vector_len` -/
def vectorLength {α : Type} (itemLength : α → Except EncodeError Nat) (items : List α) :
    Except EncodeError UInt32 := do
  let count ← checkedLength items.length
  let length ← itemsLength itemLength items
  checkedLength (Leb128.unsignedLength count.toNat + length)

/-- mirrors `global_section_len` -/
def globalSectionLength (globals : List Global) : Except EncodeError UInt32 :=
  vectorLength globalLength globals

/-- mirrors `data_section_len` -/
def dataSectionLength (datas : List DataSegment) : Except EncodeError UInt32 :=
  vectorLength dataSegmentLength datas

/-! ## Writers -/

abbrev Encoder := Writer EncodeError

namespace Encoder

def bytes (bytes : Bytes) : Encoder Unit := (Writer.put bytes).mapError fun _ => .sinkFull

/-- mirrors `write_byte` -/
def byte (b : UInt8) : Encoder Unit := Encoder.bytes [b]

/-- Writes a LEB128 number, whose bytes go out one by one. -/
def leb128 (bytes : Bytes) : Encoder Unit := (Writer.putEach bytes).mapError fun _ => .sinkFull

/-- mirrors `write_u32` -/
def u32 (value : UInt32) : Encoder Unit := leb128 (Leb128.encodeUnsigned value.toNat)

/-- The magic number and the version.
mirrors `write_header` -/
def header (version : UInt32) : Encoder Unit := do
  bytes [0x00, 0x61, 0x73, 0x6D]
  bytes (Bytes.littleEndian 4 version.toNat)

/-- mirrors `write_section_header` -/
def sectionHeader (kind : SectionKind) (size : UInt32) : Encoder Unit := do
  byte kind.id
  u32 size

/-- Copies a section, header included, from the file it was read from.
mirrors `copy_section` -/
def copySection (file : Bytes) (s : Section) : Encoder Unit := do
  match s.raw? file with
  | some raw => bytes raw
  | none => throw .outOfFile

/-- The opcode and the immediate of a constant. -/
def constant : Constant → Encoder Unit
  | .i32 value => do
    byte 0x41
    leb128 (Leb128.encodeSigned value.toInt)
  | .i64 value => do
    byte 0x42
    leb128 (Leb128.encodeSigned value.toInt)
  | .f32 value => do
    byte 0x43
    bytes (Bytes.littleEndian 4 value.bits.toNat)
  | .f64 value => do
    byte 0x44
    bytes (Bytes.littleEndian 8 value.bits.toNat)
  | .globalGet index => do
    byte 0x23
    u32 index
  | .refFunc index => do
    byte 0xD2
    u32 index
  | .refNull type => do
    byte 0xD0
    byte type.marker

/-- mirrors `write_const_expr` -/
def constExpr (expr : Expr) : Encoder Unit := do
  constant (← Writer.ofExcept expr.constant)
  byte Opcode.endByte

/-- mirrors `write_global` -/
def global (g : Global) : Encoder Unit := do
  byte g.type.value.marker
  byte g.type.mutability.marker
  constExpr g.init

/-- mirrors `write_data_segment` -/
def dataSegment (d : DataSegment) : Encoder Unit := do
  u32 d.mode.tag
  match d.mode with
  | .active offset => constExpr offset
  | .passive => pure ()
  | .activeIn memory offset => do
    u32 memory
    constExpr offset
  u32 (← Writer.ofExcept (checkedLength d.init.length))
  bytes d.init

/-- A section that holds a count and that many items. Nothing is written if its length cannot be
told. -/
def vectorSection {α : Type} (kind : SectionKind) (length : List α → Except EncodeError UInt32)
    (item : α → Encoder Unit) (items : List α) : Encoder Unit := do
  sectionHeader kind (← Writer.ofExcept (length items))
  u32 (← Writer.ofExcept (checkedLength items.length))
  items.forM item

/-- mirrors `write_global_section` -/
def globalSection : List Global → Encoder Unit := vectorSection .global globalSectionLength global

/-- mirrors `write_data_section` -/
def dataSection : List DataSegment → Encoder Unit := vectorSection .data dataSectionLength dataSegment

/-- mirrors `write_data_count_section` -/
def dataCountSection (count : UInt32) : Encoder Unit := do
  sectionHeader .dataCount (UInt32.ofNat (Leb128.unsignedLength count.toNat))
  u32 count

/-- Sections to write in place of those of a module; the others are copied. -/
structure Replacements where
  globals : Option (List Global) := none
  datas : Option (List DataSegment) := none
  dataCount : Option UInt32 := none

/-- Writes one section of a module, or what replaces it. -/
def sectionOf (m : Module) (r : Replacements) (s : Section) : Encoder Unit :=
  match s.kind, r.globals, r.datas, r.dataCount with
  | .global, some globals, _, _ => globalSection globals
  | .data, _, some datas, _ => dataSection datas
  | .dataCount, _, _, some count => dataCountSection count
  | _, _, _, _ => copySection m.source s

/-- Writes a module with some of its sections replaced. -/
def module (m : Module) (r : Replacements) : Encoder Unit := do
  header m.version
  m.sections.forM (sectionOf m r)

end Encoder

end WasmBinary
