import WasmBinary.Module.Entity
import WasmBinary.Instruction.Decode

/-!
# Reading entities

One decoder for each kind of entity that a section lists. Types and indices have theirs in
`WasmBinary.Types.Decode`.
-/
namespace WasmBinary

/-! ## Imports and exports -/

def ExternalKind.markers : MarkerTable ExternalKind where
  noun := "external kind"
  rows := [(0x00, .func, "Func"), (0x01, .table, "Table"), (0x02, .memory, "Mem"),
    (0x03, .global, "Global"), (0x04, .tag, "Tag")]

/-- mirrors `DecodeImportError` -/
inductive ImportError where
  | moduleName (cause : NameError)
  | name (cause : NameError)
  | kind (cause : MarkerError ExternalKind.markers)
  | type (cause : IndexError)
  | table (cause : TableTypeError)
  | memory (cause : MemoryError)
  | global (cause : GlobalTypeError)
  | tagAttribute
  | unknownTagAttribute (found : UInt8)

instance : Reportable ImportError where
  report
    | .moduleName cause => .because "failed decoding import module name" (report cause)
    | .name cause => .because "failed decoding import name" (report cause)
    | .kind cause => report cause
    | .type cause => report cause
    | .table cause => report cause
    | .memory cause => report cause
    | .global cause => report cause
    | .tagAttribute => .because "failed reading tag attribute" .endOfInput
    | .unknownTagAttribute found =>
      .leaf ("invalid tag attribute: expected 0x00; got " ++ Text.Hex.byte found.toNat)

/-- What an import of a kind brings in. A tag has an attribute in front of its type, of which only
zero is defined. -/
def ImportItem.decode : ExternalKind → Decoder ImportError ImportItem
  | .func => return .func (← IndexSpace.type.decode.mapError .type)
  | .table => return .table (← TableType.decode.mapError .table)
  | .memory => return .memory (← Limits.decodeMemory.mapError .memory)
  | .global => return .global (← GlobalType.decode.mapError .global)
  | .tag => do
    let kind ← Decoder.byte.mapError fun _ => .tagAttribute
    if kind = 0 then return .tag (← IndexSpace.type.decode.mapError .type)
    else throw (.unknownTagAttribute kind)

/-- mirrors `parse_import` -/
def Import.decode : Decoder ImportError Import := do
  let module ← Decoder.name.mapError .moduleName
  let name ← Decoder.name.mapError .name
  let kind ← ExternalKind.markers.decode.mapError .kind
  return ⟨module, name, ← ImportItem.decode kind⟩

/-- mirrors `DecodeExportError` -/
inductive ExportError where
  | name (cause : NameError)
  | kind (cause : MarkerError ExternalKind.markers)
  | index (cause : Leb128.UnsignedError)

instance : Reportable ExportError where
  report
    | .name cause => .because "failed decoding export name" (report cause)
    | .kind cause => report cause
    | .index cause => .because "failed decoding exported index" (report cause)

/-- mirrors `parse_export` -/
def Export.decode : Decoder ExportError Export := do
  let name ← Decoder.name.mapError .name
  let kind ← ExternalKind.markers.decode.mapError .kind
  return ⟨name, kind, ← Leb128.u32.mapError .index⟩

/-! ## Globals -/

/-- mirrors `DecodeGlobalError` -/
inductive GlobalError where
  | type (cause : GlobalTypeError)
  | init (cause : ExprError)

instance : Reportable GlobalError where
  report
    | .type cause => report cause
    | .init cause => .because "failed decoding global initializer" (report cause)

/-- mirrors `parse_global` -/
def Global.decode : Decoder GlobalError Global := do
  let type ← GlobalType.decode.mapError .type
  return ⟨type, ← Expr.decode.mapError .init⟩

/-! ## Element segments -/

/-- mirrors `DecodeElementKindError` -/
inductive ElementKindError where
  | endOfInput
  | unknown (found : UInt8)

instance : Reportable ElementKindError where
  report
    | .endOfInput => .endOfInput
    | .unknown found => .leaf ("expected byte 0x00; got " ++ Text.Hex.byte found.toNat)

/-- mirrors `DecodeElementError` -/
inductive ElementError where
  | flags (cause : Leb128.UnsignedError)
  | unknownFlags (found : UInt32)
  | offset (cause : ExprError)
  | kind (cause : ElementKindError)
  | table (cause : IndexError)
  | type (cause : MarkerError RefType.markers)
  | expressions (cause : VectorError ExprError)
  | functions (cause : VectorError IndexError)

instance : Reportable ElementError where
  report
    | .flags _ => .leaf "failed decoding bitfield"
    | .unknownFlags found =>
      .leaf ("invalid bitfield: expected value in range [0,7]; got " ++ toString found)
    | .offset _ => .leaf "failed decoding offset expression"
    | .kind cause => .because "failed decoding Element kind" (report cause)
    | .table cause => report cause
    | .type cause => report cause
    | .expressions _ => .leaf "failed decoding element expressions"
    | .functions cause => report cause

namespace Element

/-- Bit 0 clear: active. Bit 0 set: bit 1 tells declarative from passive. -/
def isActive (flags : UInt32) : Bool := flags &&& 1 == 0

/-- Bit 1: an active segment names its table, a segment that is not active is declarative. -/
def hasSecondBit (flags : UInt32) : Bool := flags &&& 2 != 0

/-- Bit 2: the items are expressions and not function indices. -/
def hasExpressions (flags : UInt32) : Bool := flags &&& 4 != 0

/-- Flags 0 and 4 store no type. -/
def hasType (flags : UInt32) : Bool := flags &&& 3 != 0

def decodeMode (flags : UInt32) : Decoder ElementError ElementMode := do
  if isActive flags then
    let table ← if hasSecondBit flags then IndexSpace.table.decode.mapError .table else pure 0
    return .active table (← Expr.decode.mapError .offset)
  else if hasSecondBit flags then return .declarative
  else return .passive

/-- Zero is the only element kind, and stands for functions.
mirrors `parse_elemkind` -/
def decodeKind : Decoder ElementKindError RefType := do
  let kind ← Decoder.byte.mapError fun _ => .endOfInput
  if kind = 0 then return .func else throw (.unknown kind)

/-- The type of the items. With expressions it is a reference type, with function indices an
element kind. -/
def decodeType (flags : UInt32) : Decoder ElementError RefType :=
  if !hasType flags then pure .func
  else if hasExpressions flags then RefType.markers.decode.mapError .type
  else decodeKind.mapError .kind

def decodeItems (flags : UInt32) : Decoder ElementError ElementItems :=
  if hasExpressions flags then
    .expressions <$> (Decoder.vector Expr.decode).mapError .expressions
  else
    .functions <$> (Decoder.vector IndexSpace.func.decode).mapError .functions

/-- mirrors `parse_elem` -/
def decode : Decoder ElementError Element := do
  let flags ← Leb128.u32.mapError .flags
  if 7 < flags then throw (.unknownFlags flags)
  let mode ← decodeMode flags
  let type ← decodeType flags
  return ⟨flags, mode, type, ← decodeItems flags⟩

end Element

/-! ## Data segments -/

/-- mirrors `DecodeDataSegmentError` -/
inductive DataError where
  | tag (cause : Leb128.UnsignedError)
  | unknownTag (found : UInt32)
  | offset (cause : ExprError)
  | init (cause : ByteVectorError)
  | memory (cause : IndexError)

instance : Reportable DataError where
  report
    | .tag _ => .leaf "failed decoding bitfield"
    | .unknownTag found =>
      .leaf ("invalid bitfield: expected 0 (active), 1 (passive) or 2 (active with memory); got "
        ++ toString found)
    | .offset _ => .leaf "failed decoding offset expression"
    | .init cause => .because "failed decoding init byte vector" (report cause)
    | .memory cause => report cause

def DataMode.decode : Decoder DataError DataMode := do
  let tag ← Leb128.u32.mapError .tag
  if tag = 0 then return .active (← Expr.decode.mapError .offset)
  else if tag = 1 then return .passive
  else if tag = 2 then
    let memory ← IndexSpace.memory.decode.mapError .memory
    return .activeIn memory (← Expr.decode.mapError .offset)
  else throw (.unknownTag tag)

/-- mirrors `parse_data` -/
def DataSegment.decode : Decoder DataError DataSegment := do
  let mode ← DataMode.decode
  return ⟨mode, ← Decoder.byteVector.mapError .init⟩

/-! ## Code -/

/-- mirrors `DecodeCodeEntryError` -/
inductive CodeError where
  | size (cause : Leb128.UnsignedError)
  | outOfBounds (offset : Nat) (size : UInt32)

instance : Reportable CodeError where
  report
    | .size cause => .because "failed decoding size of function code" (report cause)
    | .outOfBounds offset size =>
      .leaf ("function body of " ++ toString size ++ " bytes at offset " ++ Text.Hex.offset offset
        ++ " runs past the end of the section")

namespace Code

/-- The offset and the bytes of one function's code.
mirrors `parse_code_entry` -/
def decodePlace : Decoder CodeError (Nat × Bytes) := do
  let size ← Leb128.u32.mapError .size
  let offset ← Decoder.position
  let bytes ← Decoder.takeUpTo size.toNat
  if bytes.length < size.toNat then throw (.outOfBounds offset size)
  return (offset, bytes)

/-- The code of all defined functions, none of it read.
mirrors `decode_code_section` -/
def decodeAll : Decoder (VectorError CodeError) (List Code) := do
  let places ← Decoder.vector decodePlace
  return places.mapIdx fun i (offset, bytes) => ⟨i, offset, bytes⟩

end Code

end WasmBinary
