import WasmBinary.Module.Basic
import WasmBinary.Module.EntityDecode
import WasmBinary.Names.Decode

/-!
# Reading modules

A module is read section by section. The payload of a section is read within its declared size, and
reading goes on at the declared end whatever the payload took. A section that comes again replaces
what the earlier one gave; warnings and custom sections add up. Tag sections and sections of unknown
kind are listed in the section table and otherwise skipped, and so is the code if it is not wanted.
-/
namespace WasmBinary

/-! ## Errors -/

/-- mirrors `ParsePreambleError` -/
inductive PreambleError where
  | endOfInput
  | magic (found : Bytes)

/-- The first bytes of every module. -/
def Module.magic : Bytes := [0x00, 0x61, 0x73, 0x6D]

instance : Reportable PreambleError where
  report
    | .endOfInput => .because "failed decoding preamble" .endOfInput
    | .magic found =>
      let listed (bytes : Bytes) :=
        "[" ++ ", ".intercalate (bytes.map fun b => Text.Hex.upper 2 b.toNat) ++ "]"
      .leaf ("unexpected magic number: expected " ++ listed Module.magic ++ "; got "
        ++ listed found)

/-- mirrors `DecodeSectionHeaderError` -/
inductive SectionHeaderError where
  | id
  | size (cause : Leb128.UnsignedError)

instance : Reportable SectionHeaderError where
  report
    | .id => .because "failed reading section ID byte" .endOfInput
    | .size cause => .because "failed decoding section size" (report cause)

/-- mirrors `DecodeModuleError` -/
inductive ModuleError where
  | preamble (cause : PreambleError)
  | header (cause : SectionHeaderError)
  | outOfBounds (found : Section) (available : Nat)
  | custom (cause : NameError)
  | names (cause : NamesError)
  | types (cause : VectorError FuncTypeError)
  | imports (cause : VectorError ImportError)
  | functions (cause : VectorError IndexError)
  | tables (cause : VectorError TableTypeError)
  | memories (cause : VectorError MemoryError)
  | globals (cause : VectorError GlobalError)
  | exports (cause : VectorError ExportError)
  | start (cause : IndexError)
  | elements (cause : VectorError ElementError)
  | dataCount (cause : Leb128.UnsignedError)
  | codes (cause : VectorError CodeError)
  | datas (cause : VectorError DataError)

instance : Reportable ModuleError where
  report
    | .preamble cause => report cause
    | .header cause => report cause
    | .outOfBounds found available =>
      .leaf (found.kind.text ++ " section at offset " ++ Text.Hex.offset found.offset
        ++ " declares " ++ toString found.size ++ " bytes; only " ++ toString available
        ++ " remain")
    | .custom cause => .because "failed decoding custom section name" (report cause)
    | .names cause => .because "failed decoding name section" (report cause)
    | .types cause => .because "failed decoding Type section" (report cause)
    | .imports cause => .because "failed decoding Import section" (report cause)
    | .functions cause => .because "failed decoding Function section" (report cause)
    | .tables cause => .because "failed decoding Table section" (report cause)
    | .memories cause => .because "failed decoding Memory section" (report cause)
    | .globals cause => .because "failed decoding Global section" (report cause)
    | .exports cause => .because "failed decoding Export section" (report cause)
    | .start cause => .because "failed decoding Start section" (report cause)
    | .elements cause => .because "failed decoding Element section" (report cause)
    | .dataCount cause => .because "failed decoding DataCount section" (report cause)
    | .codes cause => .because "failed decoding Code section" (report cause)
    | .datas cause => .because "failed decoding Data section" (report cause)

/-! ## Decoders -/

/-- The name of a custom section, and the rest of its payload.
mirrors `decode_custom_section` -/
def CustomSection.decode : Decoder NameError CustomSection := do
  let name ← Decoder.name
  return ⟨name, ← Decoder.takeAll⟩

/-- The header of the section that starts here.
mirrors `decode_section_header` -/
def Section.decode : Decoder SectionHeaderError Section := do
  let offset ← Decoder.position
  let id ← Decoder.byte.mapError fun _ => .id
  let size ← Leb128.u32.mapError .size
  return ⟨SectionKind.ofId id, size, offset, ← Decoder.position⟩

namespace Module

/-- The version, behind the magic number.
mirrors `parse_preamble` -/
def decodePreamble : Decoder PreambleError UInt32 := do
  let magic ← (Decoder.take 4).mapError fun _ => .endOfInput
  if magic.val = Module.magic then
    let version ← (Decoder.take 4).mapError fun _ => .endOfInput
    return UInt32.ofNat (Bytes.ofLittleEndian version.val)
  else throw (.magic magic.val)

/-- Adds a custom section. One called `name` holds the names of the module. -/
def decodeCustom (m : Module) : Decoder ModuleError Module := do
  let custom ← CustomSection.decode.mapError .custom
  let m := { m with customs := m.customs ++ [custom] }
  if custom.name = "name" then
    match Names.decode custom.contents with
    | .ok (names, warnings) => return { m with names, warnings := m.warnings ++ warnings }
    | .error cause => throw (.names cause)
  else return m

/-- The module with what a payload of the given kind holds.
mirrors `decode_section` -/
def decodePayload (readCode : Bool) (m : Module) : SectionKind → Decoder ModuleError Module
  | .custom => m.decodeCustom
  | .type => return { m with types := ← (Decoder.vector FuncType.decode).mapError .types }
  | .importing => return { m with imports := ← (Decoder.vector Import.decode).mapError .imports }
  | .function =>
    return { m with functions := ← (Decoder.vector IndexSpace.type.decode).mapError .functions }
  | .table => return { m with tables := ← (Decoder.vector TableType.decode).mapError .tables }
  | .memory =>
    return { m with memories := ← (Decoder.vector Limits.decodeMemory).mapError .memories }
  | .global => return { m with globals := ← (Decoder.vector Global.decode).mapError .globals }
  | .exporting => return { m with exports := ← (Decoder.vector Export.decode).mapError .exports }
  | .start => return { m with start := some (← IndexSpace.func.decode.mapError .start) }
  | .element => return { m with elements := ← (Decoder.vector Element.decode).mapError .elements }
  | .code =>
    if readCode then return { m with codes := ← Code.decodeAll.mapError .codes } else return m
  | .data => return { m with datas := ← (Decoder.vector DataSegment.decode).mapError .datas }
  | .dataCount => return { m with dataCount := some (← Leb128.u32.mapError .dataCount) }
  | .tag | .unknown _ => return m

/-- The module with the sections that follow, up to the end of the input. Each is at least two bytes
long, so the number of bytes left bounds how many there are. -/
def decodeSections (readCode : Bool) : Nat → Module → Decoder ModuleError Module
  | 0, m => return m
  | bound + 1, m => do
    if (← get).rest.isEmpty then return m
    let found ← Section.decode.mapError .header
    let rest := (← get).rest
    if (rest.take found.size.toNat).length < found.size.toNat then
      throw (.outOfBounds found rest.length)
    let m ← Decoder.within found.size.toNat (m.decodePayload readCode found.kind)
    decodeSections readCode bound { m with sections := m.sections ++ [found] }

/-- The module that a file holds, with or without its code.
mirrors `decode_module_with` -/
def decode (readCode : Bool) (file : Bytes) : Except ModuleError Module :=
  let decoder : Decoder ModuleError Module := do
    let version ← decodePreamble.mapError .preamble
    decodeSections readCode file.length { source := file, version }
  decoder.outcome (.start file)

end Module

end WasmBinary
