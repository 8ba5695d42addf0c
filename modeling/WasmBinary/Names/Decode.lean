import WasmBinary.Names.Basic
import WasmBinary.Vector

/-!
# Reading the `name` section

The section is a sequence of subsections, each an id, a size and a payload. Subsections with an
unknown id are skipped, and reading goes on at the declared end of a subsection whatever its payload
took. Entries that repeat an index are dropped with a warning.
-/
namespace WasmBinary

/-- mirrors `DecodeNameAssocError` -/
inductive NameEntryError where
  | index (cause : Leb128.UnsignedError)
  | name (cause : NameError)

instance : Reportable NameEntryError where
  report
    | .index cause => .because "failed decoding name map index" (report cause)
    | .name cause => report cause

/-- mirrors `DecodeIndirectNameAssocError` -/
inductive LocalNamesError where
  | function (cause : Leb128.UnsignedError)
  | names (cause : VectorError NameEntryError)

instance : Reportable LocalNamesError where
  report
    | .function cause => .because "failed decoding function index" (report cause)
    | .names cause => .because "failed decoding local name map" (report cause)

/-- mirrors `DecodeNameSectionError` -/
inductive NamesError where
  | id
  | size (cause : Leb128.UnsignedError)
  | outOfBounds (id : UInt8) (size : UInt32)
  | module (cause : NameError)
  | map (id : UInt8) (cause : VectorError NameEntryError)
  | locals (cause : VectorError LocalNamesError)

instance : Reportable NamesError where
  report
    | .id => .because "failed reading name subsection id" .endOfInput
    | .size cause => .because "failed decoding name subsection size" (report cause)
    | .outOfBounds id size =>
      .leaf ("name subsection " ++ toString id ++ " of " ++ toString size
        ++ " bytes runs past the end of the section")
    | .module cause => .because "failed decoding module name" (report cause)
    | .map id cause =>
      .because ("failed decoding name map in subsection " ++ toString id) (report cause)
    | .locals cause => .because "failed decoding local names" (report cause)

namespace Names

/-- An index and its name.
mirrors `parse_name_assoc` -/
def entry : Decoder NameEntryError (Index × String) := do
  let i ← Leb128.u32.mapError .index
  return (i, ← Decoder.name.mapError .name)

def entries : Decoder (VectorError NameEntryError) (List (Index × String)) := Decoder.vector entry

/-- The names of the locals of one function.
mirrors `parse_indirect_assoc` -/
def localEntries : Decoder LocalNamesError (Index × List (Index × String)) := do
  let function ← Leb128.u32.mapError .function
  return (function, ← entries.mapError .names)

/-- Adds entries to a map, and a warning for each index that has a name already.
mirrors `insert_name` -/
def addAll (kind : NameKind) : NameMap → List (Index × String) → NameMap × List Warning
  | m, [] => (m, [])
  | m, (i, name) :: rest =>
    if (m.get? i).isSome then
      let (m', warnings) := addAll kind m rest
      (m', .duplicateName kind i name :: warnings)
    else addAll kind (m.push i name) rest

/-- Adds the local names of functions. Of several maps for one function the first is kept. -/
def addLocals : List (Index × NameMap) → List (Index × List (Index × String)) →
    List (Index × NameMap) × List Warning
  | known, [] => (known, [])
  | known, (function, entries) :: rest =>
    if (known.lookup function).isSome then
      let (known', warnings) := addLocals known rest
      (known', .duplicateLocalMap function :: warnings)
    else
      let (m, warnings) := addAll .localVariable .empty entries
      let (known', warnings') := addLocals (known ++ [(function, m)]) rest
      (known', warnings ++ warnings')

/-- What a subsection adds to the names, and the warnings it gives. -/
def subsection (id : UInt8) (n : Names) : Decoder NamesError (Names × List Warning) := do
  match id with
  | 0 =>
    let name ← Decoder.name.mapError .module
    return ({ n with module := some name }, [])
  | 1 =>
    let (m, warnings) := addAll .function n.functions (← entries.mapError (.map id))
    return ({ n with functions := m }, warnings)
  | 2 =>
    let (locals, warnings) :=
      addLocals n.locals (← (Decoder.vector localEntries).mapError .locals)
    return ({ n with locals := locals }, warnings)
  | 7 =>
    let (m, warnings) := addAll .global n.globals (← entries.mapError (.map id))
    return ({ n with globals := m }, warnings)
  | 9 =>
    let (m, warnings) := addAll .dataSegment n.dataSegments (← entries.mapError (.map id))
    return ({ n with dataSegments := m }, warnings)
  | _ => return (n, [])

/-- Subsections up to the end of the input. Each is at least two bytes long, so the number of
bytes left bounds how many there are. -/
def subsections : Nat → Names → Decoder NamesError (Names × List Warning)
  | 0, n => return (n, [])
  | bound + 1, n => do
    if (← get).rest.isEmpty then return (n, [])
    let id ← Decoder.byte.mapError fun _ => .id
    let size ← Leb128.u32.mapError .size
    if ((← get).rest.take size.toNat).length < size.toNat then throw (.outOfBounds id size)
    let (n', warnings) ← Decoder.within size.toNat (subsection id n)
    let (n'', warnings') ← subsections bound n'
    return (n'', warnings ++ warnings')

/-- The names in the contents of a `name` section.
mirrors `decode_name_section` -/
def decode (contents : Bytes) : Except NamesError (Names × List Warning) :=
  (subsections contents.length {}).outcome (.start contents)

end Names

end WasmBinary
