import WasmBinary.Bytes

/-!
# Sections

A module file is a preamble and then sections, each an id byte, a size and a payload. `Section`
says where one lies in the file. Ids without a meaning are kept as `SectionKind.unknown`.
-/
namespace WasmBinary

inductive SectionKind where
  | custom
  | type
  | importing
  | function
  | table
  | memory
  | global
  | exporting
  | start
  | element
  | code
  | data
  | dataCount
  | tag
  | unknown (id : UInt8)
  deriving DecidableEq

namespace SectionKind

/-- The kinds whose id is their place in this list, and their names. -/
def known : List (SectionKind × String) :=
  [(custom, "Custom"), (type, "Type"), (importing, "Import"), (function, "Function"),
    (table, "Table"), (memory, "Memory"), (global, "Global"), (exporting, "Export"),
    (start, "Start"), (element, "Element"), (code, "Code"), (data, "Data"),
    (dataCount, "DataCount"), (tag, "Tag")]

/-- mirrors `from_id` -/
def ofId (id : UInt8) : SectionKind :=
  match known[id.toNat]? with
  | some (kind, _) => kind
  | none => unknown id

def id : SectionKind → UInt8
  | custom => 0
  | type => 1
  | importing => 2
  | function => 3
  | table => 4
  | memory => 5
  | global => 6
  | exporting => 7
  | start => 8
  | element => 9
  | code => 10
  | data => 11
  | dataCount => 12
  | tag => 13
  | unknown id => id

def text (kind : SectionKind) : String :=
  match known.lookup kind with
  | some name => name
  | none => "Unknown(" ++ toString kind.id ++ ")"

end SectionKind

/-- Where a section lies in the file. -/
structure Section where
  kind : SectionKind
  size : UInt32   -- of the payload
  offset : Nat    -- of the id byte
  payload : Nat   -- offset of the first byte of the payload
  deriving DecidableEq

namespace Section

/-- The offset behind the last byte of the payload.
mirrors `end` of `Section` -/
def stop (s : Section) : Nat := s.payload + s.size.toNat

/-- The bytes of the section, header included.
mirrors `raw_range` -/
def raw? (s : Section) (file : Bytes) : Option Bytes := file.slice? s.offset s.stop

/-- The bytes of the payload.
mirrors `payload_range` -/
def payload? (s : Section) (file : Bytes) : Option Bytes := file.slice? s.payload s.stop

end Section

end WasmBinary
