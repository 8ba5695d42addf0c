import WasmBinary.Module.Section
import WasmBinary.Module.Entity
import WasmBinary.Names.Basic

/-!
# Modules

A module holds the bytes it was read from, its section table, and its entities in the order of their
sections. An index space starts with the imported entities, so the index of a defined entity is its
place in its list plus the number of imports of its kind.
-/
namespace WasmBinary

structure Module where
  source : Bytes
  version : UInt32
  sections : List Section := []
  customs : List CustomSection := []
  types : List FuncType := []
  imports : List Import := []
  functions : List Index := []        -- the type of each defined function
  tables : List TableType := []
  memories : List Limits := []
  globals : List Global := []
  exports : List Export := []
  start : Option Index := none
  elements : List Element := []
  dataCount : Option UInt32 := none
  codes : List Code := []             -- empty if the Code section was not to be read
  datas : List DataSegment := []
  names : Names := {}
  warnings : List Warning := []
  deriving BEq

namespace Module

/-! ## Sections -/

/-- mirrors `sections_of` -/
def sectionsOf (m : Module) (kind : SectionKind) : List Section := m.sections.filter (·.kind = kind)

/-- mirrors `has_section` -/
def hasSection (m : Module) (kind : SectionKind) : Bool := m.sections.any (·.kind = kind)

/-! ## Imports and exports -/

/-- mirrors `imported_function_count` -/
def importedFunctionCount (m : Module) : Nat :=
  m.imports.countP fun i => match i.item with | .func _ => true | _ => false

/-- mirrors `imported_global_count` -/
def importedGlobalCount (m : Module) : Nat :=
  m.imports.countP fun i => match i.item with | .global _ => true | _ => false

/-- The first export with a name.
mirrors `find_export` -/
def findExport? (m : Module) (name : String) : Option Export := m.exports.find? (·.name == name)

/-! ## Functions and their names -/

/-- The signature of a defined function.
mirrors `function_type` -/
def functionType? (m : Module) (i : Nat) : Option FuncType :=
  m.functions[i]?.bind fun type => m.types[type.toNat]?

/-- The name that the name section gives to an index of the function index space. An index above
the range of an index has none. -/
def givenName? (m : Module) (full : Nat) : Option String :=
  if full < UInt32.size then m.names.functions.get? (UInt32.ofNat full) else none

/-- The name of a defined function; without a name that is not empty, one made from its index.
mirrors `function_name` -/
def functionName (m : Module) (i : Nat) : String :=
  match m.givenName? (m.importedFunctionCount + i) with
  | some name => if name.isEmpty then "idx:" ++ toString i else name
  | none => "idx:" ++ toString i

/-- The name of any function, by its index in the function index space.
mirrors `function_name_absolute` -/
def functionNameAbsolute (m : Module) (full : Nat) : String :=
  let unnamed :=
    if m.importedFunctionCount ≤ full then m.functionName (full - m.importedFunctionCount)
    else "import:" ++ toString full
  match m.givenName? full with
  | some name => if name.isEmpty then unnamed else name
  | none => unnamed

/-- The place among the defined functions of the function with a name.
mirrors `function_index` -/
def functionIndex? (m : Module) (name : String) : Option Nat :=
  match m.names.functionIndex? name with
  | some full =>
    if m.importedFunctionCount ≤ full.toNat then some (full.toNat - m.importedFunctionCount)
    else none
  | none => none

/-- The name of any global, by its index in the global index space.
mirrors `global_name` -/
def globalName (m : Module) (i : Index) : String :=
  match m.names.globals.get? i with
  | some name => name
  | none => "global:" ++ toString i

end Module

end WasmBinary
