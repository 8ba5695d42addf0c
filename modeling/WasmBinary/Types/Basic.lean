import WasmBinary.Decoder

/-!
# Types

The types of values, functions, tables, memories and globals, with their text as the listings print it.

Some values are stored as a single marker byte. A `MarkerTable` lists the markers of one kind of value, in the order
in which error messages list them: `ValueType.markers`, `RefType.markers` and `Mutability.markers`.
-/
namespace WasmBinary

/-! ## Values stored as one byte -/

/-- The markers of one kind of value. A row holds the byte, the value, and how messages write it. -/
structure MarkerTable (α : Type) where
  noun : String
  rows : List (UInt8 × α × String)

namespace MarkerTable

variable {α : Type}

def find? (t : MarkerTable α) (marker : UInt8) : Option α := t.rows.lookup marker |>.map Prod.fst

/-- The rows as messages list them.
mirrors `markers_formatted` -/
def listing (t : MarkerTable α) : String :=
  ", ".intercalate (t.rows.map fun (marker, _, label) =>
    Text.Hex.byte marker.toNat ++ " (" ++ label ++ ")")

end MarkerTable

/-- Why a value of table `t` could not be read. -/
inductive MarkerError {α : Type} (t : MarkerTable α) where
  | endOfInput
  | unknown (marker : UInt8)

instance {α : Type} {t : MarkerTable α} : Reportable (MarkerError t) where
  report
    | .endOfInput => .because ("failed reading " ++ t.noun ++ " byte") .endOfInput
    | .unknown marker =>
      .leaf ("invalid " ++ t.noun ++ " byte " ++ Text.Hex.byte marker.toNat ++ ": expected one of "
        ++ t.listing)

/-- A value of table `t`, from its marker.
mirrors `from_marker` -/
def MarkerTable.decode {α : Type} (t : MarkerTable α) : Decoder (MarkerError t) α := do
  let marker ← Decoder.byte.mapError fun _ => .endOfInput
  match t.find? marker with
  | some value => return value
  | none => throw (.unknown marker)

/-! ## Types of values -/

/-- An index into one of the index spaces of a module. -/
abbrev Index := UInt32

/-- References to functions, or to objects of the host. -/
inductive RefType where
  | func
  | externRef
  deriving DecidableEq

inductive ValueType where
  | i32
  | i64
  | f32
  | f64
  | v128
  | ref (type : RefType)
  deriving DecidableEq

inductive Mutability where
  | const
  | var
  deriving DecidableEq

/-- A signature. -/
structure FuncType where
  parameters : List ValueType
  results : List ValueType
  deriving DecidableEq

/-- The size range of a table, in entries, or of a memory, in pages. -/
structure Limits where
  min : UInt64
  max : Option UInt64   -- none: may grow without bound
  shared : Bool
  index64 : Bool        -- addressed by 64-bit numbers
  deriving DecidableEq

structure TableType where
  element : RefType
  limits : Limits
  deriving DecidableEq

structure GlobalType where
  mutability : Mutability
  value : ValueType
  deriving DecidableEq

/-! ## Markers -/

def RefType.markers : MarkerTable RefType where
  noun := "reference type"
  rows := [(0x70, .func, "Func"), (0x6F, .externRef, "Extern")]

def ValueType.markers : MarkerTable ValueType where
  noun := "value type"
  rows := [(0x7F, .i32, "Num(Int32)"), (0x7E, .i64, "Num(Int64)"), (0x7D, .f32, "Num(Float32)"),
    (0x7C, .f64, "Num(Float64)"), (0x7B, .v128, "Vec(V128)"), (0x70, .ref .func, "Ref(Func)"),
    (0x6F, .ref .externRef, "Ref(Extern)")]

def Mutability.markers : MarkerTable Mutability where
  noun := "mutability"
  rows := [(0x00, .const, "Const"), (0x01, .var, "Var")]

def RefType.marker : RefType → UInt8
  | .func => 0x70
  | .externRef => 0x6F

def ValueType.marker : ValueType → UInt8
  | .i32 => 0x7F
  | .i64 => 0x7E
  | .f32 => 0x7D
  | .f64 => 0x7C
  | .v128 => 0x7B
  | .ref type => type.marker

def Mutability.marker : Mutability → UInt8
  | .const => 0x00
  | .var => 0x01

theorem RefType.find?_marker (t : RefType) : RefType.markers.find? t.marker = some t := by
  cases t <;> decide

theorem ValueType.find?_marker (t : ValueType) : ValueType.markers.find? t.marker = some t := by
  rcases t with _ | _ | _ | _ | _ | (_ | _) <;> decide

theorem Mutability.find?_marker (m : Mutability) : Mutability.markers.find? m.marker = some m := by
  cases m <;> decide

/-! ## Text -/

def RefType.text : RefType → String
  | .func => "funcref"
  | .externRef => "externref"

/-- mirrors `fmt` of `ValType` -/
def ValueType.text : ValueType → String
  | .i32 => "i32"
  | .i64 => "i64"
  | .f32 => "f32"
  | .f64 => "f64"
  | .v128 => "v128"
  | .ref type => type.text

/-- Each text behind a space. -/
def spaced (texts : List String) : String := String.join (texts.map (" " ++ ·))

/-- The types behind their keyword, in brackets; nothing if there are none.
mirrors `write_list` -/
def ValueType.group (keyword : String) (types : List ValueType) : String :=
  if types.isEmpty then "" else " (" ++ keyword ++ spaced (types.map ValueType.text) ++ ")"

/-- mirrors `fmt` of `FuncType` -/
def FuncType.text (t : FuncType) : String :=
  "(func" ++ ValueType.group "param" t.parameters ++ ValueType.group "result" t.results ++ ")"

/-- mirrors `fmt` of `Limits` -/
def Limits.text (l : Limits) : String :=
  (if l.index64 then "i64 " else "") ++ toString l.min
    ++ (match l.max with | some max => " " ++ toString max | none => "")
    ++ (if l.shared then " shared" else "")

/-- mirrors `fmt` of `TableType` -/
def TableType.text (t : TableType) : String := t.limits.text ++ " " ++ t.element.text

/-- mirrors `fmt` of `GlobalType` -/
def GlobalType.text (t : GlobalType) : String :=
  match t.mutability with
  | .const => t.value.text
  | .var => "(mut " ++ t.value.text ++ ")"

end WasmBinary
