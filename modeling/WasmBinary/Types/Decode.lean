import WasmBinary.Types.Basic
import WasmBinary.Vector

/-!
# Reading types and indices
-/
namespace WasmBinary

/-! ## Indices -/

/-- The index spaces that are read on their own. -/
inductive IndexSpace where
  | type
  | func
  | table
  | memory
  deriving DecidableEq

def IndexSpace.noun : IndexSpace → String
  | .type => "type"
  | .func => "function"
  | .table => "table"
  | .memory => "memory"

/-- mirrors `DecodeIndexError` -/
structure IndexError where
  space : IndexSpace
  cause : Leb128.UnsignedError

instance : Reportable IndexError where
  report e := .because ("failed decoding " ++ e.space.noun ++ " index") (report e.cause)

def IndexSpace.decode (space : IndexSpace) : Decoder IndexError Index :=
  Leb128.u32.mapError (⟨space, ·⟩)

/-! ## Signatures -/

/-- mirrors `DecodeFuncTypeError` -/
inductive FuncTypeError where
  | endOfInput
  | form (found : UInt8)
  | parameters (cause : VectorError (MarkerError ValueType.markers))
  | results (cause : VectorError (MarkerError ValueType.markers))

/-- The byte in front of a signature. -/
def FuncType.form : UInt8 := 0x60

instance : Reportable FuncTypeError where
  report
    | .endOfInput => .because "failed reading function type form" .endOfInput
    | .form found =>
      .leaf ("unexpected function type form: expected " ++ Text.Hex.byte FuncType.form.toNat
        ++ "; got " ++ Text.Hex.byte found.toNat)
    | .parameters cause => .because "failed decoding parameter types" (report cause)
    | .results cause => .because "failed decoding result types" (report cause)

def FuncType.decode : Decoder FuncTypeError FuncType := do
  let form ← Decoder.byte.mapError fun _ => .endOfInput
  if form = FuncType.form then
    let parameters ← (Decoder.vector ValueType.markers.decode).mapError .parameters
    let results ← (Decoder.vector ValueType.markers.decode).mapError .results
    return ⟨parameters, results⟩
  else throw (.form form)

/-! ## Limits -/

/-- mirrors `DecodeLimitsError` -/
inductive LimitsError where
  | endOfInput
  | flags (found : UInt8)
  | min (cause : Leb128.UnsignedError)
  | max (cause : Leb128.UnsignedError)

instance : Reportable LimitsError where
  report
    | .endOfInput => .leaf "failed reading limits flags"
    | .flags found =>
      .leaf ("unexpected limits flags: expected a value in [0x00, 0x07]; got "
        ++ Text.Hex.byte found.toNat)
    | .min cause => .because "failed decoding minimum" (report cause)
    | .max cause => .because "failed decoding maximum" (report cause)

/-- One bound; of 64 bits if the storage is addressed by such numbers. -/
def Limits.bound (index64 : Bool) : Decoder Leb128.UnsignedError UInt64 :=
  if index64 then Leb128.u64 else UInt32.toUInt64 <$> Leb128.u32

/-- Flag bits: 1 for a maximum, 2 for shared, 4 for 64-bit addresses. -/
def Limits.decode : Decoder LimitsError Limits := do
  let flags ← Decoder.byte.mapError fun _ => .endOfInput
  if flags ≤ 7 then
    let index64 := flags &&& 4 != 0
    let min ← (Limits.bound index64).mapError .min
    let max ←
      if flags &&& 1 != 0 then some <$> (Limits.bound index64).mapError .max else pure none
    return ⟨min, max, flags &&& 2 != 0, index64⟩
  else throw (.flags flags)

/-! ## Tables, memories and globals -/

/-- mirrors `DecodeTableTypeError` -/
inductive TableTypeError where
  | element (cause : MarkerError RefType.markers)
  | limits (cause : LimitsError)

instance : Reportable TableTypeError where
  report
    | .element cause => .because "failed decoding table element type" (report cause)
    | .limits cause => .because "failed decoding table limits" (report cause)

def TableType.decode : Decoder TableTypeError TableType := do
  let element ← RefType.markers.decode.mapError .element
  let limits ← Limits.decode.mapError .limits
  return ⟨element, limits⟩

/-- Why the limits of a memory could not be read.
mirrors `DecodeMemTypeError` -/
structure MemoryError where
  cause : LimitsError

instance : Reportable MemoryError where
  report e := .because "failed decoding memory type" (report e.cause)

/-- The type of a memory is its limits.
mirrors `decode` of `MemType` -/
def Limits.decodeMemory : Decoder MemoryError Limits := Limits.decode.mapError (⟨·⟩)

/-- mirrors `DecodeGlobalTypeError` -/
inductive GlobalTypeError where
  | value (cause : MarkerError ValueType.markers)
  | mutability (cause : MarkerError Mutability.markers)

instance : Reportable GlobalTypeError where
  report
    | .value cause => .because "failed decoding global value type" (report cause)
    | .mutability cause => .because "failed decoding global mutability" (report cause)

def GlobalType.decode : Decoder GlobalTypeError GlobalType := do
  let value ← ValueType.markers.decode.mapError .value
  let mutability ← Mutability.markers.decode.mapError .mutability
  return ⟨mutability, value⟩

end WasmBinary
