import WasmBinary.Module.Basic
import WasmBinary.Instruction.Decode

/-!
# Function bodies

The code of a function is a vector of runs of locals and an expression that takes up the rest of
its bytes. It is read on request: `Module.functionBody` reads the body of one defined function and
`Module.functionCalls` finds the calls in it.

A `FunctionFilter` selects defined functions by a test of their name or by a file offset in their code. An empty
filter selects all of them.
-/
namespace WasmBinary

/-- Locals of one type, one behind the other. -/
structure LocalRun where
  count : UInt32
  type : ValueType
  deriving DecidableEq

structure FunctionBody where
  locals : List LocalRun
  instructions : Expr

/-! ## Errors -/

/-- The most locals a function may have. -/
def FunctionBody.maxLocals : Nat := UInt32.size - 1

/-- mirrors `DecodeCodeLocalsError` -/
inductive LocalsError where
  | count (cause : Leb128.UnsignedError)
  | tooMany (total : Nat)
  | type (cause : MarkerError ValueType.markers)

instance : Reportable LocalsError where
  report
    | .count _ => .leaf "failed decoding count of function locals"
    | .tooMany total =>
      .leaf ("too many locals: expected at most " ++ toString FunctionBody.maxLocals ++ "; got "
        ++ toString total)
    | .type cause => .because "failed decoding local Value type" (report cause)

/-- Code outside of the file is no error here: a `Code` holds its bytes, and they are bytes of the file if the module
was read from it (`Module.standsIn_of_decode`).
mirrors `DecodeCodeError`, all but its `OutOfBounds` -/
inductive BodyError where
  | missing (function : Nat)
  | locals (cause : VectorError LocalsError)
  | instructions (cause : ExprError)
  | sizeMismatch (declared consumed : Nat)

instance : Reportable BodyError where
  report
    | .missing function => .leaf ("no Code entry for function " ++ toString function)
    | .locals cause => .because "failed decoding locals vector" (report cause)
    | .instructions cause => .because "failed decoding function body expression" (report cause)
    | .sizeMismatch declared consumed =>
      .leaf ("Code entry size mismatch: declared " ++ toString declared ++ " bytes; consumed "
        ++ toString consumed)

/-! ## Decoders -/

namespace FunctionBody

/-- A run of locals behind `total` others.
mirrors `parse_code_local` -/
def localRun (total : Nat) : Decoder LocalsError LocalRun := do
  let count ← Leb128.u32.mapError .count
  if maxLocals < total + count.toNat then throw (.tooMany (total + count.toNat))
  return ⟨count, ← ValueType.markers.decode.mapError .type⟩

/-- The runs from position `position` on, of which there are `count`, behind `total` locals. -/
def localRuns : (position count total : Nat) → Decoder (VectorError LocalsError) (List LocalRun)
  | _, 0, _ => return []
  | position, count + 1, total => do
    let run ← (localRun total).mapError (.element position)
    return run :: (← localRuns (position + 1) count (total + run.count.toNat))

def localsVector : Decoder (VectorError LocalsError) (List LocalRun) := do
  let count ← Leb128.u32.mapError .length
  localRuns 0 count.toNat 0

def decode : Decoder BodyError FunctionBody := do
  let locals ← localsVector.mapError .locals
  return ⟨locals, ← Expr.decode.mapError .instructions⟩

end FunctionBody

/-- The body that the code of a function holds.
mirrors `decode_function_body` -/
def Code.body (c : Code) : Except BodyError FunctionBody :=
  match FunctionBody.decode ⟨c.offset, c.bytes⟩ with
  | .error e _ => .error e
  | .ok body rest =>
    if rest.rest.isEmpty then .ok body else .error (.sizeMismatch c.size (rest.position - c.offset))

namespace FunctionBody

/-- The offsets of the calls of a function, by its index in the function index space. -/
def callsOf (body : FunctionBody) (callee : Index) : List Nat :=
  (Instruction.walkAll body.instructions).filterMap fun i =>
    if i.opcode = .call ∧ i.index? = some callee then some i.offset else none

end FunctionBody

namespace Module

/-- The body of a defined function.
mirrors `function_body` -/
def functionBody (m : Module) (i : Nat) : Except BodyError FunctionBody :=
  match m.codes[i]? with
  | some code => code.body
  | none => .error (.missing i)

/-- The offsets in a defined function at which it calls `callee`, an index in the function index
space.
mirrors `function_calls` -/
def functionCalls (m : Module) (i : Nat) (callee : Index) : Except BodyError (List Nat) :=
  (·.callsOf callee) <$> m.functionBody i

end Module

/-! ## Selecting functions -/

structure FunctionFilter where
  name : Option (String → Bool) := none
  offset : Option Nat := none

namespace FunctionFilter

/-- mirrors `is_empty` -/
def isEmpty (f : FunctionFilter) : Bool := f.name.isNone && f.offset.isNone

/-- Whether the code of a function contains the offset of the filter. -/
def matchesOffset (f : FunctionFilter) (m : Module) (i : Nat) : Bool :=
  match f.offset, m.codes[i]? with
  | some offset, some code => code.contains offset
  | _, _ => false

/-- Whether the name of a function matches. A module without function names has no such match, even
though its functions are given names for showing. -/
def matchesName (f : FunctionFilter) (m : Module) (i : Nat) : Bool :=
  match f.name with
  | some accepts => !m.names.functions.isEmpty && accepts (m.functionName i)
  | none => false

/-- Whether a defined function is selected.
mirrors `matches` -/
def selects (f : FunctionFilter) (m : Module) (i : Nat) : Bool :=
  f.isEmpty || f.matchesOffset m i || f.matchesName m i

end FunctionFilter

/-- The defined functions that a filter selects, in order.
mirrors `filter_functions` -/
def Module.selection (m : Module) (f : FunctionFilter) : List Nat :=
  (List.range m.functions.length).filter (f.selects m)

end WasmBinary
