import WasmBinary.Encoder
import WasmBinary.Split

/-!
# Replacing the data of a module

`DataReplacement.segments` lays out a byte string as data segments, and `DataReplacement.write`
writes a module with those segments in place of its own. A DataCount section follows suit; all other
sections are copied.
-/
namespace WasmBinary

/-- How a byte string becomes data segments. -/
structure DataReplacement where
  autoSplit : Bool := false
  baseOffset : Int32 := 0    -- where in memory the first byte goes
  passive : Bool := false
  zeroRun : Nat := 9         -- the shortest run of zeros to leave out
  deriving DecidableEq

/-- mirrors `RewriteError` -/
inductive DataReplacementError where
  | missingSection
  | offsetOverflow (index : Nat)
  | encode (cause : EncodeError)
  deriving DecidableEq

instance : Reportable DataReplacementError where
  report
    | .missingSection => .leaf "module has no Data section"
    | .offsetOverflow index =>
      .leaf ("segment at blob offset " ++ toString index ++ " overflows the i32 memory offset")
    | .encode cause => report cause

namespace DataReplacement

def chunks (o : DataReplacement) (blob : Bytes) : List Chunk :=
  if o.autoSplit then (split blob o.zeroRun).chunks else [⟨0, blob.length⟩]

/-- Where in memory the byte at an index goes, if that is an offset and so is the index. -/
def address? (o : DataReplacement) (index : Nat) : Option Int32 :=
  let address := o.baseOffset.toInt + index
  let largest := Int32.maxValue.toInt
  if index ≤ largest ∧ address ≤ largest then some (Int32.ofInt address) else none

/-- The segment that stores a chunk. -/
def segment (o : DataReplacement) (blob : Bytes) (c : Chunk) :
    Except DataReplacementError DataSegment :=
  if o.passive then .ok ⟨.passive, c.of blob⟩
  else
    match o.address? c.index with
    | some address => .ok ⟨.active [.i32Const address], c.of blob⟩
    | none => .error (.offsetOverflow c.index)

/-- The segments that store `blob`.
mirrors `data_segments` -/
def segments (o : DataReplacement) (blob : Bytes) : Except DataReplacementError (List DataSegment) :=
  (o.chunks blob).mapM (o.segment blob)

/-- Writes a module whose data is `blob`.
mirrors `rewrite_data_section` -/
def write (o : DataReplacement) (m : Module) (blob : Bytes) : Writer DataReplacementError Unit := do
  if !m.hasSection .data then throw .missingSection
  let datas ← Writer.ofExcept (o.segments blob)
  let count ← (Writer.ofExcept (checkedLength datas.length)).mapError .encode
  (Encoder.module m { datas := some datas, dataCount := some count }).mapError .encode

end DataReplacement

end WasmBinary
