import WasmBinary.DataReplacement
import WasmBinary.Proofs.Replacement

/-!
# Modules with their data replaced

`DataReplacement.write` gives a module whose data is the new segments. A DataCount section counts
them. All other sections are the same bytes, and what they hold is the same.
-/
namespace WasmBinary

namespace DataReplacement

/-- What is written if writing succeeds. -/
theorem write_eq_ok_iff (o : DataReplacement) (m : Module) (blob : Bytes) (s s' : Sink) :
    o.write m blob s = .ok () s' ↔ m.hasSection .data = true ∧ ∃ segments count,
      o.segments blob = .ok segments ∧ checkedLength segments.length = .ok count ∧
        Encoder.module m { datas := some segments, dataCount := some count } s = .ok () s' := by
  cases hdata : m.hasSection .data with
  | false =>
    simp only [write, hdata, Bool.not_false, if_true]
    exact ⟨(nomatch ·), fun h => (nomatch h.1)⟩
  | true =>
    simp only [write, hdata, Bool.not_true, Bool.false_eq_true, if_false, Writer.bind_eq_ok,
      Writer.mapError_eq_ok, Writer.ofExcept_eq_ok]
    constructor
    · intro h
      obtain ⟨segments, _, ⟨hsegments, rfl⟩, count, _, ⟨hcount, rfl⟩, hmodule⟩ := h
      exact ⟨trivial, segments, count, hsegments, hcount, hmodule⟩
    · intro h
      obtain ⟨-, segments, count, hsegments, hcount, hmodule⟩ := h
      exact ⟨segments, s, ⟨hsegments, rfl⟩, count, s, ⟨hcount, rfl⟩, hmodule⟩

/-- The output is a module with the new segments, whose number a DataCount section states. All other
sections are the same bytes, and all else that the module holds is the same. -/
theorem decode_write {readCode : Bool} {file : Bytes} {m : Module} {o : DataReplacement}
    {blob : Bytes} {capacity : Option Nat} {sink : Sink}
    (hm : Module.decode readCode file = .ok m)
    (hw : o.write m blob (.empty capacity) = .ok () sink) :
    ∃ segments m', o.segments blob = .ok segments ∧
      Module.decode readCode sink.bytes = .ok m' ∧
      m.SameSections (fun kind => kind ≠ .data ∧ kind ≠ .dataCount) m' ∧
      m'.version = m.version ∧
      m'.datas.map DataSegment.withoutOffsets = segments.map DataSegment.withoutOffsets ∧
      m'.dataCount.map UInt32.toNat =
        (if m.hasSection .dataCount then some segments.length else none) ∧
      m'.withoutPlaces = { m.withoutPlaces with
        datas := segments.map DataSegment.withoutOffsets, dataCount := m'.dataCount } := by
  obtain ⟨hdata, segments, count, hsegments, hcount, hmodule⟩ := (write_eq_ok_iff ..).mp hw
  obtain ⟨m', hm', hsections, hsame⟩ := Encoder.decode_module hm hmodule
  have happly : (Encoder.Replacements.applyTo { datas := some segments, dataCount := some count } m) =
      { m with
        datas := segments, dataCount := if m.hasSection .dataCount then some count else none } := by
    simp only [Encoder.Replacements.applyTo, hdata, if_true]
    cases hdataCount : m.hasSection .dataCount with
    | false =>
      have hnone := (Module.sectioned_of_decode hm).dataCount hdataCount
      simp [hnone]
    | true => rfl
  rw [happly] at hsame
  have hversion : m'.withoutPlaces.version = _ := congrArg Module.version hsame
  have hdatas : m'.withoutPlaces.datas = _ := congrArg Module.datas hsame
  have hcount' : m'.withoutPlaces.dataCount = _ := congrArg Module.dataCount hsame
  change m'.dataCount = _ at hcount'
  refine ⟨segments, m', hsegments, hm', hsections.mono ?_, hversion, hdatas, ?_, ?_⟩
  · intro kind hkept
    cases kind with
    | data => exact absurd rfl hkept.1
    | dataCount => exact absurd rfl hkept.2
    | _ => rfl
  · rw [hcount', checkedLength_eq_ok_iff.mp hcount]
    change Option.map UInt32.toNat (if _ then _ else _) = _
    split <;> rfl
  · rw [hcount', hsame]
    rfl

/-- A module with a DataCount section, its size longer than it needs to be, an unknown section and a
Data section. -/
def unevenModule : Module where
  source := [0x00, 0x61, 0x73, 0x6D, 1, 0, 0, 0, 12, 0x81, 0, 1, 99, 1, 7,
    11, 6, 1, 0, 0x41, 5, 0x0B, 0]
  version := 1
  sections := [⟨.dataCount, 1, 8, 11⟩, ⟨.unknown 99, 1, 12, 14⟩, ⟨.data, 6, 15, 17⟩]
  dataCount := some 1
  datas := [⟨.active [.plain .i32Const 19 (.i32 5)], []⟩]

def splitAtZeros : DataReplacement where
  autoSplit := true
  baseOffset := 100
  zeroRun := 2

/-- What is written for `unevenModule`, latest first. -/
def splitOutput : Sink where
  chunks := [[2], [1], [11], [0], [232], [65], [0], [1], [1], [11], [0], [228], [65], [0], [2], [15],
    [11], [99, 1, 7], [2], [1], [12], [1, 0, 0, 0], [0, 97, 115, 109]]
  room := none

/-- The unknown section moves and is the same bytes. -/
theorem decode_write_unevenModule :
    Module.decode true unevenModule.source = .ok unevenModule ∧
      splitAtZeros.write unevenModule [1, 0, 0, 0, 2] (.empty none) = .ok () splitOutput ∧
      ∃ m', Module.decode true splitOutput.bytes = .ok m' ∧
        unevenModule.SameSections (fun kind => kind ≠ .data ∧ kind ≠ .dataCount) m' ∧
        m'.datas.map DataSegment.withoutOffsets =
          [⟨.active [.i32Const 100], [1]⟩, ⟨.active [.i32Const 104], [2]⟩] ∧
        m'.dataCount.map UInt32.toNat = some 2 := by
  have hm : Module.decode true unevenModule.source = .ok unevenModule := rfl
  have hw : splitAtZeros.write unevenModule [1, 0, 0, 0, 2] (.empty none) = .ok () splitOutput := by
    with_unfolding_all rfl
  have hstored : splitAtZeros.segments [1, 0, 0, 0, 2] =
      .ok [⟨.active [.i32Const 100], [1]⟩, ⟨.active [.i32Const 104], [2]⟩] := rfl
  obtain ⟨segments, m', hsegments, hm', hsections, -, hdatas, hcount, -⟩ := decode_write hm hw
  rw [hstored] at hsegments
  cases hsegments
  exact ⟨hm, hw, m', hm', hsections, hdatas, hcount⟩

end DataReplacement

end WasmBinary
