import WasmBinary.Proofs.Replacement

/-!
# Lengths that are told in advance

The size of a section stands in front of it, so its length is computed before anything is written.
Lengths and writers look at the same entities one apart from the other: here they are shown to agree,
also about entities that cannot be written, and about which of them comes first.

* `Encoder.Foretells`: a length says how a writer ends and how many bytes it writes.
* `Encoder.ForetellsSection`: the same of a section, of which nothing is written if it is not all.
* `Encoder.lengths_foretell`: all lengths do.
-/
namespace WasmBinary

open Leb128 (encodeUnsigned)
open Writer (Writes)

/-! ## Lengths that cannot be told -/

theorem constExprLength_eq_error_iff {e : Expr} {cause : EncodeError} :
    constExprLength e = .error cause ↔ e.constant = .error cause := by
  rw [constExprLength_eq]
  cases e.constant with
  | ok c => exact ⟨fun h => (nomatch h), fun h => (nomatch h)⟩
  | error e =>
    constructor <;> intro h <;> cases h <;> rfl

theorem globalLength_eq_error_iff {g : Global} {cause : EncodeError} :
    globalLength g = .error cause ↔ g.init.constant = .error cause := by
  simp only [globalLength, Except.bind_eq_error, constExprLength_eq_error_iff]
  constructor
  · rintro (h | ⟨n, -, h⟩)
    · exact h
    · cases h
  · exact .inl

/-- The length of a segment fails at its offset, or else at its contents. -/
theorem dataSegmentLength_eq_error {mode : DataMode} {init : Bytes} {cause : EncodeError}
    (h : dataSegmentLength ⟨mode, init⟩ = .error cause) :
    (∃ offset, mode.offset? = some offset ∧ offset.constant = .error cause) ∨
      mode.Encodable ∧ checkedLength init.length = .error cause := by
  have hrest {k : Nat} (h : (do
      let length ← checkedLength init.length
      return Leb128.unsignedLength mode.tag.toNat + k + Leb128.unsignedLength length.toNat
        + init.length : Except EncodeError Nat) = .error cause) :
      checkedLength init.length = .error cause := by
    rcases Except.bind_eq_error.mp h with h | ⟨_, -, h⟩
    · exact h
    · cases h
  cases mode with
  | active offset =>
    rcases Except.bind_eq_error.mp h with h | ⟨n, hn, h⟩
    · exact .inl ⟨offset, rfl, constExprLength_eq_error_iff.mp h⟩
    · exact .inr ⟨DataMode.encodable_of_offset rfl (constExprLength_eq_ok_iff.mp hn).1, hrest h⟩
  | passive => exact .inr ⟨fun offset hoffset => (nomatch hoffset), hrest h⟩
  | activeIn memory offset =>
    rcases Except.bind_eq_error.mp h with h | ⟨n, hn, h⟩
    · refine .inl ⟨offset, rfl, constExprLength_eq_error_iff.mp ?_⟩
      cases hlength : constExprLength offset with
      | ok n =>
        rw [hlength] at h
        cases h
      | error e =>
        rw [hlength] at h
        cases h
        rfl
    · obtain ⟨n, hlength, -⟩ := Except.map_eq_ok.mp hn
      exact .inr ⟨DataMode.encodable_of_offset rfl (constExprLength_eq_ok_iff.mp hlength).1, hrest h⟩

namespace Encoder

/-! ## Writers that fail -/

theorem writes_constExpr_error {e : Expr} {cause : EncodeError} (h : e.constant = .error cause) :
    Writes .sinkFull (constExpr e) [] (.error cause) := by
  simp only [constExpr, h]
  exact (Writes.ofExcept (.error cause)).bindError _

/-- The type of a global is written before its initializer fails. -/
theorem writes_global_error {g : Global} {cause : EncodeError}
    (h : g.init.constant = .error cause) :
    Writes .sinkFull (global g) [g.type.value.marker, g.type.mutability.marker] (.error cause) :=
  (writes_byte _).bind ((writes_byte _).bind (writes_constExpr_error h))

/-- A segment is written up to the part that fails. -/
theorem exists_writes_dataSegment_error {d : DataSegment} {cause : EncodeError}
    (h : dataSegmentLength d = .error cause) :
    ∃ bs, Writes .sinkFull (dataSegment d) bs (.error cause) := by
  obtain ⟨mode, init⟩ := d
  have hrest (h : checkedLength init.length = .error cause) : Writes .sinkFull (do
      u32 (← Writer.ofExcept (checkedLength init.length))
      bytes init : Encoder Unit) [] (.error cause) := by
    rw [h]
    exact (Writes.ofExcept (.error cause)).bindError _
  cases mode with
  | active offset =>
    rcases dataSegmentLength_eq_error h with ⟨_, hoffset, h⟩ | ⟨hmode, h⟩
    · cases hoffset
      exact ⟨_, (writes_u32 0).bind ((writes_constExpr_error h).bindError _)⟩
    · exact ⟨_, (writes_u32 0).bind ((writes_constExpr (hmode offset rfl)).bind (hrest h))⟩
  | passive =>
    rcases dataSegmentLength_eq_error h with ⟨_, hoffset, -⟩ | ⟨-, h⟩
    · cases hoffset
    · exact ⟨_, (writes_u32 1).bind (hrest h)⟩
  | activeIn memory offset =>
    rcases dataSegmentLength_eq_error h with ⟨_, hoffset, h⟩ | ⟨hmode, h⟩
    · cases hoffset
      exact ⟨_, (writes_u32 2).bind ((writes_u32 memory).bind
        ((writes_constExpr_error h).bindError _))⟩
    · exact ⟨_, (writes_u32 2).bind ((writes_u32 memory).bind
        ((writes_constExpr (hmode offset rfl)).bind (hrest h)))⟩

/-! ## Entities -/

/-- On a sink that takes any number of bytes the writer fails exactly if the length cannot be told, for
the same reason. If it succeeds, it writes so many bytes. -/
structure Foretells (length : Except EncodeError Nat) (w : Encoder Unit) : Prop where
  error_iff (cause : EncodeError) : (w.run none).1 = .error cause ↔ length = .error cause
  ok_iff : (w.run none).1 = .ok () ↔ ∃ n, length = .ok n
  written (n : Nat) (h : length = .ok n) : (w.run none).2.length = n

theorem foretells_of_writes {length : Except EncodeError Nat} {w : Encoder Unit}
    (hok : ∀ n, length = .ok n → ∃ bs, Writes .sinkFull w bs (.ok ()) ∧ bs.length = n)
    (herror : ∀ cause, length = .error cause → ∃ bs, Writes .sinkFull w bs (.error cause)) :
    Foretells length w := by
  cases length with
  | ok n =>
    obtain ⟨bs, hwrites, hlength⟩ := hok n rfl
    refine ⟨fun cause => ?_, ?_, fun n' h => ?_⟩ <;> rw [hwrites.run_none]
    · simp
    · simp
    · cases h
      exact hlength
  | error e =>
    obtain ⟨bs, hwrites⟩ := herror e rfl
    refine ⟨fun cause => ?_, ?_, fun n' h => ?_⟩
    · rw [hwrites.run_none]
      simp
    · rw [hwrites.run_none]
      simp
    · cases h

theorem constExpr_foretold (e : Expr) : Foretells (constExprLength e) (constExpr e) := by
  refine foretells_of_writes (fun n h => ?_) fun cause h => ?_
  · obtain ⟨hencodable, rfl⟩ := constExprLength_eq_ok_iff.mp h
    exact ⟨_, writes_constExpr hencodable, rfl⟩
  · exact ⟨_, writes_constExpr_error (constExprLength_eq_error_iff.mp h)⟩

theorem global_foretold (g : Global) : Foretells (globalLength g) (global g) := by
  refine foretells_of_writes (fun n h => ?_) fun cause h => ?_
  · obtain ⟨hencodable, rfl⟩ := globalLength_eq_ok_iff.mp h
    exact ⟨_, writes_global hencodable, rfl⟩
  · exact ⟨_, writes_global_error (globalLength_eq_error_iff.mp h)⟩

theorem dataSegment_foretold (d : DataSegment) : Foretells (dataSegmentLength d) (dataSegment d) := by
  refine foretells_of_writes (fun n h => ?_) fun cause h => exists_writes_dataSegment_error h
  obtain ⟨⟨hencodable, hinit⟩, rfl⟩ := dataSegmentLength_eq_ok_iff.mp h
  exact ⟨_, writes_dataSegment hencodable hinit, rfl⟩

/-! ## Sections -/

/-- On a sink that takes any number of bytes the writer fails exactly if the length cannot be told, for
the same reason, and then writes nothing. Otherwise it writes an id, the length, and so many bytes of
payload. -/
structure ForetellsSection (kind : SectionKind) (length : Except EncodeError UInt32)
    (w : Encoder Unit) : Prop where
  error_iff (cause : EncodeError) : (w.run none).1 = .error cause ↔ length = .error cause
  nothing (cause : EncodeError) (h : length = .error cause) : w.run none = (.error cause, [])
  written (size : UInt32) (h : length = .ok size) : ∃ payload : Bytes,
    w.run none = (.ok (), kind.id :: (encodeUnsigned size.toNat ++ payload)) ∧
      payload.length = size.toNat

theorem foretellsSection_of_writes {kind : SectionKind} {length : Except EncodeError UInt32}
    {w : Encoder Unit} {payload : Bytes}
    (h : (∀ size, length = .ok size → Writes .sinkFull w (sectionLayout kind payload) (.ok ())) ∧
      ∀ cause, length = .error cause → Writes .sinkFull w [] (.error cause))
    (hsize : ∀ size, length = .ok size → payload.length = size.toNat) :
    ForetellsSection kind length w := by
  cases length with
  | ok size =>
    have hrun := (h.1 size rfl).run_none
    refine ⟨fun cause => ?_, fun cause he => ?_, fun size' hsize' => ?_⟩
    · rw [hrun]
      simp
    · cases he
    · cases hsize'
      refine ⟨payload, ?_, hsize size rfl⟩
      rw [hrun, sectionLayout, hsize size rfl]
  | error e =>
    have hrun := (h.2 e rfl).run_none
    refine ⟨fun cause => ?_, fun cause he => ?_, fun size hsize => ?_⟩
    · rw [hrun]
      simp
    · cases he
      exact hrun
    · cases hsize

/-- Every length that is told in advance agrees with its writer, whatever the instructions of the
entities are. -/
theorem lengths_foretell :
    (∀ e : Expr, Foretells (constExprLength e) (constExpr e)) ∧
      (∀ g : Global, Foretells (globalLength g) (global g)) ∧
      (∀ d : DataSegment, Foretells (dataSegmentLength d) (dataSegment d)) ∧
      (∀ globals : List Global,
        ForetellsSection .global (globalSectionLength globals) (globalSection globals)) ∧
      ∀ datas : List DataSegment,
        ForetellsSection .data (dataSectionLength datas) (dataSection datas) := by
  refine ⟨constExpr_foretold, global_foretold, dataSegment_foretold, fun globals => ?_,
    fun datas => ?_⟩
  · refine foretellsSection_of_writes (writes_globalSection globals) fun size hsize => ?_
    exact ((vectorLength_eq_ok_iff (fun _ _ => globalLength_eq_ok_iff) globals size).mp hsize).2.2
  · refine foretellsSection_of_writes (writes_dataSection datas) fun size hsize => ?_
    exact ((vectorLength_eq_ok_iff (fun _ _ => dataSegmentLength_eq_ok_iff) datas size).mp hsize).2.2

/-- One global is written, two bytes of header in front of the six that were foretold. With a second one that has no
initializer nothing is. -/
theorem lengths_foretell_oneGlobal :
    let g : Global := ⟨⟨.const, .i32⟩, [.i32Const 1]⟩
    globalSectionLength [g] = .ok 6 ∧
      (globalSection [g]).run none = (.ok (), [6, 6, 1, 0x7F, 0x00, 0x41, 1, 0x0B]) ∧
      (∃ payload : Bytes, (globalSection [g]).run none = (.ok (), 6 :: (encodeUnsigned 6 ++ payload)) ∧
        payload.length = 6) ∧
      (globalSection [g, ⟨⟨.const, .i32⟩, []⟩]).run none = (.error (.unsupportedExpression 0), []) := by
  intro g
  have hlength : globalSectionLength [g] = .ok 6 := by with_unfolding_all rfl
  have hrun : (globalSection [g]).run none = (.ok (), [6, 6, 1, 0x7F, 0x00, 0x41, 1, 0x0B]) := by
    with_unfolding_all rfl
  have hlength' : globalSectionLength [g, ⟨⟨.const, .i32⟩, []⟩] = .error (.unsupportedExpression 0) := by
    with_unfolding_all rfl
  obtain ⟨-, -, -, hglobals, -⟩ := lengths_foretell
  exact ⟨hlength, hrun, (hglobals _).written 6 hlength, (hglobals _).nothing _ hlength'⟩

end Encoder

end WasmBinary
