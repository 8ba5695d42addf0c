import Mathlib.Order.Bounds.Basic
import WasmBinary.DataReplacement
import WasmBinary.Proofs.Outcomes
import WasmBinary.Proofs.ZeroRuns

/-!
# The memory that a module starts with

A memory starts out zero, and the active segments of a module are copied into it one after another.
With the segments that `DataReplacement.segments` gives for a byte string, this results in the byte
string at the base offset and zeros around it, however the byte string is split: what is left out is
zero anyway.

* `LinearMemory.initial?`: the memory at the start, from the segments alone.
* `DataReplacement.laid_chunks`, `DataReplacement.zero_of_outside`: the chunks with and without
  splitting.
* `DataReplacement.copyChunks_add`: what is in memory when some chunks are copied, from one chunk to
  the next; `DataReplacement.copyChunks_chunks`: when all are.
* `DataReplacement.initial_segments`: the whole, and when there is no room.
-/
namespace WasmBinary

/-! ## Memory -/

/-- The bytes of a memory by address. -/
abbrev LinearMemory := Nat → UInt8

/-- Where the first byte of a segment is copied to. An active segment states this in its offset,
which is a number without sign. Other instructions than `i32.const`, and other memories than the
first one, are not considered. -/
def DataSegment.address? (d : DataSegment) : Option Nat :=
  match d.mode with
  | .active offset =>
    match Expr.constant offset with
    | .ok (.i32 value) => some value.toUInt32.toNat
    | _ => none
  | _ => none

/-- Whether a segment is copied to an address, among others. -/
def DataSegment.Writes (d : DataSegment) (i : Nat) : Prop :=
  ∃ address, d.address? = some address ∧ address ≤ i ∧ i < address + d.init.length

namespace LinearMemory

def zero : LinearMemory := fun _ => 0

/-- The memory with bytes copied to an address. -/
def copy (memory : LinearMemory) (address : Nat) (bytes : Bytes) : LinearMemory := fun i =>
  if address ≤ i then bytes[i - address]?.getD (memory i) else memory i

/-- The memory that the segments are copied into, which is zero before. -/
def initial? (datas : List DataSegment) : Option LinearMemory :=
  datas.foldlM (fun memory d => d.address?.map (memory.copy · d.init)) zero

theorem copy_of_lt {memory : LinearMemory} {address i : Nat} {bytes : Bytes} (h : i < address) :
    memory.copy address bytes i = memory i := if_neg (Nat.not_le_of_lt h)

/-- What is at an address when a chunk of `blob` is copied to its place behind `base`. -/
theorem copy_chunk {blob : Bytes} {c : Chunk} (hc : c.index + c.size ≤ blob.length)
    (memory : LinearMemory) (base i : Nat) :
    memory.copy (base + c.index) (c.of blob) (base + i) =
      if c.Contains i then blob[i]?.getD 0 else memory (base + i) := by
  unfold copy
  by_cases hindex : c.index ≤ i
  · rw [if_pos (by omega), Nat.add_sub_add_left, Chunk.of, List.getElem?_take]
    by_cases hlt : i < c.index + c.size
    · have hi : i < blob.length := by omega
      rw [if_pos (by omega), List.getElem?_drop, Nat.add_sub_cancel' hindex, if_pos ⟨hindex, hlt⟩,
        List.getElem?_eq_getElem hi]
      rfl
    · rw [if_neg (by omega), if_neg fun h => hlt h.2]
      rfl
  · rw [if_neg (by omega), if_neg fun h => hindex h.1]

end LinearMemory

namespace DataReplacement

variable {o : DataReplacement} {blob : Bytes}

/-! ## Chunks with and without splitting -/

theorem laid_chunks (o : DataReplacement) (blob : Bytes) :
    Chunk.Laid 0 0 blob.length (o.chunks blob) := by
  unfold chunks
  split
  · have h := laid_split blob o.zeroRun
    exact ⟨h.le_index, h.end_le, h.apart.imp fun h => Nat.le_trans (Nat.le_add_right ..) h⟩
  · exact .cons (Nat.le_refl 0) (Nat.le_of_eq (Nat.zero_add _)) (.nil ..)

theorem zero_of_outside (o : DataReplacement) {i : Nat}
    (h : ∀ c ∈ o.chunks blob, ¬c.Contains i) : blob[i]?.getD 0 = 0 := by
  rcases Nat.lt_or_ge i blob.length with hi | hi
  · unfold chunks at h
    split at h
    · obtain ⟨start, stop, hrun, hstart, hstop, -⟩ := (outside_split_iff blob o.zeroRun hi).mp h
      rw [hrun.zeros i hstart hstop]
      rfl
    · exact absurd ⟨Nat.zero_le i, by simpa using hi⟩ (h ⟨0, blob.length⟩ (.head []))
  · rw [List.getElem?_eq_none hi]
    rfl

/-! ## The segment of a chunk -/

/-- The segment that copies a chunk to its place behind the base offset. -/
def activeSegment (o : DataReplacement) (blob : Bytes) (c : Chunk) : DataSegment :=
  ⟨.active [.i32Const (Int32.ofInt (o.baseOffset.toInt + c.index))], c.of blob⟩

theorem segment_of_le (hpassive : o.passive = false) (hbase : 0 ≤ o.baseOffset.toInt) {c : Chunk}
    (h : o.baseOffset.toInt + c.index ≤ 2 ^ 31 - 1) :
    o.segment blob c = .ok (o.activeSegment blob c) := by
  have hlargest : Int32.maxValue.toInt = 2 ^ 31 - 1 := by decide
  have haddress : o.address? c.index = some (Int32.ofInt (o.baseOffset.toInt + c.index)) :=
    if_pos (by omega)
  simp only [segment, hpassive, haddress, Bool.false_eq_true, if_false]
  rfl

theorem segment_of_gt (hpassive : o.passive = false) {c : Chunk}
    (h : ¬o.baseOffset.toInt + c.index ≤ 2 ^ 31 - 1) :
    o.segment blob c = .error (.offsetOverflow c.index) := by
  have hlargest : Int32.maxValue.toInt = 2 ^ 31 - 1 := by decide
  have haddress : o.address? c.index = none := if_neg (by omega)
  simp only [segment, hpassive, haddress, Bool.false_eq_true, if_false]

/-- Read without its sign, an offset that is not negative is the same number. -/
theorem toNat_toUInt32 {value : Int32} (h : 0 ≤ value.toInt) :
    value.toUInt32.toNat = value.toInt.toNat := by
  have hvalue : value.toInt = value.toBitVec.toInt := rfl
  have hunsigned : value.toUInt32.toNat = value.toBitVec.toNat := rfl
  rw [BitVec.toInt_eq_toNat_cond] at hvalue
  have := value.toBitVec.isLt
  split at hvalue <;> omega

theorem address?_activeSegment (hbase : 0 ≤ o.baseOffset.toInt) {c : Chunk}
    (h : o.baseOffset.toInt + c.index ≤ 2 ^ 31 - 1) :
    (o.activeSegment blob c).address? = some (o.baseOffset.toInt.toNat + c.index) := by
  have hvalue : (Int32.ofInt (o.baseOffset.toInt + c.index)).toInt = o.baseOffset.toInt + c.index :=
    Int32.toInt_ofInt_of_le (by omega) (by omega)
  have hpos : 0 ≤ (Int32.ofInt (o.baseOffset.toInt + c.index)).toInt := by omega
  change some (Int32.ofInt (o.baseOffset.toInt + c.index)).toUInt32.toNat = _
  rw [toNat_toUInt32 hpos, hvalue, Int.toNat_add hbase (Int.natCast_nonneg _), Int.toNat_natCast]

theorem writes_activeSegment_iff (hbase : 0 ≤ o.baseOffset.toInt) {c : Chunk}
    (h : o.baseOffset.toInt + c.index ≤ 2 ^ 31 - 1) (hc : c.index + c.size ≤ blob.length)
    (i : Nat) :
    (o.activeSegment blob c).Writes i ↔ o.baseOffset.toInt.toNat + c.index ≤ i ∧
      i < o.baseOffset.toInt.toNat + c.index + c.size := by
  have hlength : (o.activeSegment blob c).init.length = c.size := by
    change ((blob.drop c.index).take c.size).length = c.size
    rw [List.length_take, List.length_drop]
    omega
  simp [DataSegment.Writes, address?_activeSegment hbase h, hlength]

/-! ## All segments -/

theorem segments_of_le (hpassive : o.passive = false) (hbase : 0 ≤ o.baseOffset.toInt)
    (h : ∀ c ∈ o.chunks blob, o.baseOffset.toInt + c.index ≤ 2 ^ 31 - 1) :
    o.segments blob = .ok ((o.chunks blob).map (o.activeSegment blob)) :=
  Except.mapM_of_ok fun c hc => segment_of_le hpassive hbase (h c hc)

theorem le_of_segments (hpassive : o.passive = false) {datas : List DataSegment}
    (h : o.segments blob = .ok datas) :
    ∀ c ∈ o.chunks blob, o.baseOffset.toInt + c.index ≤ 2 ^ 31 - 1 := by
  refine Except.forall_of_mapM h fun c d hc => ?_
  by_contra hgt
  rw [segment_of_gt hpassive hgt] at hc
  cases hc

/-- Whether there is a chunk from this index on whose place is no offset. -/
def Overflows (o : DataReplacement) (blob : Bytes) (index : Nat) : Prop :=
  ∃ c ∈ o.chunks blob, c.index = index ∧ 2 ^ 31 - 1 < o.baseOffset.toInt + index

/-- Chunks ascend, so the first one without room is the lowest. -/
theorem least_of_segments_error (hpassive : o.passive = false) (hbase : 0 ≤ o.baseOffset.toInt)
    {e : DataReplacementError} (h : o.segments blob = .error e) :
    ∃ index, IsLeast {i | o.Overflows blob i} index ∧ e = .offsetOverflow index := by
  obtain ⟨front, c, back, hchunks, hfront, hc⟩ := Except.exists_error_of_mapM h
  have hapart := (laid_chunks o blob).apart
  rw [hchunks] at hapart
  have hbehind := (List.pairwise_cons.mp (List.pairwise_append.mp hapart).2.1).1
  have hgt : ¬o.baseOffset.toInt + c.index ≤ 2 ^ 31 - 1 := by
    intro hle
    rw [segment_of_le hpassive hbase hle] at hc
    cases hc
  rw [segment_of_gt hpassive hgt] at hc
  refine ⟨c.index, ⟨⟨c, by rw [hchunks]; simp, rfl, by omega⟩, ?_⟩, by cases hc; rfl⟩
  rintro j ⟨d, hd, rfl, hover⟩
  rw [hchunks, List.mem_append, List.mem_cons] at hd
  rcases hd with hd | rfl | hd
  · obtain ⟨segment, hsegment⟩ := hfront d hd
    rw [segment_of_gt hpassive (by omega)] at hsegment
    cases hsegment
  · exact Nat.le_refl _
  · have := hbehind d hd
    omega

/-! ## Copying -/

/-- The memory with chunks of `blob` copied to their places behind `base`. -/
def copyChunks (base : Nat) (blob : Bytes) : List Chunk → LinearMemory → LinearMemory
  | [], memory => memory
  | c :: rest, memory => copyChunks base blob rest (memory.copy (base + c.index) (c.of blob))

/-- Copying a chunk leaves the memory in front of `base` as it is. -/
theorem copyChunks_of_lt {base i : Nat} (h : i < base) (chunks : List Chunk)
    (memory : LinearMemory) : copyChunks base blob chunks memory i = memory i := by
  induction chunks generalizing memory with
  | nil => rfl
  | cons c rest ih =>
    rw [copyChunks, ih, LinearMemory.copy_of_lt (Nat.lt_add_right _ h)]

/-- In the chunks there is what belongs there, and elsewhere what was there. -/
theorem copyChunks_add {chunks : List Chunk} (h : ∀ c ∈ chunks, c.index + c.size ≤ blob.length)
    (base i : Nat) (memory : LinearMemory) :
    copyChunks base blob chunks memory (base + i) =
      if ∃ c ∈ chunks, c.Contains i then blob[i]?.getD 0 else memory (base + i) := by
  induction chunks generalizing memory with
  | nil => simp [copyChunks]
  | cons c rest ih =>
    obtain ⟨hc, hrest⟩ := List.forall_mem_cons.mp h
    rw [copyChunks, ih hrest, LinearMemory.copy_chunk hc]
    by_cases hcontains : c.Contains i <;> simp [hcontains]

/-- All chunks together put the whole of `blob` into a memory that is zero. -/
theorem copyChunks_chunks (o : DataReplacement) (blob : Bytes) (base i : Nat) :
    copyChunks base blob (o.chunks blob) .zero (base + i) = blob[i]?.getD 0 := by
  rw [copyChunks_add (laid_chunks o blob).end_le]
  split
  · rfl
  · next hout =>
    simp only [not_exists, not_and] at hout
    exact (zero_of_outside o hout).symm

theorem initial?_activeSegments (hbase : 0 ≤ o.baseOffset.toInt) {chunks : List Chunk}
    (h : ∀ c ∈ chunks, o.baseOffset.toInt + c.index ≤ 2 ^ 31 - 1) :
    LinearMemory.initial? (chunks.map (o.activeSegment blob)) =
      some (copyChunks o.baseOffset.toInt.toNat blob chunks .zero) := by
  unfold LinearMemory.initial?
  generalize LinearMemory.zero = memory
  induction chunks generalizing memory with
  | nil => rfl
  | cons c rest ih =>
    obtain ⟨hc, hrest⟩ := List.forall_mem_cons.mp h
    rw [List.map_cons, List.foldlM_cons, address?_activeSegment hbase hc]
    exact ih hrest _

/-- There are segments exactly if the place of each chunk is an offset. If not, the error names the
lowest index of a chunk whose place is none. Copied to memory, the segments put the bytes at the base
offset, with zeros around them, and write no address twice and none of more than 32 bits. -/
theorem initial_segments (o : DataReplacement) (blob : Bytes) (hpassive : o.passive = false)
    (hbase : 0 ≤ o.baseOffset.toInt) (hblob : blob.length < 2 ^ 31) :
    let base := o.baseOffset.toInt.toNat
    ((∃ datas, o.segments blob = .ok datas) ↔
      ∀ c ∈ o.chunks blob, o.baseOffset.toInt + c.index ≤ 2 ^ 31 - 1) ∧
    (∀ e, o.segments blob = .error e →
      ∃ index, IsLeast {i | o.Overflows blob i} index ∧ e = .offsetOverflow index) ∧
    ∀ datas, o.segments blob = .ok datas →
      (∃ memory, LinearMemory.initial? datas = some memory ∧
        (∀ i (hi : i < blob.length), memory (base + i) = blob[i]) ∧
        ∀ i, i < base ∨ base + blob.length ≤ i → memory i = 0) ∧
      datas.Pairwise (fun d e => ∀ i, ¬(d.Writes i ∧ e.Writes i)) ∧
      ∀ d ∈ datas, ∀ i, d.Writes i → i < 2 ^ 32 := by
  intro base
  refine ⟨⟨fun ⟨_, h⟩ => le_of_segments hpassive h, fun h => ⟨_, segments_of_le hpassive hbase h⟩⟩,
    fun e h => least_of_segments_error hpassive hbase h, fun datas hdatas => ?_⟩
  have hle := le_of_segments hpassive hdatas
  rw [segments_of_le hpassive hbase hle] at hdatas
  cases hdatas
  have hlaid := laid_chunks o blob
  have hwrites : ∀ c ∈ o.chunks blob, ∀ i, (o.activeSegment blob c).Writes i ↔
      base + c.index ≤ i ∧ i < base + c.index + c.size := fun c hc =>
    writes_activeSegment_iff hbase (hle c hc) (hlaid.end_le c hc)
  refine ⟨⟨_, initial?_activeSegments hbase hle, ?inside, ?around⟩, ?apart, ?addresses⟩
  case inside =>
    intro i hi
    rw [copyChunks_chunks, List.getElem?_eq_getElem hi, Option.getD_some]
  case around =>
    rintro i (hi | hi)
    · exact copyChunks_of_lt hi _ _
    · obtain ⟨j, rfl⟩ := Nat.exists_eq_add_of_le hi
      rw [Nat.add_assoc, copyChunks_chunks, List.getElem?_eq_none (Nat.le_add_right ..)]
      rfl
  case apart =>
    refine List.pairwise_map.mpr (hlaid.apart.imp_of_mem fun {c d} hc hd hapart i => ?_)
    rw [hwrites c hc, hwrites d hd]
    omega
  case addresses =>
    intro d hd i hi
    obtain ⟨c, hc, rfl⟩ := List.mem_map.mp hd
    have hend := hlaid.end_le c hc
    have hbaseOffset := o.baseOffset.toInt_lt
    have := (hwrites c hc i).mp hi
    omega

/-- Three zeros are left out of five bytes. Near the end of the offsets there is room for the first
byte, but not for the last one. -/
theorem initial_segments_gap :
    (∃ memory, LinearMemory.initial?
        [⟨.active [.i32Const 100], [1]⟩, ⟨.active [.i32Const 104], [2]⟩] = some memory ∧
      (∀ i (hi : i < 5), memory (100 + i) = [1, 0, 0, 0, 2][i]) ∧
      ∀ i, i < 100 ∨ 105 ≤ i → memory i = 0) ∧
    IsLeast {i | Overflows ⟨true, 2147483645, false, 2⟩ [1, 0, 0, 0, 2] i} 4 := by
  have hsegments : segments ⟨true, 100, false, 2⟩ [1, 0, 0, 0, 2] =
      .ok [⟨.active [.i32Const 100], [1]⟩, ⟨.active [.i32Const 104], [2]⟩] := rfl
  have herror : segments ⟨true, 2147483645, false, 2⟩ [1, 0, 0, 0, 2] =
      .error (.offsetOverflow 4) := rfl
  obtain ⟨-, -, hmemory⟩ :=
    initial_segments ⟨true, 100, false, 2⟩ [1, 0, 0, 0, 2] rfl (by decide) (by decide)
  obtain ⟨-, hoverflow, -⟩ :=
    initial_segments ⟨true, 2147483645, false, 2⟩ [1, 0, 0, 0, 2] rfl (by decide) (by decide)
  obtain ⟨index, hleast, hindex⟩ := hoverflow _ herror
  cases hindex
  exact ⟨(hmemory _ hsegments).1, hleast⟩

end DataReplacement

end WasmBinary
