import WasmBinary.Proofs.CutShort
import WasmBinary.Proofs.Tiling

/-!
# Files that are cut off

What becomes of a file of which only the first bytes are left. The sections in front of the cut are
read as before. A cut between two sections leaves a shorter module. A cut inside of a section is
told with what is left of its payload, or, if its header is not complete, as the end of the input.

* `Leb128.u32_take`: a number that is cut off ends the input.
* `Scans.decodeSections_append`: the loop of the reader behind sections that can be read.
* `Module.decode_cut`: a file that goes on behind its last whole section with the start of another.
* `Module.decode_take_boundary`, `Module.decode_take_inside`: a cut between sections, and inside of one.
* `Module.decode_take`: every place at which a file can be cut.
-/
namespace WasmBinary

open Decoder (bind_eq_error mapError_eq_error mapError_eq_ok)

/-! ## Numbers and headers -/

theorem Decoder.byte_nil (p : Nat) : byte ⟨p, []⟩ = .error .endOfInput ⟨p, []⟩ := rfl

theorem Decoder.take_of_length_lt {n : Nat} {s : Bytes} (h : s.length < n) :
    ∀ p, ∃ c, take n ⟨p, s⟩ = .error .endOfInput c := by
  induction n generalizing s with
  | zero => exact absurd h (Nat.not_lt_zero _)
  | succ n ih =>
    intro p
    cases s with
    | nil => exact ⟨_, (bind_eq_error ..).mpr (.inl (byte_nil p))⟩
    | cons b s =>
      obtain ⟨c, hrest⟩ := ih (Nat.lt_of_succ_lt_succ h) (p + 1)
      have hbyte : byte ⟨p, b :: s⟩ = .ok b ⟨p + 1, s⟩ := rfl
      refine ⟨c, ?_⟩
      rw [take, bind_of_ok hbyte]
      exact (bind_eq_error ..).mpr (.inl hrest)

namespace Leb128

/-- A number that is cut off ends the input. -/
theorem u32_take {bs : Bytes} {n : UInt32} (h : U32Form bs n) {k : Nat} (hk : k < bs.length) (p : Nat) :
    ∃ c, u32 ⟨p, bs.take k⟩ = .error .endOfInput c := by
  obtain ⟨e, c, hread, he⟩ := cutShort_u32.fails_take recognizes_u32 (p := p) h hk
  cases e with
  | endOfInput => exact ⟨c, hread⟩
  | tooLarge _ | tooLong _ => cases he

end Leb128

/-- A header that is cut off in its size ends the input. -/
theorem RawSection.decode_header_take (r : RawSection) (p : Nat) {k : Nat}
    (hk : k < r.sizeBytes.length) :
    ∃ c, Section.decode ⟨p, r.id :: r.sizeBytes.take k⟩ = .error (.size .endOfInput) c := by
  obtain ⟨c, hsize⟩ := Leb128.u32_take r.sizeForm hk (p + 1)
  have hposition : (Decoder.position : Decoder SectionHeaderError Nat)
      ⟨p, r.id :: r.sizeBytes.take k⟩ = .ok p ⟨p, r.id :: r.sizeBytes.take k⟩ := rfl
  have hid : (Decoder.byte.mapError fun _ => SectionHeaderError.id)
      ⟨p, r.id :: r.sizeBytes.take k⟩ = .ok r.id ⟨p + 1, r.sizeBytes.take k⟩ :=
    (mapError_eq_ok ..).mpr rfl
  refine ⟨c, ?_⟩
  rw [Section.decode, Decoder.bind_of_ok hposition, Decoder.bind_of_ok hid]
  exact (bind_eq_error ..).mpr (.inl ((mapError_eq_error ..).mpr ⟨_, hsize, rfl⟩))

/-! ## The loop of the reader -/

theorem RawSection.length_le_join (rs : List RawSection) : rs.length ≤ (join rs).length := by
  induction rs with
  | nil => exact Nat.le_refl 0
  | cons r rs ih =>
    have hjoin : (join (r :: rs)).length = r.bytes.length + (join rs).length := List.length_append
    rw [hjoin, r.length_bytes, List.length_cons]
    omega

/-- Behind sections that can be read the loop goes on with the module that they make. -/
theorem Scans.decodeSections_append {readCode : Bool} {p : Nat} {m m' : Module} {rs : List RawSection}
    (h : Scans readCode p m rs m') (bound : Nat) (tail : Bytes) :
    Module.decodeSections readCode (bound + rs.length) m ⟨p, RawSection.join rs ++ tail⟩ =
      Module.decodeSections readCode bound m' ⟨p + (RawSection.join rs).length, tail⟩ := by
  induction h with
  | nil => rfl
  | @cons p m m' r rs pl first _ ih =>
    have hbytes : RawSection.join (r :: rs) ++ tail = r.bytes ++ (RawSection.join rs ++ tail) :=
      List.append_assoc ..
    rw [hbytes, RawSection.add_length_join_cons, List.length_cons, ← Nat.add_assoc,
      Module.decodeSections_of_holds first, ih]

namespace Module

variable {readCode : Bool}

theorem decode_preamble_append (version : UInt32) (s : Bytes) :
    decode readCode (preamble version ++ s) =
      (decodeSections readCode (preamble version ++ s).length
        { source := preamble version ++ s, version }).outcome ⟨8, s⟩ := by
  have hread : (decodePreamble.mapError ModuleError.preamble) (.start (preamble version ++ s)) =
      .ok version ⟨8, s⟩ := by
    refine (mapError_eq_ok ..).mpr ?_
    have hpreamble := recognizes_decodePreamble.read (p := 0) (a := version) rfl s
    rwa [length_preamble, Nat.zero_add] at hpreamble
  simp only [decode, Decoder.outcome, Decoder.bind_of_ok hread]

/-- What is behind the sections that can be read decides. -/
theorem decode_cut {version : UInt32} {rs : List RawSection} {m : Module} (tail : Bytes)
    (h : Scans readCode 8
      { source := preamble version ++ (RawSection.join rs ++ tail), version } rs m) :
    ∃ bound, decode readCode (preamble version ++ (RawSection.join rs ++ tail)) =
      (decodeSections readCode (bound + 1) m).outcome ⟨8 + (RawSection.join rs).length, tail⟩ := by
  have hlength := RawSection.length_le_join rs
  obtain ⟨bound, hbound⟩ : ∃ bound,
      (preamble version ++ (RawSection.join rs ++ tail)).length = bound + 1 + rs.length := by
    refine ⟨8 + (RawSection.join rs).length + tail.length - 1 - rs.length, ?_⟩
    simp only [List.length_append, length_preamble]
    omega
  refine ⟨bound, ?_⟩
  rw [decode_preamble_append]
  simp only [Decoder.outcome, hbound, h.decodeSections_append]

/-- A cut in the header of a section. -/
theorem decode_cut_header {version : UInt32} {rs : List RawSection} {m : Module} {r : RawSection}
    {k : Nat} (hk : k < r.sizeBytes.length)
    (h : Scans readCode 8 { source := preamble version ++
      (RawSection.join rs ++ r.id :: r.sizeBytes.take k), version } rs m) :
    decode readCode (preamble version ++ (RawSection.join rs ++ r.id :: r.sizeBytes.take k)) =
      .error (.header (.size .endOfInput)) := by
  obtain ⟨bound, hcut⟩ := decode_cut _ h
  obtain ⟨c, hheader⟩ := r.decode_header_take (8 + (RawSection.join rs).length) hk
  rw [hcut, Decoder.outcome, decodeSections_succ_of_header_error _ _ _ _ _ _ hheader]

/-- A cut in the payload of a section. -/
theorem decode_cut_payload {version : UInt32} {rs : List RawSection} {m : Module} {r : RawSection}
    {k : Nat} (hk : k < r.payload.length)
    (h : Scans readCode 8 { source := preamble version ++
      (RawSection.join rs ++ r.id :: (r.sizeBytes ++ r.payload.take k)), version } rs m) :
    decode readCode
        (preamble version ++ (RawSection.join rs ++ r.id :: (r.sizeBytes ++ r.payload.take k))) =
      .error (.outOfBounds (r.entry (8 + (RawSection.join rs).length)) k) := by
  obtain ⟨bound, hcut⟩ := decode_cut _ h
  have hheader := r.decode_header (8 + (RawSection.join rs).length) (r.payload.take k)
  have hlength : (r.payload.take k).length = k := by
    rw [List.length_take]
    omega
  have hsize : (r.entry (8 + (RawSection.join rs).length)).size.toNat = r.payload.length :=
    r.toNat_size
  have hshort : ((r.payload.take k).take r.payload.length).length < r.payload.length := by
    rw [List.length_take]
    omega
  have hstep := decodeSections_succ_of_header readCode bound _ m _ _ hheader
  simp only [hsize, if_pos hshort, hlength] at hstep
  rw [hcut, Decoder.outcome, hstep]

/-! ## Preambles -/

/-- A preamble that is cut off ends the input. -/
theorem decodePreamble_take (version : UInt32) {k : Nat} (hk : k < 8) :
    ∃ c, decodePreamble ⟨0, (preamble version).take k⟩ = .error .endOfInput c := by
  have hmapped {n p : Nat} {s : Bytes} (hs : s.length < n) : ∃ c,
      ((Decoder.take n).mapError fun _ => PreambleError.endOfInput) ⟨p, s⟩ =
        .error .endOfInput c := by
    obtain ⟨c, htake⟩ := Decoder.take_of_length_lt hs p
    exact ⟨c, (mapError_eq_error ..).mpr ⟨_, htake, rfl⟩⟩
  by_cases hmagic : k < 4
  · obtain ⟨c, htake⟩ := hmapped (n := 4) (p := 0) (s := (preamble version).take k) (by
      rw [List.length_take]
      omega)
    exact ⟨c, (bind_eq_error ..).mpr (.inl htake)⟩
  · have hbytes : (preamble version).take k =
        magic ++ (Bytes.littleEndian 4 version.toNat).take (k - 4) := by
      rw [preamble, List.take_append, List.take_of_length_le]
      · rfl
      · change 4 ≤ k
        omega
    have hread : ((Decoder.take 4).mapError fun _ => PreambleError.endOfInput)
        ⟨0, (preamble version).take k⟩ =
          .ok ⟨magic, rfl⟩ ⟨4, (Bytes.littleEndian 4 version.toNat).take (k - 4)⟩ := by
      rw [hbytes]
      exact (mapError_eq_ok ..).mpr ((Decoder.recognizes_take 4).read (p := 0) (a := ⟨magic, rfl⟩) rfl _)
    obtain ⟨c, htake⟩ := hmapped (n := 4) (p := 4)
      (s := (Bytes.littleEndian 4 version.toNat).take (k - 4)) (by
        rw [List.length_take]
        omega)
    refine ⟨c, ?_⟩
    rw [decodePreamble, Decoder.bind_of_ok hread, if_pos rfl]
    exact (bind_eq_error ..).mpr (.inl htake)

theorem decode_take_preamble (version : UInt32) (s : Bytes) {k : Nat} (hk : k < 8) :
    decode readCode ((preamble version ++ s).take k) = .error (.preamble .endOfInput) := by
  have hbytes : (preamble version ++ s).take k = (preamble version).take k :=
    List.take_append_of_le_length (by rw [length_preamble]; omega)
  obtain ⟨c, hread⟩ := decodePreamble_take version hk
  have hmapped : (decodePreamble.mapError ModuleError.preamble)
      (.start ((preamble version).take k)) = .error (.preamble .endOfInput) c :=
    (mapError_eq_error ..).mpr ⟨_, hread, rfl⟩
  have hstep (n : Nat) (source : Bytes) :
      (do
        let version ← decodePreamble.mapError ModuleError.preamble
        decodeSections readCode n { source, version })
        (.start ((preamble version).take k)) = .error (.preamble .endOfInput) c :=
    (bind_eq_error ..).mpr (.inl hmapped)
  rw [hbytes, decode, Decoder.outcome, hstep]

/-! ## Files -/

/-- The bytes of a file up to a place behind the sections in front. -/
theorem take_file (version : UInt32) (front : List RawSection) (k : Nat) (tail : Bytes) :
    (preamble version ++ (RawSection.join front ++ tail)).take
        (8 + (RawSection.join front).length + k) =
      preamble version ++ (RawSection.join front ++ tail.take k) := by
  rw [← length_preamble version, ← List.append_assoc, ← List.length_append, List.take_length_add_append,
    List.append_assoc]

section

variable {file : Bytes} {m : Module} {k : Nat}

/-- A file that is cut off between sections. -/
theorem decode_take_boundary (hm : decode readCode file = .ok m) (hk : m.IsBoundary k) :
    ∃ m', decode readCode (file.take k) = .ok m' ∧
      m'.sections = m.sections.takeWhile (·.stop ≤ k) := by
  obtain ⟨version, rs, rfl, hscan, hsections⟩ := exists_scans_of_decode hm
  rw [IsBoundary, hsections] at hk
  obtain ⟨front, back, rfl, rfl⟩ := RawSection.exists_split_of_boundary hk
  obtain ⟨_, hfront, -⟩ := Scans.append_iff.mp hscan
  obtain ⟨m', hfront'⟩ := hfront.exists_from
    { source := preamble version ++ RawSection.join front, version }
  rw [hsections, RawSection.takeWhile_entries, take_boundary]
  exact ⟨m', (decode_eq_ok_iff ..).mpr ⟨version, front, rfl, hfront'⟩, hfront'.places.2.2⟩

/-- A file that is cut off inside of a section. -/
theorem decode_take_inside (hm : decode readCode file = .ok m) {s : Section} (hs : s ∈ m.sections) :
    (s.offset < k → k < s.payload →
      decode readCode (file.take k) = .error (.header (.size .endOfInput))) ∧
    (s.payload ≤ k → k < s.stop →
      decode readCode (file.take k) = .error (.outOfBounds s (k - s.payload))) := by
  obtain ⟨version, rs, rfl, hscan, hsections⟩ := exists_scans_of_decode hm
  rw [hsections] at hs
  obtain ⟨front, r, back, rfl, hentry⟩ := RawSection.exists_of_mem_entries hs
  obtain ⟨_, hfront, -⟩ := Scans.append_iff.mp hscan
  have hfile : RawSection.join (front ++ r :: back) = RawSection.join front ++
      (r.id :: (r.sizeBytes ++ (r.payload ++ RawSection.join back))) := by
    simp [RawSection.join, RawSection.bytes]
  have hoffset : s.offset = 8 + (RawSection.join front).length := by
    rw [hentry]
    rfl
  have hpayload : s.payload = 8 + (RawSection.join front).length + 1 + r.sizeBytes.length := by
    rw [hentry]
    rfl
  have hstop : s.stop = s.payload + r.payload.length := by
    rw [Section.stop, hentry, RawSection.entry, r.toNat_size]
  rw [hfile]
  constructor
  · intro hstart hend
    obtain ⟨j, rfl⟩ : ∃ j, k = 8 + (RawSection.join front).length + (j + 1) :=
      ⟨k - s.offset - 1, by omega⟩
    have hj : j < r.sizeBytes.length := by omega
    obtain ⟨m', hfront'⟩ := hfront.exists_from _
    rw [take_file, List.take_succ_cons, List.take_append_of_le_length (Nat.le_of_lt hj)]
    exact decode_cut_header hj hfront'
  · intro hstart hend
    obtain ⟨j, rfl⟩ : ∃ j, k = 8 + (RawSection.join front).length + (r.sizeBytes.length + j + 1) :=
      ⟨k - s.payload, by omega⟩
    have hj : j < r.payload.length := by omega
    have hleft : 8 + (RawSection.join front).length + (r.sizeBytes.length + j + 1) - s.payload = j := by
      omega
    obtain ⟨m', hfront'⟩ := hfront.exists_from _
    rw [hleft, hentry, take_file, List.take_succ_cons, List.take_length_add_append,
      List.take_append_of_le_length (Nat.le_of_lt hj)]
    exact decode_cut_payload hj hfront'

theorem isBoundary_or_inside (hm : decode readCode file = .ok m) (hle : 8 ≤ k) (hk : k ≤ file.length) :
    m.IsBoundary k ∨ ∃ s ∈ m.sections, s.offset < k ∧ k < s.stop := by
  obtain ⟨version, rs, rfl, -, hsections⟩ := exists_scans_of_decode hm
  rw [List.length_append, length_preamble] at hk
  rw [IsBoundary, hsections]
  exact (RawSection.tiles_entries rs 8).boundary_or_inside hle hk

/-- No file that is cut off elsewhere can be read. -/
theorem isBoundary_of_decode_take (hm : decode readCode file = .ok m) (hle : 8 ≤ k)
    (hk : k ≤ file.length) {m' : Module} (hm' : decode readCode (file.take k) = .ok m') :
    m.IsBoundary k := by
  rcases isBoundary_or_inside hm hle hk with h | ⟨s, hs, hstart, hstop⟩
  · exact h
  · obtain ⟨hheader, hpayload⟩ := decode_take_inside (k := k) hm hs
    by_cases hbefore : k < s.payload
    · rw [hheader hstart hbefore] at hm'
      cases hm'
    · rw [hpayload (Nat.le_of_not_lt hbefore) hstop] at hm'
      cases hm'

end

/-- What is left of a file that could be read once it is cut off at `k`. Between sections that is the
module with the sections in front of the cut. All other cuts are told apart. -/
theorem decode_take {file : Bytes} {m : Module} (hm : decode readCode file = .ok m) (k : Nat) :
    (k < 8 → decode readCode (file.take k) = .error (.preamble .endOfInput)) ∧
    (8 ≤ k → k ≤ file.length →
      ((∃ m', decode readCode (file.take k) = .ok m') ↔ m.IsBoundary k) ∧
      (∀ m', decode readCode (file.take k) = .ok m' →
        m'.sections = m.sections.takeWhile (·.stop ≤ k)) ∧
      (¬m.IsBoundary k → ∃ s ∈ m.sections, s.offset < k ∧ k < s.stop) ∧
      ∀ s ∈ m.sections,
        (s.offset < k → k < s.payload →
          decode readCode (file.take k) = .error (.header (.size .endOfInput))) ∧
        (s.payload ≤ k → k < s.stop →
          decode readCode (file.take k) = .error (.outOfBounds s (k - s.payload)))) := by
  constructor
  · intro hk
    obtain ⟨version, rs, rfl, -⟩ := (decode_eq_ok_iff ..).mp hm
    exact decode_take_preamble version _ hk
  · intro hle hk
    refine ⟨⟨?_, ?_⟩, ?_, ?_, fun s hs => decode_take_inside hm hs⟩
    · intro h
      obtain ⟨m', hm'⟩ := h
      exact isBoundary_of_decode_take hm hle hk hm'
    · intro h
      obtain ⟨m', hm', -⟩ := decode_take_boundary hm h
      exact ⟨m', hm'⟩
    · intro m' hm'
      obtain ⟨m'', hm'', hsections⟩ :=
        decode_take_boundary hm (isBoundary_of_decode_take hm hle hk hm')
      rw [hm'] at hm''
      cases hm''
      exact hsections
    · exact (isBoundary_or_inside hm hle hk).resolve_left

/-- The last section is left out, cut off in its header, and cut off in its payload. -/
theorem decode_take_sample :
    decode true sample.source = .ok sample ∧
      (∃ m', decode true (sample.source.take 16) = .ok m' ∧
        m'.sections = [⟨.dataCount, 1, 8, 11⟩, ⟨.code, 2, 12, 14⟩]) ∧
      decode true (sample.source.take 17) = .error (.header (.size .endOfInput)) ∧
      decode true (sample.source.take 20) = .error (.outOfBounds ⟨.global, 6, 16, 18⟩ 2) ∧
      decode true (sample.source.take 5) = .error (.preamble .endOfInput) := by
  have hm : decode true sample.source = .ok sample := rfl
  have hglobal : (⟨.global, 6, 16, 18⟩ : Section) ∈ sample.sections := by decide
  have hboundary : sample.IsBoundary 16 := .inr ⟨⟨.code, 2, 12, 14⟩, by decide, rfl⟩
  obtain ⟨hiff, hsections, -⟩ := (decode_take hm 16).2 (by decide) (by decide)
  obtain ⟨-, -, -, hheader⟩ := (decode_take hm 17).2 (by decide) (by decide)
  obtain ⟨-, -, -, hpayload⟩ := (decode_take hm 20).2 (by decide) (by decide)
  obtain ⟨m', hm'⟩ := hiff.mpr hboundary
  exact ⟨hm, ⟨m', hm', hsections m' hm'⟩, (hheader _ hglobal).1 (by decide) (by decide),
    (hpayload _ hglobal).2 (by decide) (by decide), (decode_take hm 5).1 (by decide)⟩

end Module

end WasmBinary
