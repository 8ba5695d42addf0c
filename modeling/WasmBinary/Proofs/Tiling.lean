import WasmBinary.Proofs.Replacement

/-!
# The section table tiles the file

Behind the preamble a file is nothing but its sections. `Section.Tiles p sections q` says that the
entries of a section table stand one behind the other and fill the file from `p` to `q`.

* `RawSection.tiles_entries`: the table of sections that follow each other tiles their bytes.
* `Section.Tiles.boundary_or_inside`: a place of the file is between sections or inside of one.
* `Encoder.writes_copySections`: copying the sections of a table gives their bytes.
* `Module.tiles_of_decode`: the table of a module tiles its file, and copies give back the file.
-/
namespace WasmBinary

open Writer (Writes)

/-! ## Tables -/

namespace Section

/-- The sections fill the file from one place to another. Each starts where the one in front of it
stops, and has a header that is not empty. -/
inductive Tiles : Nat → List Section → Nat → Prop
  | nil (p : Nat) : Tiles p [] p
  | cons {s : Section} {rest : List Section} {q : Nat} (header : s.offset < s.payload)
      (payload : s.payload ≤ s.stop) (others : Tiles s.stop rest q) : Tiles s.offset (s :: rest) q

variable {p q : Nat} {sections : List Section}

theorem Tiles.le (h : Tiles p sections q) : p ≤ q := by
  induction h with
  | nil p => exact Nat.le_refl p
  | cons header payload _ ih => omega

theorem Tiles.within (h : Tiles p sections q) : ∀ s ∈ sections, p ≤ s.offset ∧ s.stop ≤ q := by
  induction h with
  | nil p => exact fun s hs => nomatch hs
  | cons header payload others ih =>
    rename_i s rest q
    intro t ht
    rcases List.mem_cons.mp ht with rfl | ht
    · exact ⟨Nat.le_refl _, others.le⟩
    · have hbounds := ih t ht
      omega

/-- A place in a tiled part of a file is between two sections or inside of one. -/
theorem Tiles.boundary_or_inside (h : Tiles p sections q) {k : Nat} (hp : p ≤ k) (hq : k ≤ q) :
    (k = p ∨ ∃ s ∈ sections, s.stop = k) ∨ ∃ s ∈ sections, s.offset < k ∧ k < s.stop := by
  induction h with
  | nil p => exact .inl (.inl (Nat.le_antisymm hq hp))
  | @cons s rest q header payload others ih =>
    by_cases hfirst : k < s.stop
    · by_cases hstart : k = s.offset
      · exact .inl (.inl hstart)
      · exact .inr ⟨s, .head rest, by omega, hfirst⟩
    · rcases ih (Nat.le_of_not_lt hfirst) hq with (rfl | ⟨t, ht, hstop⟩) | ⟨t, ht, hinside⟩
      · exact .inl (.inr ⟨s, .head rest, rfl⟩)
      · exact .inl (.inr ⟨t, .tail s ht, hstop⟩)
      · exact .inr ⟨t, .tail s ht, hinside⟩

/-- The sections in front of a place where one stops. -/
theorem Tiles.takeWhile_append {front back : List Section} {k : Nat} (hfront : Tiles p front k)
    (hback : Tiles k back q) : (front ++ back).takeWhile (·.stop ≤ k) = front := by
  have hall : ∀ s ∈ front, decide (s.stop ≤ k) = true := fun s hs =>
    decide_eq_true (hfront.within s hs).2
  rw [List.takeWhile_append_of_pos hall]
  cases hback with
  | nil => simp
  | @cons s rest _ header payload _ =>
    have hlater : decide (s.stop ≤ s.offset) = false := decide_eq_false (by omega)
    rw [List.takeWhile_cons, hlater]
    simp

end Section

namespace RawSection

theorem entries_append (rs rs' : List RawSection) : ∀ p,
    entries p (rs ++ rs') = entries p rs ++ entries (p + (join rs).length) rs' := by
  induction rs with
  | nil => exact fun _ => rfl
  | cons r rs ih =>
    intro p
    rw [List.cons_append, entries, ih, add_length_join_cons]
    rfl

theorem exists_of_mem_entries {rs : List RawSection} {s : Section} : ∀ {p : Nat},
    s ∈ entries p rs →
      ∃ front r back, rs = front ++ r :: back ∧ s = r.entry (p + (join front).length) := by
  induction rs with
  | nil => exact fun hs => nomatch hs
  | cons r rs ih =>
    intro p hs
    rcases List.mem_cons.mp hs with rfl | hs
    · exact ⟨[], r, rs, rfl, rfl⟩
    · obtain ⟨front, t, back, rfl, rfl⟩ := ih hs
      refine ⟨r :: front, t, back, rfl, ?_⟩
      simp only [join, List.flatMap_cons, List.length_append, Nat.add_assoc]

theorem tiles_entries (rs : List RawSection) : ∀ p,
    Section.Tiles p (entries p rs) (p + (join rs).length) := by
  induction rs with
  | nil => exact fun p => .nil p
  | cons r rs ih =>
    intro p
    have hrest := ih (p + r.bytes.length)
    have hheader : (r.entry p).offset < (r.entry p).payload := by
      simp only [entry, payloadOffset]
      omega
    rw [add_length_join_cons]
    refine .cons (s := r.entry p) hheader (Nat.le_add_right _ _) ?_
    rw [stop_entry]
    exact hrest

/-- An entry gives back the payload of its section. -/
theorem payload?_entry (r : RawSection) (front back : Bytes) :
    (r.entry front.length).payload? (front ++ (r.bytes ++ back)) = some r.payload := by
  refine Bytes.slice?_eq_some_iff.mpr ⟨front ++ r.id :: r.sizeBytes, back, ?_, ?_, ?_⟩
  · simp [bytes]
  · simp only [List.length_append, List.length_cons, entry, payloadOffset]
    omega
  · simp only [Section.stop, entry, toNat_size]

theorem exists_payload?_of_mem {rs : List RawSection} {s : Section} {front : Bytes}
    (hs : s ∈ entries front.length rs) :
    ∃ payload, s.payload? (front ++ join rs) = some payload ∧ payload.length = s.size.toNat := by
  obtain ⟨before, r, behind, rfl, rfl⟩ := exists_of_mem_entries hs
  refine ⟨r.payload, ?_, r.toNat_size.symm⟩
  have hfile : front ++ join (before ++ r :: behind) =
      front ++ join before ++ (r.bytes ++ join behind) := by simp [join]
  rw [hfile, ← List.length_append]
  exact r.payload?_entry _ _

/-- The places between sections: the first, and every one where a section stops. -/
theorem exists_split_of_boundary {rs : List RawSection} {p k : Nat}
    (h : k = p ∨ ∃ s ∈ entries p rs, s.stop = k) :
    ∃ front back, rs = front ++ back ∧ k = p + (join front).length := by
  rcases h with rfl | ⟨s, hs, rfl⟩
  · exact ⟨[], rs, rfl, rfl⟩
  · obtain ⟨front, r, back, rfl, rfl⟩ := exists_of_mem_entries hs
    refine ⟨front ++ [r], back, by simp, ?_⟩
    rw [stop_entry, join_append, List.length_append, ← Nat.add_assoc]
    simp [join]

/-- The part of a table in front of a place between sections. -/
theorem takeWhile_entries (front back : List RawSection) (p : Nat) :
    (entries p (front ++ back)).takeWhile (·.stop ≤ p + (join front).length) = entries p front := by
  rw [entries_append]
  exact (tiles_entries front p).takeWhile_append (tiles_entries back _)

theorem dropWhile_entries (front back : List RawSection) (p : Nat) :
    (entries p (front ++ back)).dropWhile (·.stop ≤ p + (join front).length) =
      entries (p + (join front).length) back := by
  have hwhole := List.takeWhile_append_dropWhile (p := (·.stop ≤ p + (join front).length))
    (l := entries p (front ++ back))
  rw [takeWhile_entries, entries_append] at hwhole
  rw [entries_append]
  exact List.append_cancel_left hwhole

end RawSection

/-! ## Copies -/

namespace Encoder

theorem writes_copySection {file raw : Bytes} {s : Section} (h : s.raw? file = some raw) :
    Writes .sinkFull (copySection file s) raw (.ok ()) := by
  simp only [copySection, h]
  exact writes_bytes raw

/-- Copying the sections of a table gives the bytes that they stand for. -/
theorem writes_copySections (rs : List RawSection) : ∀ front back : Bytes,
    Writes .sinkFull
      ((RawSection.entries front.length rs).forM
        (copySection (front ++ (RawSection.join rs ++ back))))
      (RawSection.join rs) (.ok ()) := by
  induction rs with
  | nil => exact fun _ _ => .pure ()
  | cons r rs ih =>
    intro front back
    have hfile : front ++ (RawSection.join (r :: rs) ++ back) =
        front ++ (r.bytes ++ (RawSection.join rs ++ back)) := by simp [RawSection.join]
    have hrest := ih (front ++ r.bytes) back
    rw [List.length_append, List.append_assoc] at hrest
    rw [hfile]
    exact (writes_copySection (r.raw?_entry front _)).bind hrest

end Encoder

/-! ## Files -/

namespace Module

/-- The end of the preamble, or of a section. -/
def IsBoundary (m : Module) (p : Nat) : Prop := p = 8 ∨ ∃ s ∈ m.sections, s.stop = p

/-- The bytes of a file up to a place between sections. -/
theorem take_boundary (version : UInt32) (front back : List RawSection) :
    (preamble version ++ RawSection.join (front ++ back)).take (8 + (RawSection.join front).length) =
      preamble version ++ RawSection.join front := by
  rw [RawSection.join_append, ← List.append_assoc]
  exact List.take_left' (by rw [List.length_append, length_preamble])

/-- The bytes of a file behind a place between sections. -/
theorem drop_boundary (version : UInt32) (front back : List RawSection) :
    (preamble version ++ RawSection.join (front ++ back)).drop (8 + (RawSection.join front).length) =
      RawSection.join back := by
  rw [RawSection.join_append, ← List.append_assoc]
  exact List.drop_left' (by rw [List.length_append, length_preamble])

/-- The section table of a module tiles its file behind the preamble. The header and copies of all
sections are the file again, and every section has a payload. -/
theorem tiles_of_decode {readCode : Bool} {file : Bytes} {m : Module}
    (hm : decode readCode file = .ok m) :
    m.source = file ∧ Section.Tiles 8 m.sections file.length ∧
      (∀ capacity : Option Nat, (∀ room, capacity = some room → file.length ≤ room) →
        ∃ sink, (do
            Encoder.header m.version
            m.sections.forM (Encoder.copySection m.source)) (.empty capacity) = .ok () sink ∧
          sink.bytes = file) ∧
      ∀ s ∈ m.sections, ∃ payload, s.payload? m.source = some payload ∧
        payload.length = s.size.toNat := by
  obtain ⟨version, rs, rfl, hscan⟩ := (decode_eq_ok_iff ..).mp hm
  obtain ⟨hsource, rfl, hsections⟩ := hscan.places
  simp only [List.nil_append, ← length_preamble m.version] at hsections
  rw [hsource, hsections]
  refine ⟨rfl, ?_, ?_, fun s hs => RawSection.exists_payload?_of_mem hs⟩
  · rw [List.length_append, length_preamble]
    exact RawSection.tiles_entries rs 8
  · intro capacity hroom
    have hcopies := Encoder.writes_copySections rs (preamble m.version) []
    rw [List.append_nil] at hcopies
    have hwrites : Writes .sinkFull (do
        Encoder.header m.version
        (RawSection.entries (preamble m.version).length rs).forM
          (Encoder.copySection (preamble m.version ++ RawSection.join rs)))
        (preamble m.version ++ RawSection.join rs) (.ok ()) :=
      (Encoder.writes_header m.version).bind hcopies
    obtain ⟨sink, hwrite, hafter⟩ := hwrites.enough (.empty capacity) hroom
    exact ⟨sink, hwrite, hafter.bytes_eq⟩

/-- A module with a size that is longer than it needs to be, a function without a byte of code at the
end of its section, and a global. -/
def sample : Module where
  source := [0x00, 0x61, 0x73, 0x6D, 1, 0, 0, 0, 12, 0x81, 0, 1, 10, 2, 1, 0,
    6, 6, 1, 0x7F, 0, 0x41, 5, 0x0B]
  version := 1
  sections := [⟨.dataCount, 1, 8, 11⟩, ⟨.code, 2, 12, 14⟩, ⟨.global, 6, 16, 18⟩]
  globals := [⟨⟨.const, .i32⟩, [.plain .i32Const 21 (.i32 5)]⟩]
  dataCount := some 1
  codes := [⟨0, 16, []⟩]

/-- The padded size is copied as it is, into a sink that has just enough room. -/
theorem tiles_of_decode_sample :
    decode true sample.source = .ok sample ∧ Section.Tiles 8 sample.sections 24 ∧
      ∃ sink, (do
          Encoder.header sample.version
          sample.sections.forM (Encoder.copySection sample.source)) (.empty (some 24)) = .ok () sink ∧
        sink.bytes = sample.source := by
  have hm : decode true sample.source = .ok sample := rfl
  obtain ⟨-, htiles, hcopies, -⟩ := tiles_of_decode hm
  obtain ⟨sink, hwrite, hbytes⟩ := hcopies (some 24) fun room hroom => by
    cases hroom
    exact Nat.le_refl 24
  exact ⟨hm, htiles, sink, hwrite, hbytes⟩

end Module

end WasmBinary
