import WasmBinary.Proofs.Payload
import WasmBinary.Proofs.Leb128

/-!
# The sections of a file

A file that can be read is a preamble and sections, one behind the other, each with an id, any
accepted form of its size, and that many bytes of payload. `Scans` says what reading them makes of a
module: a step for each section, which adds the payload and an entry of the section table.

* `Module.decodeSections_eq_ok_iff`: the loop of the reader makes these steps and no others.
* `Module.decode_eq_ok_iff`: a file is read exactly if it is a preamble and sections whose payloads
  can be read.
* `Scans.places`, `RawSection.raw?_entry`: the section table lists the sections in order, and an entry
  of the table gives back the bytes of its section.
* `Scans.customs`: the custom sections are listed in the order of the table.
* `Module.invariant_of_decode`: what every section keeps holds of every module that was read.
* `Module.sectioned_of_decode`: a module has no entities for which it has no section.
* `Module.decode_withoutCode`: what can be read with its code can be read without.
-/
namespace WasmBinary

open Decoder (Recognizes recognizes_byte recognizes_take recognizes_position bind_eq_ok
  mapError_eq_ok)
open Leb128 (IsUnsigned U32Form recognizes_u32)

/-- A section as it stands in a file. -/
structure RawSection where
  id : UInt8
  sizeBytes : Bytes
  payload : Bytes
  size_form : IsUnsigned 32 sizeBytes payload.length

namespace RawSection

def kind (r : RawSection) : SectionKind := .ofId r.id

/-- The section with its header. -/
def bytes (r : RawSection) : Bytes := r.id :: (r.sizeBytes ++ r.payload)

/-- Where the payload of the section is that stands at `offset`. -/
def payloadOffset (r : RawSection) (offset : Nat) : Nat := offset + 1 + r.sizeBytes.length

/-- The size as the section table has it. -/
def size (r : RawSection) : UInt32 := UInt32.ofNat r.payload.length

/-- The entry of the section table for the section that stands at `offset`. -/
def entry (r : RawSection) (offset : Nat) : Section :=
  ⟨r.kind, r.size, offset, r.payloadOffset offset⟩

theorem toNat_size (r : RawSection) : r.size.toNat = r.payload.length :=
  UInt32.toNat_ofNat_of_lt' r.size_form.lt

theorem sizeForm (r : RawSection) : U32Form r.sizeBytes r.size := by
  rw [U32Form, toNat_size]
  exact r.size_form

theorem length_bytes (r : RawSection) :
    r.bytes.length = 1 + r.sizeBytes.length + r.payload.length := by
  simp only [bytes, List.length_cons, List.length_append]
  omega

theorem stop_entry (r : RawSection) (offset : Nat) :
    (r.entry offset).stop = offset + r.bytes.length := by
  simp only [Section.stop, entry, toNat_size, payloadOffset, length_bytes]
  omega

/-- The payload of the section holds `pl`. -/
def Holds (readCode : Bool) (r : RawSection) (offset : Nat) (pl : Payload) : Prop :=
  ∃ c, Payload.decode readCode r.kind ⟨r.payloadOffset offset, r.payload⟩ = .ok pl c

/-- What a payload holds moves along with it. -/
theorem Holds.decode_moved {readCode : Bool} {r : RawSection} {p q : Nat} {pl : Payload}
    (h : r.Holds readCode p pl) {f : Nat → Nat}
    (hf : ∀ n ≤ r.payload.length, f (r.payloadOffset p + n) = q + n) :
    ∃ c, Payload.decode readCode r.kind ⟨q, r.payload⟩ = .ok (pl.mapOffsets f) c := by
  obtain ⟨c, h⟩ := h
  have hfirst := hf 0 (Nat.zero_le _)
  simp only [Nat.add_zero] at hfirst
  have hmoves : Moves f (r.payloadOffset p) r.payload.length := by
    rw [Moves, hfirst]
    exact hf
  obtain ⟨-, h'⟩ := (Payload.follows_decode f readCode r.kind).ok hmoves h
  rw [hfirst] at h'
  exact ⟨_, h'⟩

/-- The custom section that this is. -/
def custom? (r : RawSection) : Option CustomSection :=
  if r.kind = .custom then (CustomSection.decode.outcome (.start r.payload)).toOption else none

theorem Holds.custom? {readCode : Bool} {r : RawSection} {p : Nat} {pl : Payload}
    (h : r.Holds readCode p pl) :
    pl.custom? = r.custom? ∧ r.custom?.isSome = decide (r.kind = .custom) := by
  obtain ⟨c, h⟩ := h
  by_cases hkind : r.kind = .custom
  · rw [hkind] at h
    obtain ⟨custom, names, c₁, hread, rfl⟩ := Payload.exists_of_decodeCustom h
    obtain ⟨-, hstart⟩ := (Payload.fixed_decodeCustomSection _).ok
      (moves_between (r.payloadOffset p) 0 r.payload.length) hread
    rw [Nat.sub_self, Nat.add_zero] at hstart
    simp [Payload.custom?, RawSection.custom?, hkind, Decoder.outcome, Cursor.start, hstart,
      Except.toOption]
  · have hnone : pl.custom? = none := by
      rcases Payload.kind?_of_decode h with rfl | hpl
      · rfl
      · cases pl with
        | custom found names => exact absurd (Option.some.inj hpl).symm hkind
        | _ => rfl
    simp [hnone, RawSection.custom?, hkind]

/-- Wherever a section stands, it holds the same. -/
theorem Holds.move {readCode : Bool} {r : RawSection} {p : Nat} {pl : Payload}
    (h : r.Holds readCode p pl) (q : Nat) :
    ∃ pl', r.Holds readCode q pl' ∧ pl'.withoutOffsets = pl.withoutOffsets := by
  have hmoved := h.decode_moved (q := r.payloadOffset q)
    (f := fun x => x - r.payloadOffset p + r.payloadOffset q) fun n _ => by omega
  exact ⟨_, hmoved, Payload.withoutOffsets_mapOffsets _ _⟩

end RawSection

namespace Module

/-- The module with one more section. -/
def addSection (m : Module) (pl : Payload) (s : Section) : Module :=
  { pl.addTo m with sections := (pl.addTo m).sections ++ [s] }

end Module

/-- `m'` is what reading the sections `rs`, the first of which stands at `p`, makes of `m`. -/
inductive Scans (readCode : Bool) : Nat → Module → List RawSection → Module → Prop
  | nil {p : Nat} {m : Module} : Scans readCode p m [] m
  | cons {p : Nat} {m m' : Module} {r : RawSection} {rs : List RawSection} {pl : Payload}
      (first : r.Holds readCode p pl)
      (others : Scans readCode (p + r.bytes.length) (m.addSection pl (r.entry p)) rs m') :
      Scans readCode p m (r :: rs) m'

/-! ## The loop of the reader -/

/-- The header of a section. -/
theorem Section.recognizes_decode : Section.decode.Recognizes fun p bs s =>
    ∃ id sizeBytes size, bs = id :: sizeBytes ∧ U32Form sizeBytes size ∧
      s = ⟨SectionKind.ofId id, size, p, p + 1 + sizeBytes.length⟩ := by
  refine (recognizes_position.bind fun offset => (recognizes_byte.mapError _).bind fun id =>
    (recognizes_u32.mapError _).bind fun size => recognizes_position.bind fun payload =>
    .pure _).congr fun p bs s => ⟨?_, ?_⟩
  · intro h
    obtain ⟨_, _, offset, rfl, ⟨rfl, rfl⟩, _, _, id, rfl, rfl, sizeBytes, _, size, rfl, hsize,
      _, _, payload, rfl, ⟨rfl, rfl⟩, rfl, rfl⟩ := h
    exact ⟨id, sizeBytes, size, by simp, hsize, by simp⟩
  · intro h
    obtain ⟨id, sizeBytes, size, rfl, hsize, rfl⟩ := h
    exact ⟨[], _, p, rfl, ⟨rfl, rfl⟩, [id], sizeBytes, id, rfl, rfl, sizeBytes, [], size, by simp,
      hsize, [], [], p + 1 + sizeBytes.length, rfl, ⟨rfl, by simp⟩, rfl, rfl⟩

/-- The header of a section is read whatever follows it. -/
theorem RawSection.decode_header (r : RawSection) (p : Nat) (rest : Bytes) :
    Section.decode ⟨p, r.id :: (r.sizeBytes ++ rest)⟩ =
      .ok (r.entry p) ⟨r.payloadOffset p, rest⟩ := by
  have hread := Section.recognizes_decode.read (p := p)
    ⟨r.id, r.sizeBytes, r.size, rfl, r.sizeForm, rfl⟩ rest
  rw [List.cons_append] at hread
  rw [hread]
  simp only [entry, kind, payloadOffset, List.length_cons]
  congr 2
  omega

theorem RawSection.skip_payload (r : RawSection) (p : Nat) (rest : Bytes) :
    (⟨r.payloadOffset p, r.payload ++ rest⟩ : Cursor).skip r.payload.length =
      ⟨p + r.bytes.length, rest⟩ := by
  simp only [Cursor.skip, List.drop_left, RawSection.payloadOffset, r.length_bytes]
  congr 1
  omega

/-- A size with enough bytes behind it starts a section. -/
theorem RawSection.exists_of_size (id : UInt8) {sizeBytes s : Bytes} {size : UInt32}
    (hsize : U32Form sizeBytes size) (hlong : ¬(s.take size.toNat).length < size.toNat) :
    ∃ (r : RawSection) (rest : Bytes), id :: sizeBytes ++ s = r.bytes ++ rest := by
  have hlength : (s.take size.toNat).length = size.toNat := by
    have := List.length_take_le size.toNat s
    omega
  refine ⟨⟨id, sizeBytes, s.take size.toNat, ?_⟩, s.drop size.toNat, ?_⟩
  · rw [hlength]
    exact hsize
  · simp [bytes]

/-- A header with enough bytes behind it starts a section. -/
theorem RawSection.exists_of_header {p : Nat} {s : Bytes} {found : Section} {c : Cursor}
    (h : Section.decode ⟨p, s⟩ = .ok found c)
    (hlong : ¬(c.rest.take found.size.toNat).length < found.size.toNat) :
    ∃ (r : RawSection) (rest : Bytes), s = r.bytes ++ rest := by
  obtain ⟨_, rfl, -, id, sizeBytes, size, rfl, hsize, rfl⟩ := Section.recognizes_decode.consumed h
  exact exists_of_size id hsize hlong

namespace Module

/-- What a turn of the loop does behind a header. -/
theorem decodeSections_succ_of_header (readCode : Bool) (bound p : Nat) (m : Module) (b : UInt8)
    (s : Bytes) {found : Section} {c : Cursor} (h : Section.decode ⟨p, b :: s⟩ = .ok found c) :
    decodeSections readCode (bound + 1) m ⟨p, b :: s⟩ =
      if (c.rest.take found.size.toNat).length < found.size.toNat then
        .error (.outOfBounds found c.rest.length) c
      else (do
        let m ← Decoder.within found.size.toNat (m.decodePayload readCode found.kind)
        decodeSections readCode bound { m with sections := m.sections ++ [found] }) c := by
  have hmapped : Section.decode.mapError ModuleError.header ⟨p, b :: s⟩ = .ok found c :=
    (mapError_eq_ok ..).mpr h
  change EStateM.bind (Section.decode.mapError ModuleError.header) _ ⟨p, b :: s⟩ = _
  simp only [EStateM.bind, hmapped]
  have hget (k : Cursor → Decoder ModuleError Module) :
      ((get : Decoder ModuleError Cursor) >>= k) c = k c c := rfl
  rw [hget]
  by_cases hshort : (c.rest.take found.size.toNat).length < found.size.toNat
  · rw [if_pos hshort, if_pos hshort]
    rfl
  · rw [if_neg hshort, if_neg hshort]

/-- The loop ends at a header that cannot be read. -/
theorem decodeSections_succ_of_header_error (readCode : Bool) (bound p : Nat) (m : Module) (b : UInt8)
    (s : Bytes) {e : SectionHeaderError} {c : Cursor} (h : Section.decode ⟨p, b :: s⟩ = .error e c) :
    decodeSections readCode (bound + 1) m ⟨p, b :: s⟩ = .error (.header e) c := by
  have hmapped : Section.decode.mapError ModuleError.header ⟨p, b :: s⟩ = .error (.header e) c := by
    simp [Decoder.mapError, h]
  change EStateM.bind (Section.decode.mapError ModuleError.header) _ ⟨p, b :: s⟩ = _
  simp only [EStateM.bind, hmapped]

/-- A turn of the loop that succeeds takes a section. -/
theorem exists_rawSection {readCode : Bool} {bound p : Nat} {m m' : Module} {b : UInt8} {s : Bytes}
    {c' : Cursor} (h : decodeSections readCode (bound + 1) m ⟨p, b :: s⟩ = .ok m' c') :
    ∃ (r : RawSection) (rest : Bytes), b :: s = r.bytes ++ rest := by
  cases hheader : Section.decode ⟨p, b :: s⟩ with
  | error e c =>
    rw [decodeSections_succ_of_header_error _ _ _ _ _ _ hheader] at h
    cases h
  | ok found c =>
    rw [decodeSections_succ_of_header _ _ _ _ _ _ hheader] at h
    split at h
    · cases h
    · rename_i hlong
      exact RawSection.exists_of_header hheader hlong

/-- A turn of the loop reads the payload of the section and goes on behind it. -/
theorem decodeSections_succ_append (readCode : Bool) (bound p : Nat) (m : Module) (r : RawSection)
    (rest : Bytes) :
    decodeSections readCode (bound + 1) m ⟨p, r.bytes ++ rest⟩ =
      (do
        let m ← Decoder.within r.payload.length (m.decodePayload readCode r.kind)
        decodeSections readCode bound { m with sections := m.sections ++ [r.entry p] })
        ⟨r.payloadOffset p, r.payload ++ rest⟩ := by
  have hlong : ¬((r.payload ++ rest).take r.payload.length).length < r.payload.length := by simp
  have hbytes : r.bytes ++ rest = r.id :: (r.sizeBytes ++ (r.payload ++ rest)) := by
    simp [RawSection.bytes]
  have hstep := decodeSections_succ_of_header readCode bound p m r.id _
    (r.decode_header p (r.payload ++ rest))
  have hsize : (r.entry p).size.toNat = r.payload.length := r.toNat_size
  simp only [hsize, if_neg hlong] at hstep
  rw [hbytes, hstep]
  rfl

/-- A turn of the loop adds the section to the module. -/
theorem decodeSections_succ_bytes (readCode : Bool) (bound p : Nat) (m m' : Module)
    (r : RawSection) (rest : Bytes) (c' : Cursor) :
    decodeSections readCode (bound + 1) m ⟨p, r.bytes ++ rest⟩ = .ok m' c' ↔
      ∃ pl, r.Holds readCode p pl ∧
        decodeSections readCode bound (m.addSection pl (r.entry p)) ⟨p + r.bytes.length, rest⟩ =
          .ok m' c' := by
  simp only [decodeSections_succ_append, bind_eq_ok, Decoder.within_eq_ok, r.skip_payload,
    List.take_left, decodePayload_eq, Decoder.map_eq_ok]
  constructor
  · intro h
    obtain ⟨_, _, ⟨⟨c₁, pl, hpl, rfl⟩, rfl⟩, h⟩ := h
    exact ⟨pl, ⟨c₁, hpl⟩, h⟩
  · intro h
    obtain ⟨pl, ⟨c₁, hpl⟩, h⟩ := h
    exact ⟨_, _, ⟨⟨c₁, pl, hpl, rfl⟩, rfl⟩, h⟩

/-- Behind a section whose payload can be read the loop goes on with what the section adds. -/
theorem decodeSections_of_holds {readCode : Bool} {p : Nat} {r : RawSection} {pl : Payload}
    (h : r.Holds readCode p pl) (bound : Nat) (m : Module) (rest : Bytes) :
    decodeSections readCode (bound + 1) m ⟨p, r.bytes ++ rest⟩ =
      decodeSections readCode bound (m.addSection pl (r.entry p)) ⟨p + r.bytes.length, rest⟩ := by
  obtain ⟨c, h⟩ := h
  have hread : Decoder.within r.payload.length (m.decodePayload readCode r.kind)
      ⟨r.payloadOffset p, r.payload ++ rest⟩ = .ok (pl.addTo m) ⟨p + r.bytes.length, rest⟩ := by
    rw [Decoder.within_eq_ok, r.skip_payload, List.take_left, decodePayload_eq]
    exact ⟨⟨c, (Decoder.map_eq_ok ..).mpr ⟨pl, h, rfl⟩⟩, rfl⟩
  rw [decodeSections_succ_append, Decoder.bind_of_ok hread]
  rfl

end Module

/-- All sections, one behind the other. -/
def RawSection.join (rs : List RawSection) : Bytes := rs.flatMap RawSection.bytes

theorem RawSection.add_length_join_cons (p : Nat) (r : RawSection) (rs : List RawSection) :
    p + (join (r :: rs)).length = p + r.bytes.length + (join rs).length := by
  simp only [join, List.flatMap_cons, List.length_append, Nat.add_assoc]

theorem RawSection.join_append (rs rs' : List RawSection) : join (rs ++ rs') = join rs ++ join rs' :=
  List.flatMap_append

theorem Scans.append_iff {readCode : Bool} {p : Nat} {m m' : Module} {rs rs' : List RawSection} :
    Scans readCode p m (rs ++ rs') m' ↔ ∃ m₁, Scans readCode p m rs m₁ ∧
      Scans readCode (p + (RawSection.join rs).length) m₁ rs' m' := by
  induction rs generalizing p m with
  | nil =>
    constructor
    · intro h
      exact ⟨m, .nil, h⟩
    · intro h
      obtain ⟨_, hnone, h⟩ := h
      cases hnone
      exact h
  | cons r rs ih =>
    rw [RawSection.add_length_join_cons]
    constructor
    · intro h
      cases h with
      | cons first others =>
        obtain ⟨m₁, hfront, hback⟩ := ih.mp others
        exact ⟨m₁, .cons first hfront, hback⟩
    · intro h
      obtain ⟨m₁, hfront, hback⟩ := h
      cases hfront with
      | cons first others => exact .cons first (ih.mpr ⟨m₁, others, hback⟩)

/-- What the sections hold does not depend on the module that they are added to. -/
theorem Scans.exists_from {readCode : Bool} {p : Nat} {m m' : Module} {rs : List RawSection}
    (h : Scans readCode p m rs m') : ∀ n, ∃ n', Scans readCode p n rs n' := by
  induction h with
  | nil => exact fun n => ⟨n, .nil⟩
  | cons first _ ih =>
    intro n
    obtain ⟨n', hn'⟩ := ih (n.addSection _ _)
    exact ⟨n', .cons first hn'⟩

theorem Scans.iff_of_empty {readCode : Bool} {p : Nat} {m m' : Module} :
    (∃ rs, [] = RawSection.join rs ∧ Scans readCode p m rs m') ↔ m = m' := by
  constructor
  · intro h
    obtain ⟨rs, hrs, h⟩ := h
    cases h with
    | nil => rfl
    | cons _ _ => cases hrs
  · rintro rfl
    exact ⟨[], rfl, .nil⟩

/-- The loop of the reader makes a step for each section and ends behind the last. -/
theorem Module.decodeSections_eq_ok_iff (readCode : Bool) (bound : Nat) :
    ∀ (p : Nat) (s : Bytes) (m m' : Module), s.length ≤ bound →
      ((∃ c, decodeSections readCode bound m ⟨p, s⟩ = .ok m' c) ↔
        ∃ rs, s = RawSection.join rs ∧ Scans readCode p m rs m') := by
  have hnil (bound p : Nat) (m m' : Module) :
      (∃ c, decodeSections readCode bound m ⟨p, []⟩ = .ok m' c) ↔ m = m' := by
    have hdone : decodeSections readCode bound m ⟨p, []⟩ = .ok m ⟨p, []⟩ := by
      cases bound <;> rfl
    simp [hdone]
  induction bound with
  | zero =>
    intro p s m m' hs
    obtain rfl := List.length_eq_zero_iff.mp (Nat.le_zero.mp hs)
    rw [hnil, Scans.iff_of_empty]
  | succ bound ih =>
    intro p s m m' hs
    cases s with
    | nil => rw [hnil, Scans.iff_of_empty]
    | cons b s =>
      constructor
      · intro h
        obtain ⟨c, h⟩ := h
        obtain ⟨r, rest, hbs⟩ := exists_rawSection h
        rw [hbs] at h hs ⊢
        obtain ⟨pl, hpl, h⟩ := (decodeSections_succ_bytes ..).mp h
        -- A section has a byte at least, so what is left of the file stays within the bound.
        have hrest : rest.length ≤ bound := by
          rw [List.length_append, r.length_bytes] at hs
          omega
        obtain ⟨rs, rfl, hscan⟩ := (ih _ _ _ _ hrest).mp ⟨c, h⟩
        exact ⟨r :: rs, rfl, .cons hpl hscan⟩
      · intro h
        obtain ⟨rs, hbs, hscan⟩ := h
        cases hscan with
        | nil => cases hbs
        | @cons _ _ _ r rs pl hpl hscan =>
          have hjoin : RawSection.join (r :: rs) = r.bytes ++ RawSection.join rs := rfl
          rw [hbs, hjoin] at hs ⊢
          have hrest : (RawSection.join rs).length ≤ bound := by
            rw [List.length_append, r.length_bytes] at hs
            omega
          obtain ⟨c, h⟩ := (ih _ _ _ _ hrest).mpr ⟨rs, rfl, hscan⟩
          exact ⟨c, (decodeSections_succ_bytes ..).mpr ⟨pl, hpl, h⟩⟩

/-! ## Files -/

/-- The bytes in front of the sections. -/
def Module.preamble (version : UInt32) : Bytes :=
  Module.magic ++ Bytes.littleEndian 4 version.toNat

theorem Module.length_preamble (version : UInt32) : (preamble version).length = 8 := by
  simp [preamble, magic]

theorem Module.recognizes_decodePreamble :
    decodePreamble.Recognizes (.fixed fun bs version => bs = preamble version) := by
  refine Recognizes.congr (((recognizes_take 4).mapError _).bind fun magic =>
    .ite (fun _ => ((recognizes_take 4).mapError _).bind fun version => .pure _)
      fun _ => .throw _) fun p bs version => ⟨?_, ?_⟩
  · intro h
    rcases h with ⟨_, _, magic, rfl, rfl, ⟨hmagic, _, _, stored, rfl, rfl, rfl, rfl⟩ | ⟨-, hf⟩⟩
    · obtain ⟨stored, hstored⟩ := stored
      have hlt := Bytes.ofLittleEndian_lt stored
      have hle := Bytes.littleEndian_ofLittleEndian stored
      rw [hstored] at hlt hle
      have hversion : (UInt32.ofNat (Bytes.ofLittleEndian stored)).toNat =
          Bytes.ofLittleEndian stored := UInt32.toNat_ofNat_of_lt' hlt
      change _ = preamble _
      simp only [preamble, hversion, hle, hmagic, List.append_nil]
    · exact hf.elim
  · rintro rfl
    have hversion : Bytes.ofLittleEndian (Bytes.littleEndian 4 version.toNat) = version.toNat :=
      Bytes.ofLittleEndian_littleEndian 4 _ version.toNat_lt
    refine ⟨magic, _, ⟨magic, rfl⟩, rfl, rfl, .inl ⟨rfl, _, [],
      ⟨Bytes.littleEndian 4 version.toNat, by simp⟩, by simp, rfl, rfl, ?_⟩⟩
    simp [hversion]

/-- A file is read exactly if it is a preamble and sections whose payloads can be read. -/
theorem Module.decode_eq_ok_iff (readCode : Bool) (file : Bytes) (m : Module) :
    decode readCode file = .ok m ↔ ∃ version rs, file = preamble version ++ RawSection.join rs ∧
      Scans readCode 8 { source := file, version } rs m := by
  simp only [decode, Decoder.outcome_eq_ok, bind_eq_ok, mapError_eq_ok, Cursor.start]
  constructor
  · intro h
    obtain ⟨c', version, ⟨q, s⟩, hpreamble, hsections⟩ := h
    obtain ⟨_, rfl, hq, rfl⟩ := recognizes_decodePreamble.consumed hpreamble
    simp only [length_preamble, Nat.zero_add] at hq
    subst hq
    obtain ⟨rs, rfl, hscan⟩ := (decodeSections_eq_ok_iff _ _ _ _ _ _ (by simp)).mp ⟨c', hsections⟩
    exact ⟨version, rs, rfl, hscan⟩
  · intro h
    obtain ⟨version, rs, rfl, hscan⟩ := h
    have hpreamble := recognizes_decodePreamble.read (p := 0) (a := version) rfl (RawSection.join rs)
    rw [length_preamble, Nat.zero_add] at hpreamble
    obtain ⟨c', hsections⟩ := (decodeSections_eq_ok_iff readCode
      (preamble version ++ RawSection.join rs).length _ _ _ _ (by simp)).mpr ⟨rs, rfl, hscan⟩
    exact ⟨c', version, _, hpreamble, hsections⟩

section

variable {P : Module → Prop} {readCode : Bool}

theorem Scans.invariant {p : Nat} {m m' : Module} {rs : List RawSection}
    (h : Scans readCode p m rs m') (hm : P m)
    (keeps : ∀ {n : Module} {r : RawSection} {q : Nat} {pl : Payload}, P n → r.Holds readCode q pl →
      P (n.addSection pl (r.entry q))) : P m' := by
  induction h with
  | nil => exact hm
  | cons first _ ih => exact ih (keeps hm first)

/-- What holds of a module without sections, and is kept with every section that is read, holds of every
module that was read. -/
theorem Module.invariant_of_decode {file : Bytes} {m : Module} (h : decode readCode file = .ok m)
    (start : ∀ version, P { source := file, version })
    (keeps : ∀ {n : Module} {r : RawSection} {q : Nat} {pl : Payload}, P n → r.Holds readCode q pl →
      P (n.addSection pl (r.entry q))) : P m := by
  obtain ⟨version, rs, -, hscan⟩ := (decode_eq_ok_iff ..).mp h
  exact hscan.invariant (start version) keeps

end

/-! ## The section table -/

/-- The entries for sections the first of which stands at `p`. -/
def RawSection.entries : Nat → List RawSection → List Section
  | _, [] => []
  | p, r :: rs => r.entry p :: entries (p + r.bytes.length) rs

theorem Payload.addTo_places (m : Module) (pl : Payload) : (pl.addTo m).source = m.source ∧
    (pl.addTo m).version = m.version ∧ (pl.addTo m).sections = m.sections := by
  cases pl with
  | custom found names => cases names <;> exact ⟨rfl, rfl, rfl⟩
  | _ => exact ⟨rfl, rfl, rfl⟩

/-- What can be replaced changes only with a payload of its kind. -/
theorem Payload.addTo_of_kind? (m : Module) (pl : Payload) :
    (pl.kind? ≠ some .global → (pl.addTo m).globals = m.globals) ∧
      (pl.kind? ≠ some .data → (pl.addTo m).datas = m.datas) ∧
      (pl.kind? ≠ some .dataCount → (pl.addTo m).dataCount = m.dataCount) := by
  cases pl with
  | custom found names => cases names <;> exact ⟨fun _ => rfl, fun _ => rfl, fun _ => rfl⟩
  | globals found => exact ⟨fun h => absurd rfl h, fun _ => rfl, fun _ => rfl⟩
  | datas found => exact ⟨fun _ => rfl, fun h => absurd rfl h, fun _ => rfl⟩
  | dataCount count => exact ⟨fun _ => rfl, fun _ => rfl, fun h => absurd rfl h⟩
  | _ => exact ⟨fun _ => rfl, fun _ => rfl, fun _ => rfl⟩

/-- Reading sections keeps the source and the version, and lists the sections in order. -/
theorem Scans.places {readCode : Bool} {p : Nat} {m m' : Module} {rs : List RawSection}
    (h : Scans readCode p m rs m') : m'.source = m.source ∧ m'.version = m.version ∧
      m'.sections = m.sections ++ RawSection.entries p rs := by
  induction h with
  | nil => exact ⟨rfl, rfl, by simp [RawSection.entries]⟩
  | @cons p m m' r rs pl _ _ ih =>
    obtain ⟨hsource, hversion, hsections⟩ := ih
    obtain ⟨hsource', hversion', hsections'⟩ := pl.addTo_places m
    refine ⟨hsource.trans hsource', hversion.trans hversion', ?_⟩
    rw [hsections]
    simp only [Module.addSection, hsections', RawSection.entries, List.append_assoc,
      List.singleton_append]

/-- What is behind a module that was read: its file, the run over its sections, and its table. -/
theorem Module.exists_scans_of_decode {readCode : Bool} {file : Bytes} {m : Module}
    (hm : decode readCode file = .ok m) :
    ∃ version rs, file = preamble version ++ RawSection.join rs ∧
      Scans readCode 8 { source := file, version } rs m ∧ m.sections = RawSection.entries 8 rs := by
  obtain ⟨version, rs, hfile, hscan⟩ := (decode_eq_ok_iff ..).mp hm
  exact ⟨version, rs, hfile, hscan, hscan.places.2.2⟩

/-- Reading sections lists the custom sections in order. -/
theorem Scans.customs {readCode : Bool} {p : Nat} {m m' : Module} {rs : List RawSection}
    (h : Scans readCode p m rs m') : m'.customs = m.customs ++ rs.filterMap RawSection.custom? := by
  induction h with
  | nil => simp
  | @cons p m m' r rs pl first _ ih =>
    have hadded : (m.addSection pl (r.entry p)).customs = m.customs ++ r.custom?.toList := by
      rw [← first.custom?.1]
      exact pl.customs_addTo m
    rw [ih, hadded]
    cases hcustom : r.custom? <;> simp [hcustom]

namespace RawSection

@[simp] theorem kind_entry (r : RawSection) (p : Nat) : (r.entry p).kind = r.kind := rfl

/-- An entry gives back the bytes of its section. -/
theorem raw?_entry (r : RawSection) (front back : Bytes) :
    (r.entry front.length).raw? (front ++ (r.bytes ++ back)) = some r.bytes := by
  rw [Section.raw?, stop_entry]
  exact Bytes.slice?_eq_some_iff.mpr ⟨front, back, rfl, rfl, rfl⟩

theorem map_kind_entries (rs : List RawSection) : ∀ p, (entries p rs).map (·.kind) = rs.map kind := by
  induction rs with
  | nil => exact fun _ => rfl
  | cons r rs ih => exact fun p => congrArg (r.kind :: ·) (ih _)

theorem length_customs {readCode : Bool} {p : Nat} {m m' : Module} {rs : List RawSection}
    (h : Scans readCode p m rs m') :
    (rs.filterMap custom?).length = (entries p rs).countP (·.kind = .custom) := by
  induction h with
  | nil => rfl
  | @cons p m m' r rs pl first _ ih =>
    have hkind : (r.entry p).kind = r.kind := rfl
    have hcustom := first.custom?.2
    rw [entries, List.countP_cons, hkind, ← hcustom, ← ih]
    cases hfound : r.custom? <;> simp [hfound]

/-- Every entry of a table gives back the bytes of its section. -/
theorem map_raw?_entries (rs : List RawSection) : ∀ front back : Bytes,
    (entries front.length rs).map (·.raw? (front ++ (join rs ++ back))) = rs.map (some ·.bytes) := by
  induction rs with
  | nil => exact fun _ _ => rfl
  | cons r rs ih =>
    intro front back
    have hjoin : join (r :: rs) = r.bytes ++ join rs := rfl
    have hrest := ih (front ++ r.bytes) back
    rw [List.length_append] at hrest
    rw [entries, List.map_cons, List.map_cons, hjoin, List.append_assoc, raw?_entry]
    simpa using hrest

/-- An entry of a table is that of the section at its place. -/
theorem raw?_of_getElem? {rs : List RawSection} {front : Bytes} {i : Nat} {s : Section}
    (h : (entries front.length rs)[i]? = some s) :
    ∃ r, rs[i]? = some r ∧ s.kind = r.kind ∧ s.raw? (front ++ join rs) = some r.bytes := by
  have hkinds := congrArg (·[i]?) (map_kind_entries rs front.length)
  have hraws := congrArg (·[i]?) (map_raw?_entries rs front [])
  simp only [List.getElem?_map, h, Option.map_some, List.append_nil] at hkinds hraws
  obtain ⟨r, hr, hraw⟩ := Option.map_eq_some_iff.mp hraws.symm
  rw [hr] at hkinds
  exact ⟨r, hr, Option.some.inj hkinds, hraw.symm⟩

end RawSection

namespace Module

theorem hasSection_addSection (m : Module) (pl : Payload) (s : Section) (kind : SectionKind) :
    (m.addSection pl s).hasSection kind = (m.hasSection kind || s.kind = kind) := by
  simp [Module.hasSection, Module.addSection, (pl.addTo_places m).2.2]

/-- The sections are of the same kinds in the same order. Those of the kinds kept are the same bytes,
headers included. -/
structure SameSections (kept : SectionKind → Prop) (m m' : Module) : Prop where
  kinds : m'.sections.map (·.kind) = m.sections.map (·.kind)
  raw (i : Nat) (s s' : Section) (hs : m.sections[i]? = some s) (hs' : m'.sections[i]? = some s')
    (hkept : kept s.kind) : ∃ raw, s.raw? m.source = some raw ∧ s'.raw? m'.source = some raw

theorem SameSections.mono {kept kept' : SectionKind → Prop} {m m' : Module}
    (h : m.SameSections kept m') (hkept : ∀ kind, kept' kind → kept kind) : m.SameSections kept' m' :=
  ⟨h.kinds, fun i s s' hs hs' hs'' => h.raw i s s' hs hs' (hkept _ hs'')⟩

theorem SameSections.hasSection {kept : SectionKind → Prop} {m m' : Module}
    (h : m.SameSections kept m') (kind : SectionKind) : m'.hasSection kind = m.hasSection kind := by
  have hany (m : Module) :
      m.hasSection kind = (m.sections.map (·.kind)).any fun k => decide (k = kind) := by
    rw [List.any_map]
    rfl
  rw [hany, hany, h.kinds]

/-- The module has entities only of which it has a section. This is about those that can be
replaced. -/
structure Sectioned (m : Module) : Prop where
  globals (h : m.hasSection .global = false) : m.globals = []
  datas (h : m.hasSection .data = false) : m.datas = []
  dataCount (h : m.hasSection .dataCount = false) : m.dataCount = none

theorem Sectioned.hasSection_global {m : Module} (hm : m.Sectioned) {i : Nat}
    (h : i < m.globals.length) : m.hasSection .global = true := by
  cases hnone : m.hasSection .global with
  | true => rfl
  | false => simp [hm.globals hnone] at h

theorem Sectioned.hasSection_data {m : Module} (hm : m.Sectioned) {i : Nat}
    (h : i < m.datas.length) : m.hasSection .data = true := by
  cases hnone : m.hasSection .data with
  | true => rfl
  | false => simp [hm.datas hnone] at h

theorem Sectioned.addSection {m : Module} (hm : m.Sectioned) {pl : Payload} {s : Section}
    (h : pl = .skipped ∨ pl.kind? = some s.kind) : (m.addSection pl s).Sectioned := by
  have hother (kind : SectionKind) (hnone : (m.addSection pl s).hasSection kind = false) :
      m.hasSection kind = false ∧ pl.kind? ≠ some kind := by
    rw [hasSection_addSection, Bool.or_eq_false_iff, decide_eq_false_iff_not] at hnone
    refine ⟨hnone.1, fun hkind => ?_⟩
    rcases h with rfl | h
    · cases hkind
    · rw [hkind] at h
      exact hnone.2 (Option.some.inj h).symm
  obtain ⟨hglobals, hdatas, hcount⟩ := pl.addTo_of_kind? m
  constructor
  · intro hnone
    obtain ⟨hbefore, hkind⟩ := hother _ hnone
    exact (hglobals hkind).trans (hm.globals hbefore)
  · intro hnone
    obtain ⟨hbefore, hkind⟩ := hother _ hnone
    exact (hdatas hkind).trans (hm.datas hbefore)
  · intro hnone
    obtain ⟨hbefore, hkind⟩ := hother _ hnone
    exact (hcount hkind).trans (hm.dataCount hbefore)

end Module

theorem Module.sectioned_of_decode {readCode : Bool} {file : Bytes} {m : Module}
    (h : decode readCode file = .ok m) : m.Sectioned := by
  refine invariant_of_decode h (fun _ => ⟨fun _ => rfl, fun _ => rfl, fun _ => rfl⟩) ?_
  intro n r q pl hn hpl
  obtain ⟨c, hread⟩ := hpl
  exact hn.addSection (Payload.kind?_of_decode hread)

/-! ## Without the code -/

namespace Module

/-- The module without what the Code section gives. -/
def withoutCode (m : Module) : Module := { m with codes := [] }

end Module

/-- Only of a Code section it makes a difference whether the code is to be read. -/
theorem Payload.decode_of_ne_code {kind : SectionKind} (h : kind ≠ .code) (readCode : Bool) :
    Payload.decode readCode kind = Payload.decode false kind := by
  cases kind with
  | code => exact absurd rfl h
  | _ => rfl

theorem RawSection.Holds.withoutCode {readCode : Bool} {r : RawSection} {p : Nat} {pl : Payload}
    (h : r.Holds readCode p pl) : ∃ pl', r.Holds false p pl' ∧
      ∀ m : Module, pl'.addTo m.withoutCode = (pl.addTo m).withoutCode := by
  obtain ⟨c, h⟩ := h
  by_cases hkind : r.kind = .code
  · have hskipped : pl = .skipped ∨ ∃ codes, pl = .codes codes := by
      rw [hkind] at h
      cases readCode with
      | false =>
        cases h
        exact .inl rfl
      | true =>
        obtain ⟨codes, -, rfl⟩ := (Decoder.map_eq_ok ..).mp h
        exact .inr ⟨codes, rfl⟩
    refine ⟨.skipped, ⟨⟨r.payloadOffset p, r.payload⟩, ?_⟩, fun m => ?_⟩
    · rw [hkind]
      rfl
    · rcases hskipped with rfl | ⟨codes, rfl⟩ <;> rfl
  · have hsame := Payload.decode_of_ne_code hkind readCode
    refine ⟨pl, ⟨c, hsame ▸ h⟩, fun m => ?_⟩
    cases pl with
    | custom found names => cases names <;> rfl
    | codes found =>
      rcases Payload.kind?_of_decode h with hp | hp
      · cases hp
      · exact absurd (Option.some.inj hp).symm hkind
    | _ => rfl

/-- If the sections can be read with the code, they can be read without it. -/
theorem Scans.withoutCode {readCode : Bool} {p : Nat} {m m' : Module} {rs : List RawSection}
    (h : Scans readCode p m rs m') : Scans false p m.withoutCode rs m'.withoutCode := by
  induction h with
  | nil => exact .nil
  | @cons p m m' r rs pl first _ ih =>
    obtain ⟨pl', hpl', hadd⟩ := first.withoutCode
    refine .cons hpl' ?_
    have hstep : m.withoutCode.addSection pl' (r.entry p) =
        (m.addSection pl (r.entry p)).withoutCode := by
      simp only [Module.addSection, hadd]
      rfl
    rw [hstep]
    exact ih

theorem Module.decode_withoutCode {readCode : Bool} {file : Bytes} {m : Module}
    (hm : decode readCode file = .ok m) : decode false file = .ok m.withoutCode := by
  obtain ⟨version, rs, hfile, hscan⟩ := (decode_eq_ok_iff ..).mp hm
  exact (decode_eq_ok_iff ..).mpr ⟨version, rs, hfile, hscan.withoutCode⟩

end WasmBinary
