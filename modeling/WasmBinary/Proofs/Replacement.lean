import WasmBinary.Proofs.Roundtrip
import WasmBinary.Proofs.Scan

/-!
# Modules with replaced sections

What `Encoder.module` writes, and what reading it gives. Every section of a kind that is replaced
becomes a section of the same kind with the new payload; every other section is copied. Sections then
stand at other places than before, which changes offsets and nothing else.

* `Encoder.writes_module`: the bytes written, and when writing fails.
* `Replacements.holds_raw`: what a section holds after the replacement, wherever it stands.
* `Scans.replace`: reading the new sections step by step keeps up with reading the old ones.
* `Encoder.decode_module`: the module that is read from the output.
-/
namespace WasmBinary

open Leb128 (encodeUnsigned isUnsigned_encodeUnsigned u32Form_encodeUnsigned)
open Writer (Writes)

namespace Encoder

namespace Replacements

/-- The payload that replaces those of a kind. -/
def payload? (r : Replacements) : SectionKind → Option Bytes
  | .global => r.globals.map (vectorLayout Global.layout)
  | .data => r.datas.map (vectorLayout DataSegment.layout)
  | .dataCount => r.dataCount.map fun count => encodeUnsigned count.toNat
  | _ => none

/-- Whether a section can be written, and why not. -/
def check (r : Replacements) (file : Bytes) (s : Section) : Except EncodeError Unit :=
  match s.kind, r.globals, r.datas, r.dataCount with
  | .global, some globals, _, _ => (fun _ => ()) <$> globalSectionLength globals
  | .data, _, some datas, _ => (fun _ => ()) <$> dataSectionLength datas
  | .dataCount, _, _, some _ => .ok ()
  | _, _, _, _ =>
    match s.raw? file with
    | some _ => .ok ()
    | none => .error .outOfFile

/-- The bytes of a section or of what replaces it. -/
def bytes (r : Replacements) (file : Bytes) (s : Section) : Bytes :=
  match r.payload? s.kind with
  | some payload => sectionLayout s.kind payload
  | none => (s.raw? file).getD []

end Replacements

/-- What is written for a section. -/
theorem sectionOf_cases (m : Module) (r : Replacements) (s : Section) :
    (s.kind = .global ∧ ∃ globals, r.globals = some globals ∧
      sectionOf m r s = globalSection globals ∧
      ∀ file, r.check file s = (fun _ => ()) <$> globalSectionLength globals) ∨
    (s.kind = .data ∧ ∃ datas, r.datas = some datas ∧ sectionOf m r s = dataSection datas ∧
      ∀ file, r.check file s = (fun _ => ()) <$> dataSectionLength datas) ∨
    (s.kind = .dataCount ∧ ∃ count, r.dataCount = some count ∧
      sectionOf m r s = dataCountSection count ∧ ∀ file, r.check file s = .ok ()) ∨
    (r.payload? s.kind = none ∧ sectionOf m r s = copySection m.source s ∧
      ∀ file, r.check file s =
        match s.raw? file with
        | some _ => .ok ()
        | none => .error .outOfFile) := by
  obtain ⟨globals, datas, dataCount⟩ := r
  obtain ⟨kind, size, offset, payload⟩ := s
  cases kind with
  | global =>
    cases globals with
    | some globals => exact .inl ⟨rfl, globals, rfl, rfl, fun _ => rfl⟩
    | none => exact .inr (.inr (.inr ⟨rfl, rfl, fun _ => rfl⟩))
  | data =>
    cases datas with
    | some datas => exact .inr (.inl ⟨rfl, datas, rfl, rfl, fun _ => rfl⟩)
    | none => exact .inr (.inr (.inr ⟨rfl, rfl, fun _ => rfl⟩))
  | dataCount =>
    cases dataCount with
    | some count => exact .inr (.inr (.inl ⟨rfl, count, rfl, rfl, fun _ => rfl⟩))
    | none => exact .inr (.inr (.inr ⟨rfl, rfl, fun _ => rfl⟩))
  | _ => exact .inr (.inr (.inr ⟨rfl, rfl, fun _ => rfl⟩))

theorem length_encodeUnsigned_lt (n : UInt32) :
    (encodeUnsigned n.toNat).length < UInt32.size :=
  Nat.lt_of_le_of_lt (u32Form_encodeUnsigned n).length_le (by decide)

theorem writes_sectionHeader (kind : SectionKind) {payload : Bytes}
    (h : payload.length < UInt32.size) :
    Writes .sinkFull (sectionHeader kind (UInt32.ofNat payload.length))
      (kind.id :: encodeUnsigned payload.length) (.ok ()) :=
  (writes_byte kind.id).bind (writes_length h)

theorem writes_dataCountSection (count : UInt32) :
    Writes .sinkFull (dataCountSection count)
      (sectionLayout .dataCount (encodeUnsigned count.toNat)) (.ok ()) := by
  rw [dataCountSection, ← Leb128.length_encodeUnsigned]
  exact (writes_sectionHeader .dataCount (length_encodeUnsigned_lt count)).bind (writes_u32 count)

theorem writes_globalSection (globals : List Global) :
    (∀ size, globalSectionLength globals = .ok size → Writes .sinkFull (globalSection globals)
      (sectionLayout .global (vectorLayout Global.layout globals)) (.ok ())) ∧
    ∀ e, globalSectionLength globals = .error e →
      Writes .sinkFull (globalSection globals) [] (.error e) :=
  writes_vectorSection (fun _ _ => globalLength_eq_ok_iff) (fun _ => writes_global) _ _

theorem writes_dataSection (datas : List DataSegment) :
    (∀ size, dataSectionLength datas = .ok size → Writes .sinkFull (dataSection datas)
      (sectionLayout .data (vectorLayout DataSegment.layout datas)) (.ok ())) ∧
    ∀ e, dataSectionLength datas = .error e →
      Writes .sinkFull (dataSection datas) [] (.error e) :=
  writes_vectorSection (fun _ _ => dataSegmentLength_eq_ok_iff)
    (fun _ h => writes_dataSegment h.1 h.2) _ _

theorem writes_of_length {w : Encoder Unit} {bs : Bytes} {length : Except EncodeError UInt32}
    (h : (∀ size, length = .ok size → Writes .sinkFull w bs (.ok ())) ∧
      ∀ e, length = .error e → Writes .sinkFull w [] (.error e)) :
    ((fun _ => ()) <$> length = .ok () → Writes .sinkFull w bs (.ok ())) ∧
      ∀ e, (fun _ => ()) <$> length = .error e → Writes .sinkFull w [] (.error e) := by
  cases length with
  | ok size =>
    refine ⟨fun _ => h.1 size rfl, fun e he => ?_⟩
    cases he
  | error e =>
    refine ⟨fun he => ?_, fun e' he' => ?_⟩
    · cases he
    · cases he'
      exact h.2 e rfl

/-- A section is written if the check says so. Otherwise nothing is. -/
theorem writes_sectionOf (m : Module) (r : Replacements) (s : Section) :
    (r.check m.source s = .ok () →
      Writes .sinkFull (sectionOf m r s) (r.bytes m.source s) (.ok ())) ∧
    ∀ e, r.check m.source s = .error e → Writes .sinkFull (sectionOf m r s) [] (.error e) := by
  rcases sectionOf_cases m r s with ⟨hkind, globals, hglobals, hsection, hcheck⟩ |
    ⟨hkind, datas, hdatas, hsection, hcheck⟩ | ⟨hkind, count, hcount, hsection, hcheck⟩ |
    ⟨hpayload, hsection, hcheck⟩
  · have hbytes : r.bytes m.source s =
        sectionLayout .global (vectorLayout Global.layout globals) := by
      simp [Replacements.bytes, Replacements.payload?, hkind, hglobals]
    rw [hsection, hcheck, hbytes]
    exact writes_of_length (writes_globalSection globals)
  · have hbytes : r.bytes m.source s =
        sectionLayout .data (vectorLayout DataSegment.layout datas) := by
      simp [Replacements.bytes, Replacements.payload?, hkind, hdatas]
    rw [hsection, hcheck, hbytes]
    exact writes_of_length (writes_dataSection datas)
  · have hbytes : r.bytes m.source s =
        sectionLayout .dataCount (encodeUnsigned count.toNat) := by
      simp [Replacements.bytes, Replacements.payload?, hkind, hcount]
    rw [hsection, hcheck, hbytes]
    refine ⟨fun _ => writes_dataCountSection count, fun e he => ?_⟩
    cases he
  · rw [hsection, hcheck]
    simp only [copySection, Replacements.bytes, hpayload]
    cases s.raw? m.source with
    | some raw =>
      refine ⟨fun _ => writes_bytes raw, fun e he => ?_⟩
      cases he
    | none =>
      refine ⟨fun h => ?_, fun e he => ?_⟩
      · cases h
      · cases he
        exact .throw _

theorem writes_header (version : UInt32) :
    Writes .sinkFull (header version) (Module.preamble version) (.ok ()) :=
  (writes_bytes _).bind (writes_bytes _)

/-- The header and the sections up to the first that cannot be written. -/
theorem writes_module (m : Module) (r : Replacements) :
    Writes .sinkFull (Encoder.module m r)
      (Module.preamble m.version ++
        (m.sections.takeWhile fun s => (r.check m.source s).isOk).flatMap (r.bytes m.source))
      (m.sections.forM (r.check m.source)) :=
  (writes_header m.version).bind (.forM m.sections (fun s _ => (writes_sectionOf m r s).1)
    fun s _ => (writes_sectionOf m r s).2)

end Encoder

/-! ## The new sections -/

theorem SectionKind.id_ofId (id : UInt8) : (ofId id).id = id := by
  have hknown : ∀ i < 14, known[i]?.map (·.1.id) = some (UInt8.ofNat i) := by decide
  unfold ofId
  cases hentry : known[id.toNat]? with
  | none => rfl
  | some entry =>
    have hlt : id.toNat < 14 := (List.getElem?_eq_some_iff.mp hentry).1
    have hid := hknown _ hlt
    rw [hentry] at hid
    simpa using hid

/-- The section with another payload, its size in the shortest form. -/
def RawSection.withPayload (s : RawSection) (payload : Bytes) (h : payload.length < UInt32.size) :
    RawSection :=
  ⟨s.id, encodeUnsigned payload.length, payload, isUnsigned_encodeUnsigned (by decide) _ h⟩

namespace Encoder.Replacements

/-- What is in the place of a section. -/
def raw (r : Replacements) (s : RawSection) : RawSection :=
  match r.payload? s.kind with
  | some payload => if h : payload.length < UInt32.size then s.withPayload payload h else s
  | none => s

/-- The entities that replace those of a section of the given kind can be written. -/
def Writable (r : Replacements) : SectionKind → Prop
  | .global => ∀ globals, r.globals = some globals → globals.length < UInt32.size ∧
      (∀ g ∈ globals, g.Encodable) ∧ (vectorLayout Global.layout globals).length < UInt32.size
  | .data => ∀ datas, r.datas = some datas → datas.length < UInt32.size ∧
      (∀ d ∈ datas, d.Encodable ∧ d.init.length < UInt32.size) ∧
      (vectorLayout DataSegment.layout datas).length < UInt32.size
  | _ => True

theorem writable_of_check {r : Replacements} {file : Bytes} {s : Section}
    (h : r.check file s = .ok ()) : r.Writable s.kind := by
  obtain ⟨kind, size, offset, payload⟩ := s
  cases kind with
  | global =>
    intro globals hglobals
    simp only [check, hglobals, Except.map_eq_ok] at h
    obtain ⟨size, hsize, -⟩ := h
    obtain ⟨hcount, hitems, hlength⟩ :=
      (vectorLength_eq_ok_iff (fun _ _ => globalLength_eq_ok_iff) _ _).mp hsize
    exact ⟨hcount, hitems, hlength ▸ size.toNat_lt⟩
  | data =>
    intro datas hdatas
    simp only [check, hdatas, Except.map_eq_ok] at h
    obtain ⟨size, hsize, -⟩ := h
    obtain ⟨hcount, hitems, hlength⟩ :=
      (vectorLength_eq_ok_iff (fun _ _ => dataSegmentLength_eq_ok_iff) _ _).mp hsize
    exact ⟨hcount, hitems, hlength ▸ size.toNat_lt⟩
  | _ => trivial

theorem Writable.payload_lt {r : Replacements} {kind : SectionKind} (h : r.Writable kind)
    {payload : Bytes} (hpayload : r.payload? kind = some payload) :
    payload.length < UInt32.size := by
  cases kind with
  | global =>
    obtain ⟨globals, hglobals, rfl⟩ := Option.map_eq_some_iff.mp hpayload
    exact (h globals hglobals).2.2
  | data =>
    obtain ⟨datas, hdatas, rfl⟩ := Option.map_eq_some_iff.mp hpayload
    exact (h datas hdatas).2.2
  | dataCount =>
    obtain ⟨count, hcount, rfl⟩ := Option.map_eq_some_iff.mp hpayload
    exact length_encodeUnsigned_lt count
  | _ => cases hpayload

@[simp] theorem kind_raw (r : Replacements) (s : RawSection) : (r.raw s).kind = s.kind := by
  unfold raw
  split
  · split <;> rfl
  · rfl

theorem raw_of_payload?_eq_none {r : Replacements} {s : RawSection} (h : r.payload? s.kind = none) :
    r.raw s = s := by
  simp only [raw, h]

theorem raw_of_payload?_eq_some {r : Replacements} {s : RawSection} (h : r.Writable s.kind)
    {payload : Bytes} (hpayload : r.payload? s.kind = some payload) :
    r.raw s = s.withPayload payload (h.payload_lt hpayload) := by
  simp only [raw, hpayload, dif_pos (h.payload_lt hpayload)]

/-- The bytes written for a section are those of what is in its place. -/
theorem bytes_entry {r : Replacements} {s : RawSection} (h : r.Writable s.kind)
    (front back : Bytes) :
    r.bytes (front ++ (s.bytes ++ back)) (s.entry front.length) = (r.raw s).bytes := by
  cases hpayload : r.payload? s.kind with
  | none => simp only [bytes, RawSection.kind_entry, hpayload, raw, s.raw?_entry, Option.getD_some]
  | some payload =>
    rw [raw_of_payload?_eq_some h hpayload]
    simp only [bytes, RawSection.kind_entry, hpayload]
    change (SectionKind.ofId s.id).id :: _ = s.id :: _
    rw [SectionKind.id_ofId]
    rfl

/-- The bytes written for all sections. -/
theorem flatMap_bytes_entries {r : Replacements} (rs : List RawSection)
    (h : ∀ s ∈ rs, r.Writable s.kind) : ∀ front back : Bytes,
    (RawSection.entries front.length rs).flatMap
      (r.bytes (front ++ (RawSection.join rs ++ back))) = RawSection.join (rs.map r.raw) := by
  induction rs with
  | nil => exact fun _ _ => rfl
  | cons s rs ih =>
    intro front back
    have hjoin : RawSection.join (s :: rs) = s.bytes ++ RawSection.join rs := rfl
    have hrest := ih (fun t ht => h t (.tail s ht)) (front ++ s.bytes) back
    rw [List.length_append, List.append_assoc, ← List.append_assoc s.bytes] at hrest
    rw [RawSection.entries, List.flatMap_cons, hjoin, hrest, List.append_assoc,
      bytes_entry (h s (.head rs))]
    rfl

/-! ## What the new sections hold -/

/-- What a section of a kind holds once it is replaced, if it held `pl`. -/
def payload (r : Replacements) (kind : SectionKind) (pl : Payload) : Payload :=
  match kind, r.globals, r.datas, r.dataCount with
  | .global, some globals, _, _ => .globals globals
  | .data, _, some datas, _ => .datas datas
  | .dataCount, _, _, some count => .dataCount count
  | _, _, _, _ => pl

theorem payload_of_payload?_eq_none {r : Replacements} {kind : SectionKind}
    (h : r.payload? kind = none) (pl : Payload) : r.payload kind pl = pl := by
  obtain ⟨globals, datas, dataCount⟩ := r
  cases kind with
  | global => cases globals with
    | none => rfl
    | some globals => cases h
  | data => cases datas with
    | none => rfl
    | some datas => cases h
  | dataCount => cases dataCount with
    | none => rfl
    | some count => cases h
  | _ => rfl

/-- The payload that replaces those of a kind reads back, whatever the position. -/
theorem exists_decode {r : Replacements} {kind : SectionKind} (h : r.Writable kind) {bs : Bytes}
    (hpayload : r.payload? kind = some bs) (readCode : Bool) (pl : Payload) (q : Nat) :
    ∃ pl' c, Payload.decode readCode kind ⟨q, bs⟩ = .ok pl' c ∧
      pl'.withoutOffsets = (r.payload kind pl).withoutOffsets := by
  rw [← List.append_nil bs]
  cases kind with
  | global =>
    obtain ⟨globals, hglobals, rfl⟩ := Option.map_eq_some_iff.mp hpayload
    obtain ⟨hcount, hencodable, -⟩ := h globals hglobals
    obtain ⟨found, hread, -, hsame⟩ := exists_read_layout Global.recognizes_decode
      (fun _ => Global.form_layout) Global.withoutOffsets_placed hencodable hcount q []
    refine ⟨.globals found, _, (Decoder.map_eq_ok ..).mpr
      ⟨found, (Decoder.mapError_eq_ok ..).mpr hread, rfl⟩, ?_⟩
    simp only [payload, hglobals]
    exact congrArg Payload.globals hsame
  | data =>
    obtain ⟨datas, hdatas, rfl⟩ := Option.map_eq_some_iff.mp hpayload
    obtain ⟨hcount, hencodable, -⟩ := h datas hdatas
    obtain ⟨found, hread, -, hsame⟩ := exists_read_layout DataSegment.recognizes_decode
      (fun _ hd => DataSegment.form_layout hd.1 hd.2) DataSegment.withoutOffsets_placed hencodable
      hcount q []
    refine ⟨.datas found, _, (Decoder.map_eq_ok ..).mpr
      ⟨found, (Decoder.mapError_eq_ok ..).mpr hread, rfl⟩, ?_⟩
    simp only [payload, hdatas]
    exact congrArg Payload.datas hsame
  | dataCount =>
    obtain ⟨count, hcount, rfl⟩ := Option.map_eq_some_iff.mp hpayload
    have hread := Leb128.recognizes_u32.read (p := q) (u32Form_encodeUnsigned count) []
    refine ⟨.dataCount count, _, (Decoder.map_eq_ok ..).mpr
      ⟨count, (Decoder.mapError_eq_ok ..).mpr hread, rfl⟩, ?_⟩
    simp only [payload, hcount]
  | _ => cases hpayload

/-- What is in the place of a section holds what it should, wherever it stands. -/
theorem holds_raw {r : Replacements} {s : RawSection} (h : r.Writable s.kind) {readCode : Bool}
    {p : Nat} {pl : Payload} (hpl : s.Holds readCode p pl) (q : Nat) :
    ∃ pl', (r.raw s).Holds readCode q pl' ∧
      pl'.withoutOffsets = (r.payload s.kind pl).withoutOffsets := by
  cases hpayload : r.payload? s.kind with
  | none =>
    rw [raw_of_payload?_eq_none hpayload, payload_of_payload?_eq_none hpayload]
    exact hpl.move q
  | some bs =>
    rw [raw_of_payload?_eq_some h hpayload]
    obtain ⟨pl', c, hread, hsame⟩ := exists_decode h hpayload readCode pl
      ((s.withPayload bs (h.payload_lt hpayload)).payloadOffset q)
    exact ⟨pl', ⟨c, hread⟩, hsame⟩

/-! ## Reading the output -/

/-- The module with the entities replaced of which it has a section. -/
def applyTo (r : Replacements) (m : Module) : Module :=
  { m with
    globals :=
      match r.globals with
      | some globals => if m.hasSection .global then globals else m.globals
      | none => m.globals
    datas :=
      match r.datas with
      | some datas => if m.hasSection .data then datas else m.datas
      | none => m.datas
    dataCount :=
      match r.dataCount with
      | some count => if m.hasSection .dataCount then some count else m.dataCount
      | none => m.dataCount }

/-- Replacing what a module has, and then what one more section holds, replaces all of it. -/
theorem addTo_applyTo (r : Replacements) (m : Module) {kind : SectionKind} {pl : Payload}
    (h : pl = .skipped ∨ pl.kind? = some kind) {s : Section} (hs : s.kind = kind) :
    ((r.payload kind pl).addTo (r.applyTo m)).withoutPlaces =
      (r.applyTo (m.addSection pl s)).withoutPlaces := by
  have hkind (k : SectionKind) : (m.addSection pl s).hasSection k = (m.hasSection k || kind = k) := by
    rw [Module.hasSection_addSection, hs]
  obtain ⟨globals, datas, dataCount⟩ := r
  simp only [applyTo, hkind]
  simp only [Module.addSection, Module.withoutPlaces]
  rcases h with rfl | h
  -- What is skipped has no kind of its own, so that its section may be one to replace.
  · cases kind with
    | global => cases globals <;> simp [payload, Payload.addTo]
    | data => cases datas <;> simp [payload, Payload.addTo]
    | dataCount => cases dataCount <;> simp [payload, Payload.addTo]
    | _ => simp [payload, Payload.addTo]
  · cases pl with
    | skipped => cases h
    | globals found =>
      cases h
      cases globals <;> simp [payload, Payload.addTo]
    | datas found =>
      cases h
      cases datas <;> simp [payload, Payload.addTo]
    | dataCount found =>
      cases h
      cases dataCount <;> simp [payload, Payload.addTo]
    | custom found names =>
      cases h
      cases names <;> simp [payload, Payload.addTo]
    | _ =>
      cases h
      simp [payload, Payload.addTo]

/-- Nothing is replaced in a module that is yet to be read. -/
theorem withoutPlaces_applyTo_start (r : Replacements) (source source' : Bytes) (version : UInt32) :
    ({ source, version } : Module).withoutPlaces =
      (r.applyTo { source := source', version }).withoutPlaces := by
  obtain ⟨globals, datas, dataCount⟩ := r
  cases globals <;> cases datas <;> cases dataCount <;> rfl

end Encoder.Replacements

open Encoder (Replacements)

/-- Reading the new sections keeps up with reading the old ones. -/
theorem Scans.replace {r : Replacements} {readCode : Bool} {p : Nat} {m m' : Module}
    {rs : List RawSection} (h : Scans readCode p m rs m') (hr : ∀ s ∈ rs, r.Writable s.kind) :
    ∀ q n, n.withoutPlaces = (r.applyTo m).withoutPlaces →
      ∃ n', Scans readCode q n (rs.map r.raw) n' ∧
        n'.withoutPlaces = (r.applyTo m').withoutPlaces := by
  induction h with
  | nil => exact fun q n hn => ⟨n, .nil, hn⟩
  | @cons p m m' s rs pl first _ ih =>
    intro q n hn
    -- The modules read so far, old and new, differ in places only; each now takes one section.
    have hkind : pl = .skipped ∨ pl.kind? = some s.kind := by
      obtain ⟨c, hread⟩ := first
      exact Payload.kind?_of_decode hread
    obtain ⟨pl', hpl', hsame⟩ := Replacements.holds_raw (hr s (.head rs)) first q
    have hstep : (n.addSection pl' ((r.raw s).entry q)).withoutPlaces =
        (r.applyTo (m.addSection pl (s.entry p))).withoutPlaces := by
      calc (n.addSection pl' ((r.raw s).entry q)).withoutPlaces
          = pl'.withoutOffsets.addTo n.withoutPlaces := pl'.withoutPlaces_addTo n
        _ = (r.payload s.kind pl).withoutOffsets.addTo (r.applyTo m).withoutPlaces := by
          rw [hsame, hn]
        _ = ((r.payload s.kind pl).addTo (r.applyTo m)).withoutPlaces :=
          (Payload.withoutPlaces_addTo _ _).symm
        _ = (r.applyTo (m.addSection pl (s.entry p))).withoutPlaces :=
          r.addTo_applyTo m hkind rfl
    obtain ⟨n', hscan, hn'⟩ := ih (fun t ht => hr t (.tail s ht)) _ _ hstep
    exact ⟨n', .cons hpl' hscan, hn'⟩

namespace Encoder

/-- If writing a module that was read succeeds, every section can be replaced, and the output is made
of what is in their places. -/
theorem bytes_of_module {m : Module} {r : Replacements} {version : UInt32} {rs : List RawSection}
    {capacity : Option Nat} {sink : Sink}
    (hsource : m.source = Module.preamble version ++ RawSection.join rs)
    (hversion : m.version = version)
    (hsections : m.sections = RawSection.entries (Module.preamble version).length rs)
    (hw : Encoder.module m r (.empty capacity) = .ok () sink) :
    (∀ s ∈ rs, r.Writable s.kind) ∧
      sink.bytes = Module.preamble version ++ RawSection.join (rs.map r.raw) := by
  obtain ⟨hall, hafter⟩ := (writes_module m r).ok hw
  rw [Writer.takeWhile_of_forM_eq_ok hall] at hafter
  have hwritable : ∀ s ∈ rs, r.Writable s.kind := by
    intro s hs
    have hmem : s.kind ∈ m.sections.map (·.kind) := by
      rw [hsections, RawSection.map_kind_entries]
      exact List.mem_map_of_mem hs
    obtain ⟨t, ht, hkind⟩ := List.mem_map.mp hmem
    rw [← hkind]
    exact Replacements.writable_of_check (Writer.forM_eq_ok_iff.mp hall t ht)
  have hnew := Replacements.flatMap_bytes_entries rs hwritable (Module.preamble version) []
  rw [List.append_nil] at hnew
  refine ⟨hwritable, ?_⟩
  rw [hafter.bytes_eq, Sink.bytes_empty, List.nil_append, hversion, hsource, hsections, hnew]

/-- The sections that are not replaced are the same bytes. -/
theorem sameSections_of_entries {m m' : Module} (r : Replacements) {front : Bytes}
    {rs : List RawSection} (hsource : m.source = front ++ RawSection.join rs)
    (hsource' : m'.source = front ++ RawSection.join (rs.map r.raw))
    (hsections : m.sections = RawSection.entries front.length rs)
    (hsections' : m'.sections = RawSection.entries front.length (rs.map r.raw)) :
    m.SameSections (fun kind => r.payload? kind = none) m' := by
  constructor
  · rw [hsections, hsections', RawSection.map_kind_entries, RawSection.map_kind_entries,
      List.map_map]
    exact List.map_congr_left fun s _ => r.kind_raw s
  · intro i s s' hs hs' hkept
    rw [hsections] at hs
    rw [hsections'] at hs'
    obtain ⟨t, ht, hkind, hraw⟩ := RawSection.raw?_of_getElem? hs
    obtain ⟨t', ht', -, hraw'⟩ := RawSection.raw?_of_getElem? hs'
    rw [List.getElem?_map, ht, Option.map_some] at ht'
    rw [hkind] at hkept
    obtain rfl : t = t' := by
      rw [← Replacements.raw_of_payload?_eq_none hkept]
      exact Option.some.inj ht'
    rw [hsource, hsource']
    exact ⟨t.bytes, hraw, hraw'⟩

/-- A module that is written with sections replaced reads back as the module with the entities
replaced. -/
theorem decode_module {readCode : Bool} {file : Bytes} {m : Module} {r : Replacements}
    {capacity : Option Nat} {sink : Sink} (hm : Module.decode readCode file = .ok m)
    (hw : Encoder.module m r (.empty capacity) = .ok () sink) :
    ∃ m', Module.decode readCode sink.bytes = .ok m' ∧
      m.SameSections (fun kind => r.payload? kind = none) m' ∧
      m'.withoutPlaces = (r.applyTo m).withoutPlaces := by
  obtain ⟨version, rs, rfl, hscan⟩ := (Module.decode_eq_ok_iff ..).mp hm
  obtain ⟨hsource, hversion, hsections⟩ := hscan.places
  simp only [List.nil_append, ← Module.length_preamble version] at hsections
  obtain ⟨hwritable, hbytes⟩ := bytes_of_module hsource hversion hsections hw
  obtain ⟨m', hscan', hsame⟩ := hscan.replace hwritable 8 { source := sink.bytes, version }
    (r.withoutPlaces_applyTo_start _ _ _)
  obtain ⟨hsource', -, hsections'⟩ := hscan'.places
  simp only [List.nil_append, ← Module.length_preamble version] at hsections'
  exact ⟨m', (Module.decode_eq_ok_iff ..).mpr ⟨version, _, hbytes, hscan'⟩,
    sameSections_of_entries r hsource (hsource'.trans hbytes) hsections hsections', hsame⟩

end Encoder

end WasmBinary
