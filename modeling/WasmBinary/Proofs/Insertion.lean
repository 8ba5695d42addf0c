import WasmBinary.Proofs.Tiling
import WasmBinary.Proofs.Delimited

/-!
# Bytes that are skipped

Sections without a meaning, and bytes of a payload behind what is read of it, make no difference to
what a module holds. With them the file is longer, so that offsets move, each as far as the section
in which it lies.

* `Scans.relocate`: the same sections at another place make the same module, its offsets moved.
* `Scans.splice`: sections in the middle are replaced by one that adds the same.
* `RawSection.Inert`: what can be inserted; `RawSection.Holds.extend`: what can be longer.
* `Module.decode_insert`, `Module.decode_extend`, and both in `Module.decode_edited`.
-/
namespace WasmBinary

open RawSection (entries join)

/-! ## Places -/

namespace Section

/-- The section once what stood at `p` stands at `q`. -/
def moved (p q : Nat) (s : Section) : Section :=
  { s with offset := s.offset - p + q, payload := s.payload - p + q }

/-- Where the places of a file are found once `n` bytes have been inserted at `p`. The place `p`
itself belongs to the section that ends there, since a section has a header. -/
def inserted (p n x : Nat) : Nat := if x ≤ p then x else x + n

/-- Where the places of a file are found once the section `s` in it has become `s'`. -/
def resized (s s' : Section) (x : Nat) : Nat :=
  if x ≤ s.offset then x
  else if x ≤ s.stop then x - s.payload + s'.payload
  else x - s.stop + s'.stop

end Section

theorem RawSection.map_moved_entries (rs : List RawSection) (p q : Nat) : ∀ k,
    (entries (p + k) rs).map (.moved p q) = entries (q + k) rs := by
  induction rs with
  | nil => exact fun _ => rfl
  | cons r rs ih =>
    intro k
    have hentry : (r.entry (p + k)).moved p q = r.entry (q + k) := by
      simp only [Section.moved, entry, payloadOffset, Section.mk.injEq, true_and]
      omega
    have hrest := ih (k + r.bytes.length)
    simp only [← Nat.add_assoc] at hrest
    rw [entries, entries, List.map_cons, hentry, hrest]

/-! ## Sections at another place -/

/-- At another place the same sections make the same of a module, its offsets moved along. -/
theorem Scans.relocate {readCode : Bool} {f : Nat → Nat} {p : Nat} {m m' : Module}
    {rs : List RawSection} (h : Scans readCode p m rs m') : ∀ {q : Nat} {n : Module},
      (∀ k, 0 < k → k ≤ (join rs).length → f (p + k) = q + k) →
      n.entities = m.entities.mapOffsets f →
      ∃ n', Scans readCode q n rs n' ∧ n'.entities = m'.entities.mapOffsets f := by
  induction h with
  | nil => exact fun _ hn => ⟨_, .nil, hn⟩
  | @cons p m m' r rs pl first _ ih =>
    intro q n hf hn
    have hlength := RawSection.add_length_join_cons 0 r rs
    have hbytes := r.length_bytes
    have hfirst := first.decode_moved (q := r.payloadOffset q) (f := f) fun k hk => by
      have hplace := hf (1 + r.sizeBytes.length + k) (by omega) (by omega)
      simp only [RawSection.payloadOffset, Nat.add_assoc] at hplace ⊢
      exact hplace
    have hrest (k : Nat) (hpos : 0 < k) (hk : k ≤ (join rs).length) :
        f (p + r.bytes.length + k) = q + r.bytes.length + k := by
      rw [Nat.add_assoc, Nat.add_assoc]
      exact hf _ (by omega) (by omega)
    obtain ⟨n', hn', hmoved⟩ := ih hrest (n := n.addSection (pl.mapOffsets f) (r.entry q))
      (Payload.entities_addTo_mapOffsets hn pl)
    exact ⟨n', .cons hfirst hn', hmoved⟩

/-- One section in the place of others that add the same. -/
theorem Scans.splice {readCode : Bool} {f : Nat → Nat} {p : Nat} {m m' n : Module}
    {front mid back : List RawSection} {r : RawSection}
    (h : Scans readCode p m (front ++ (mid ++ back)) m') (hn : n.entities = m.entities.mapOffsets f)
    (hfront : ∀ k ≤ (join front).length, f (p + k) = p + k)
    (hmid : ∀ m₁ m₂, Scans readCode (p + (join front).length) m₁ mid m₂ →
      ∃ pl, r.Holds readCode (p + (join front).length) pl ∧
        ∀ n₁ : Module, n₁.entities = m₁.entities.mapOffsets f →
          (pl.addTo n₁).entities = m₂.entities.mapOffsets f)
    (hback : ∀ k, 0 < k → k ≤ (join back).length →
      f (p + (join front).length + (join mid).length + k) =
        p + (join front).length + r.bytes.length + k) :
    ∃ n', Scans readCode p n (front ++ r :: back) n' ∧ n'.entities = m'.entities.mapOffsets f := by
  obtain ⟨m₁, hfront', h⟩ := Scans.append_iff.mp h
  obtain ⟨m₂, hmid', hback'⟩ := Scans.append_iff.mp h
  obtain ⟨n₁, hn₁, hmoved⟩ := hfront'.relocate (fun k _ hk => hfront k hk) hn
  obtain ⟨pl, hpl, hadded⟩ := hmid m₁ m₂ hmid'
  obtain ⟨n', hn', hmoved'⟩ := hback'.relocate hback
    (n := n₁.addSection pl (r.entry (p + (join front).length))) (hadded n₁ hmoved)
  exact ⟨n', Scans.append_iff.mpr ⟨n₁, hn₁, .cons hpl hn'⟩, hmoved'⟩

/-! ## Sections that hold nothing but themselves -/

/-- Sections that can be inserted, each with the custom section that it is: tag sections, which have
the last id with a meaning, all with larger ids, and custom sections that are not the names. -/
inductive RawSection.Inert (r : RawSection) : Option CustomSection → Prop
  | skipped (id_ge : 13 ≤ r.id) : r.Inert none
  | custom {nameBytes contents : Bytes} {name : String} (id_eq : r.id = 0)
      (payload_eq : r.payload = nameBytes ++ contents) (name_form : Format.Name nameBytes name)
      (name_ne : name ≠ "name") : r.Inert (some ⟨name, contents⟩)

theorem SectionKind.ofId_of_ge {id : UInt8} (h : 13 ≤ id) :
    ofId id = .tag ∨ ofId id = .unknown id := by
  by_cases htag : id = 13
  · subst htag
    exact .inl rfl
  · have hlarge : known.length ≤ id.toNat := by
      have hge : 13 ≤ id.toNat := h
      have hne : id.toNat ≠ 13 := fun hid => htag (UInt8.toNat_inj.mp hid)
      change 14 ≤ id.toNat
      omega
    rw [ofId, List.getElem?_eq_none hlarge]
    exact .inr rfl

theorem CustomSection.decode_append {nameBytes : Bytes} {name : String}
    (h : Format.Name nameBytes name) (contents : Bytes) (p : Nat) :
    ∃ c, CustomSection.decode ⟨p, nameBytes ++ contents⟩ = .ok ⟨name, contents⟩ c := by
  have hname := Decoder.recognizes_name.read (p := p) h contents
  rw [CustomSection.decode, Decoder.bind_of_ok hname]
  exact ⟨_, rfl⟩

/-- An inert section can be read, and adds nothing but its custom section. -/
theorem RawSection.Inert.exists_holds {r : RawSection} {added : Option CustomSection}
    (h : r.Inert added) (readCode : Bool) (p : Nat) :
    r.custom? = added ∧ ∃ pl, r.Holds readCode p pl ∧
      ∀ m : Module, (pl.addTo m).entities = m.entities := by
  cases h with
  | skipped id_ge =>
    have hkind := SectionKind.ofId_of_ge id_ge
    have hother : r.kind ≠ .custom := by
      rcases hkind with h | h <;> simp [kind, h]
    have hread : Payload.decode readCode r.kind = return .skipped := by
      rcases hkind with h | h <;> rw [kind, h] <;> rfl
    have hholds : r.Holds readCode p .skipped := by
      refine ⟨⟨r.payloadOffset p, r.payload⟩, ?_⟩
      rw [hread]
      rfl
    exact ⟨if_neg hother, _, hholds, fun _ => rfl⟩
  | @custom nameBytes contents name id_eq payload_eq name_form name_ne =>
    have hkind : r.kind = .custom := by
      rw [kind, id_eq]
      rfl
    obtain ⟨c, hread⟩ := CustomSection.decode_append name_form contents (r.payloadOffset p)
    have hmapped := (Decoder.mapError_eq_ok ModuleError.custom ..).mpr hread
    have hholds : r.Holds readCode p (.custom ⟨name, contents⟩ none) := by
      refine ⟨c, ?_⟩
      rw [hkind, payload_eq]
      change Payload.decodeCustom _ = _
      rw [Payload.decodeCustom, Decoder.bind_of_ok hmapped, if_neg name_ne]
      rfl
    exact ⟨hholds.custom?.1.symm, _, hholds, fun _ => rfl⟩

/-- More bytes behind a payload that tells where it ends make no difference to it. -/
theorem RawSection.Holds.extend {readCode : Bool} {r r' : RawSection} {p q : Nat} {pl : Payload}
    (h : r.Holds readCode p pl) (hkind : r'.kind = r.kind) (hcustom : r.kind ≠ .custom)
    {extra : Bytes} (hpayload : r'.payload = r.payload ++ extra) {f : Nat → Nat}
    (hf : ∀ n ≤ r.payload.length, f (r.payloadOffset p + n) = r'.payloadOffset q + n) :
    r'.Holds readCode q (pl.mapOffsets f) := by
  obtain ⟨c, h'⟩ := h.decode_moved hf
  have hlonger := (Payload.delimited_decode readCode hcustom).append h' extra
  rw [← hkind, ← hpayload] at hlonger
  exact ⟨_, hlonger⟩

/-! ## Files -/

namespace Module

variable {readCode : Bool} {file : Bytes} {m : Module}

/-- One section of a file in the place of others that add the same. -/
theorem decode_splice (mid : List RawSection) {version : UInt32} {source : Bytes}
    {front back : List RawSection} {r : RawSection} {f : Nat → Nat} {p q : Nat}
    (h : Scans readCode 8 { source, version } (front ++ (mid ++ back)) m)
    (hp : p = 8 + (join front).length) (hq : q = 8 + (join (front ++ mid)).length)
    (hfront : ∀ x ≤ p, f x = x)
    (hmid : ∀ m₁ m₂, Scans readCode p m₁ mid m₂ → ∃ pl, r.Holds readCode p pl ∧
      ∀ n₁ : Module, n₁.entities = m₁.entities.mapOffsets f →
        (pl.addTo n₁).entities = m₂.entities.mapOffsets f)
    (hback : ∀ k, 0 < k → f (q + k) = p + r.bytes.length + k) :
    ∃ m', decode readCode ((preamble version ++ join (front ++ (mid ++ back))).take p ++
        (r.bytes ++ (preamble version ++ join (front ++ (mid ++ back))).drop q)) = .ok m' ∧
      m'.sections = m.sections.takeWhile (·.stop ≤ p) ++
        r.entry p :: (m.sections.dropWhile (·.stop ≤ q)).map (.moved q (r.entry p).stop) ∧
      m'.customs = (front ++ r :: back).filterMap RawSection.custom? ∧
      m'.entities = m.entities.mapOffsets f := by
  subst hp hq
  have hsections : m.sections = entries 8 (front ++ (mid ++ back)) := h.places.2.2
  have hstop : 8 + (join (front ++ mid)).length = 8 + (join front).length + (join mid).length := by
    rw [RawSection.join_append, List.length_append, Nat.add_assoc]
  have hfile : (preamble version ++ join (front ++ (mid ++ back))).take (8 + (join front).length) ++
      (r.bytes ++ (preamble version ++ join (front ++ (mid ++ back))).drop
        (8 + (join (front ++ mid)).length)) = preamble version ++ join (front ++ r :: back) := by
    have hjoin : join (r :: back) = r.bytes ++ join back := rfl
    rw [take_boundary, ← List.append_assoc front, drop_boundary, RawSection.join_append, hjoin,
      List.append_assoc]
  rw [hfile]
  obtain ⟨m', hm', hentities⟩ := h.splice (n := {
    source := preamble version ++ join (front ++ r :: back), version }) rfl
    (fun k hk => hfront _ (Nat.add_le_add_left hk 8)) hmid fun k hpos _ => by
      rw [← hstop]
      exact hback k hpos
  refine ⟨m', (decode_eq_ok_iff ..).mpr ⟨version, _, rfl, hm'⟩, ?_, hm'.customs, hentities⟩
  have hmoved := RawSection.map_moved_entries back (8 + (join (front ++ mid)).length)
    (8 + (join front).length + r.bytes.length) 0
  rw [Nat.add_zero, Nat.add_zero] at hmoved
  rw [hm'.places.2.2, hsections, RawSection.takeWhile_entries, ← List.append_assoc front,
    RawSection.dropWhile_entries, RawSection.stop_entry, hmoved, RawSection.entries_append]
  rfl

/-- A section that means nothing is inserted between two sections. -/
theorem decode_insert (hm : decode readCode file = .ok m) {p : Nat} (hp : m.IsBoundary p)
    {r : RawSection} {added : Option CustomSection} (hr : r.Inert added) :
    ∃ m', decode readCode (file.take p ++ (r.bytes ++ file.drop p)) = .ok m' ∧
      m'.sections = m.sections.takeWhile (·.stop ≤ p) ++
        r.entry p :: (m.sections.dropWhile (·.stop ≤ p)).map (.moved p (r.entry p).stop) ∧
      (∃ front back, m.customs = front ++ back ∧ m'.customs = front ++ added.toList ++ back ∧
        front.length = (m.sections.takeWhile (·.stop ≤ p)).countP (·.kind = .custom)) ∧
      m'.entities = m.entities.mapOffsets (Section.inserted p r.bytes.length) := by
  obtain ⟨version, rs, rfl, hscan, hsections⟩ := exists_scans_of_decode hm
  have hcustoms := hscan.customs
  rw [IsBoundary, hsections] at hp
  obtain ⟨front, back, rfl, hplace⟩ := RawSection.exists_split_of_boundary hp
  obtain ⟨hcustom, pl, hpl, hadd⟩ := hr.exists_holds readCode p
  obtain ⟨m', hm', hsections', hcustoms', hentities⟩ := decode_splice [] (q := p)
    (f := Section.inserted p r.bytes.length) hscan hplace (by rw [List.append_nil, hplace])
    (fun x hx => if_pos hx) (fun m₁ m₂ hnone => by
      cases hnone
      exact ⟨pl, hpl, fun n₁ hn₁ => (hadd n₁).trans hn₁⟩) (fun k hk => by
      rw [Section.inserted, if_neg (by omega)]
      omega)
  refine ⟨m', hm', hsections', ⟨front.filterMap RawSection.custom?, back.filterMap RawSection.custom?,
    ?_, ?_, ?_⟩, hentities⟩
  · rw [hcustoms, List.filterMap_append]
    rfl
  · rw [hcustoms', List.filterMap_append, ← hcustom]
    cases hfound : r.custom? <;> simp [hfound]
  · obtain ⟨_, hfront, -⟩ := Scans.append_iff.mp hscan
    rw [hsections, hplace, RawSection.takeWhile_entries]
    exact RawSection.length_customs hfront

/-- The payload of a section becomes longer. -/
theorem decode_extend (hm : decode readCode file = .ok m) {s : Section} (hs : s ∈ m.sections)
    (hcustom : s.kind ≠ .custom) {payload extra : Bytes} (hpayload : s.payload? file = some payload)
    {r : RawSection} (hkind : r.kind = s.kind) (hlonger : r.payload = payload ++ extra) :
    ∃ m', decode readCode (file.take s.offset ++ (r.bytes ++ file.drop s.stop)) = .ok m' ∧
      m'.sections = m.sections.takeWhile (·.stop ≤ s.offset) ++
        r.entry s.offset ::
          (m.sections.dropWhile (·.stop ≤ s.stop)).map (.moved s.stop (r.entry s.offset).stop) ∧
      m'.customs = m.customs ∧
      m'.entities = m.entities.mapOffsets (s.resized (r.entry s.offset)) := by
  obtain ⟨version, rs, rfl, hscan, hsections⟩ := exists_scans_of_decode hm
  have hcustoms := hscan.customs
  rw [hsections] at hs
  obtain ⟨front, r₀, back, rfl, hentry⟩ := RawSection.exists_of_mem_entries hs
  have hoffset : s.offset = 8 + (join front).length := by
    rw [hentry]
    rfl
  have hstart : s.payload = r₀.payloadOffset s.offset := by
    rw [hoffset, hentry]
    rfl
  have hstop : s.stop = s.offset + r₀.bytes.length := by
    rw [hoffset, hentry, RawSection.stop_entry]
  have hlength := r₀.length_bytes
  obtain rfl : payload = r₀.payload := by
    have hfile : preamble version ++ join (front ++ r₀ :: back) =
        preamble version ++ join front ++ (r₀.bytes ++ join back) := by simp [join]
    have hfound := r₀.payload?_entry (preamble version ++ join front) (join back)
    rw [← hfile, List.length_append, length_preamble, ← hentry, hpayload] at hfound
    exact Option.some.inj hfound
  have hkind₀ : r₀.kind = s.kind := by
    rw [hentry]
    rfl
  have hfollows (n : Nat) (hn : n ≤ r₀.payload.length) :
      s.resized (r.entry s.offset) (r₀.payloadOffset s.offset + n) = r.payloadOffset s.offset + n := by
    have hinside : r₀.payloadOffset s.offset + n ≤ s.stop := by
      simp only [RawSection.payloadOffset]
      omega
    have hbehind : ¬r₀.payloadOffset s.offset + n ≤ s.offset := by
      simp only [RawSection.payloadOffset]
      omega
    rw [Section.resized, if_neg hbehind, if_pos hinside, hstart, Nat.add_sub_cancel_left, Nat.add_comm n]
    rfl
  obtain ⟨m', hm', hsections', hcustoms', hentities⟩ := decode_splice [r₀] (r := r)
    (f := s.resized (r.entry s.offset)) (q := s.stop) hscan hoffset (by simp [join, hstop, hoffset, Nat.add_assoc])
    (fun x hx => if_pos hx) (fun m₁ m₂ hone => by
      cases hone with
      | cons first others =>
        cases others
        exact ⟨_, first.extend (hkind.trans hkind₀.symm) (hkind₀ ▸ hcustom) hlonger hfollows,
          fun n₁ hn₁ => Payload.entities_addTo_mapOffsets hn₁ _⟩) (fun k hk => by
      rw [Section.resized, if_neg (by omega), if_neg (by omega), RawSection.stop_entry]
      omega)
  have hnone₀ : r₀.custom? = none := if_neg (hkind₀ ▸ hcustom)
  have hnone : r.custom? = none := if_neg (hkind ▸ hcustom)
  refine ⟨m', hm', hsections', ?_, hentities⟩
  rw [hcustoms', hcustoms]
  simp [hnone, hnone₀]

/-- What a reader skips makes no difference. A section that means nothing, inserted between two
sections, adds an entry to the section table, and to the custom sections if it is one; bytes behind the
payload of a section that is not custom add nothing. All entities stay the same, with their offsets
moved as far as the section that holds them. -/
theorem decode_edited (hm : decode readCode file = .ok m) :
    (∀ p (r : RawSection) added, m.IsBoundary p → r.Inert added →
      ∃ m', decode readCode (file.take p ++ (r.bytes ++ file.drop p)) = .ok m' ∧
        m'.sections = m.sections.takeWhile (·.stop ≤ p) ++
          r.entry p :: (m.sections.dropWhile (·.stop ≤ p)).map (.moved p (r.entry p).stop) ∧
        (∃ front back, m.customs = front ++ back ∧ m'.customs = front ++ added.toList ++ back ∧
          front.length = (m.sections.takeWhile (·.stop ≤ p)).countP (·.kind = .custom)) ∧
        m'.entities = m.entities.mapOffsets (Section.inserted p r.bytes.length)) ∧
    ∀ s ∈ m.sections, s.kind ≠ .custom → ∀ payload extra (r : RawSection),
      s.payload? file = some payload → r.kind = s.kind → r.payload = payload ++ extra →
      ∃ m', decode readCode (file.take s.offset ++ (r.bytes ++ file.drop s.stop)) = .ok m' ∧
        m'.sections = m.sections.takeWhile (·.stop ≤ s.offset) ++
          r.entry s.offset ::
            (m.sections.dropWhile (·.stop ≤ s.stop)).map (.moved s.stop (r.entry s.offset).stop) ∧
        m'.customs = m.customs ∧
        m'.entities = m.entities.mapOffsets (s.resized (r.entry s.offset)) := by
  constructor
  · intro p r added hp hr
    exact decode_insert hm hp hr
  · intro s hs hcustom payload extra r hpayload hkind hlonger
    exact decode_extend hm hs hcustom hpayload hkind hlonger

/-- A custom section behind the code moves the global, and the function without a byte of code stays
where it is. A longer code section with a padded size moves both. -/
theorem decode_edited_sample :
    decode true sample.source = .ok sample ∧
      (∃ m' : Module, decode true (sample.source.take 16 ++
          ([0, 3, 1, 0x78, 9] ++ sample.source.drop 16)) = .ok m' ∧
        m'.customs = [⟨"x", [9]⟩] ∧ m'.codes = [⟨0, 16, []⟩] ∧
        m'.globals = [⟨⟨.const, .i32⟩, [.plain .i32Const 26 (.i32 5)]⟩]) ∧
      ∃ m' : Module, decode true (sample.source.take 12 ++
          ([10, 0x84, 0, 1, 0, 0xAA, 0xBB] ++ sample.source.drop 16)) = .ok m' ∧
        m'.codes = [⟨0, 17, []⟩] ∧
        m'.globals = [⟨⟨.const, .i32⟩, [.plain .i32Const 24 (.i32 5)]⟩] := by
  have hm : decode true sample.source = .ok sample := rfl
  obtain ⟨hinsert, hextend⟩ := decode_edited hm
  have hname : Format.Name [1, 0x78] "x" :=
    ⟨[0x78], .mk (n := 1) ⟨.last (by decide), by decide, rfl, by decide⟩ rfl, rfl⟩
  obtain ⟨m₁, hm₁, -, ⟨front, back, hcustoms, hcustoms₁, -⟩, hentities₁⟩ := hinsert 16
    ⟨0, [3], [1, 0x78, 9], ⟨.last (by decide), by decide, rfl, by decide⟩⟩ _
    (.inr ⟨⟨.code, 2, 12, 14⟩, by decide, rfl⟩) (.custom rfl rfl hname (by decide))
  obtain ⟨m₂, hm₂, -, -, hentities₂⟩ := hextend ⟨.code, 2, 12, 14⟩ (by decide) (by decide) [1, 0]
    [0xAA, 0xBB] ⟨10, [0x84, 0], [1, 0, 0xAA, 0xBB],
      ⟨.more (by decide) (.last (by decide)), by decide, rfl, by decide⟩⟩ rfl rfl rfl
  obtain ⟨rfl, rfl⟩ := List.append_eq_nil_iff.mp hcustoms.symm
  exact ⟨hm, ⟨m₁, hm₁, hcustoms₁, congrArg Module.codes hentities₁,
    congrArg Module.globals hentities₁⟩, m₂, hm₂, congrArg Module.codes hentities₂,
    congrArg Module.globals hentities₂⟩

end Module

end WasmBinary
