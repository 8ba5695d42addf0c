import Mathlib.Data.List.Flatten
import WasmBinary.Proofs.Consumption
import WasmBinary.Proofs.CustomSections

/-!
# Fewer entities than bytes

What a section lists is paid for by its payload: a section that is read has more bytes than entities. Of
a names section the entities are the names. A section that is skipped lists nothing, and may be empty.

* `Names.Mentions.mentioned_le`, `Names.count_le_of_decode`: names are paid for by the contents of their
  section, whatever is kept of them.
* `Payload.held_lt_of_decode`: the payload of any section.
* `Module.FewerThanBytes`: what this means for a module, section by section and for what is kept.
* `Decoder.elements_take_bytes`: vectors, expressions and modules together.
-/
namespace WasmBinary

open Decoder (PaysForCount ReadsElement vector elements bind_eq_ok map_eq_ok mapError_eq_ok)
open Cursor (Ahead)

/-! ## Names -/

namespace Names

/-- How many names there are, a map of local names counting as one more. -/
def count (n : Names) : Nat :=
  n.module.toList.length + n.functions.entries.length + n.globals.entries.length +
    n.dataSegments.entries.length + n.locals.length + (n.locals.flatMap (·.2.entries)).length

/-- What a mention counts for. -/
def Mention.count : Mention → Nat
  | module _ | entry .. => 1
  | locals m => 1 + m.2.length

def mentioned : List Mention → Nat
  | [] => 0
  | m :: ms => m.count + mentioned ms

theorem mentioned_append (ms ms' : List Mention) :
    mentioned (ms ++ ms') = mentioned ms + mentioned ms' := by
  induction ms with
  | nil => exact (Nat.zero_add _).symm
  | cons m ms ih => rw [List.cons_append, mentioned, mentioned, ih, Nat.add_assoc]

theorem mentioned_entries (t : Table) (es : List (Index × String)) :
    mentioned (es.map (.entry t)) = es.length := by
  induction es with
  | nil => rfl
  | cons e es ih => rw [List.map_cons, mentioned, ih, Mention.count, List.length_cons, Nat.add_comm]

/-- The mentions by what they are about. -/
theorem mentioned_eq (ms : List Mention) : mentioned ms =
    (moduleNames ms).length + (entriesOf .functions ms).length + (entriesOf .globals ms).length +
      (entriesOf .dataSegments ms).length + (localMaps ms).length +
        ((localMaps ms).flatMap Prod.snd).length := by
  induction ms with
  | nil => rfl
  | cons m ms ih =>
    have hfirst : m.count = (moduleNames [m]).length + (entriesOf .functions [m]).length +
        (entriesOf .globals [m]).length + (entriesOf .dataSegments [m]).length +
          (localMaps [m]).length + ((localMaps [m]).flatMap Prod.snd).length := by
      cases m with
      | module name => rfl
      | entry t e => cases t <;> rfl
      | locals m => simp [Mention.count, moduleNames, entriesOf, localMaps, Mention.moduleName?,
          Mention.entryOf?, Mention.localMap?]
    have hsplit : m :: ms = [m] ++ ms := rfl
    rw [mentioned, ih, hsplit]
    simp only [moduleNames_append, entriesOf_append, localMaps_append, List.flatMap_append,
      List.length_append]
    omega

theorem firsts_sublist {α κ : Type} [DecidableEq κ] (l : List (κ × α)) : (firsts l).Sublist l := by
  induction l using List.reverseRecOn with
  | nil => exact .slnil
  | append_singleton l e ih =>
    rw [firsts_concat]
    split
    · exact ih.trans (List.sublist_append_left l [e])
    · exact ih.append_right [e]

/-- No more is kept than is mentioned. -/
theorem count_told_le (ms : List Mention) : (told ms).count ≤ mentioned ms := by
  have hmodule : (moduleNames ms).getLast?.toList.length ≤ (moduleNames ms).length := by
    cases moduleNames ms with
    | nil => exact Nat.le_refl 0
    | cons name names =>
      rw [List.getLast?_cons]
      exact Nat.succ_le_succ (Nat.zero_le _)
  have hentries (t : Table) : (firsts (entriesOf t ms)).length ≤ (entriesOf t ms).length :=
    (firsts_sublist _).length_le
  have hfunctions := hentries .functions
  have hglobals := hentries .globals
  have hdatas := hentries .dataSegments
  have hmaps : (localTables (localMaps ms)).length ≤ (localMaps ms).length := by
    rw [localTables, List.length_map]
    exact (firsts_sublist _).length_le
  have hlocals : ((localTables (localMaps ms)).flatMap (·.2.entries)).length ≤
      ((localMaps ms).flatMap Prod.snd).length := by
    rw [localTables, List.flatMap_map]
    exact ((List.Sublist.flatMap_right _ fun m _ => firsts_sublist m.2).trans
      ((firsts_sublist _).flatMap Prod.snd)).length_le
  rw [mentioned_eq]
  simp only [count, told]
  omega

section

variable {α : Type} {F : Format α} {f : α → Mention}

theorem mentioned_le_of_elements (h : ∀ p bs a, F p bs a → (f a).count ≤ bs.length) {p : Nat}
    {bs : Bytes} {as : List α} (has : Format.Elements F p bs as) :
    mentioned (as.map f) ≤ bs.length := by
  induction has with
  | nil p => exact Nat.le_refl 0
  | cons first _ ih =>
    rw [List.map_cons, mentioned, List.length_append]
    exact Nat.add_le_add (h _ _ _ first) ih

theorem mentioned_lt_of_vector (h : ∀ p bs a, F p bs a → (f a).count ≤ bs.length) {p : Nat}
    {bs : Bytes} {as : List α} (has : Format.Vector F p bs as) :
    mentioned (as.map f) < bs.length := by
  obtain ⟨hcount, -, has⟩ := has
  have hpos := hcount.groups.length_pos
  have hle := mentioned_le_of_elements h has
  rw [List.length_append]
  omega

end

theorem EntryForm.length_pos {bs : Bytes} {e : Index × String} (h : EntryForm bs e) : 0 < bs.length := by
  obtain ⟨hindex, -⟩ := h
  have hpos := hindex.groups.length_pos
  rw [List.length_append]
  omega

theorem LocalsForm.count_le {bs : Bytes} {m : Index × List (Index × String)} (h : LocalsForm bs m) :
    (Mention.locals m).count ≤ bs.length := by
  obtain @⟨bs₁, bs₂, _, es, hfunction, hnames⟩ := h
  have hpos := hfunction.groups.length_pos
  have hlt := mentioned_lt_of_vector (f := .entry .functions)
    (fun _ _ _ he => EntryForm.length_pos he) hnames
  rw [mentioned_entries] at hlt
  change 1 + es.length ≤ _
  rw [List.length_append]
  omega

theorem SubsectionForm.mentioned_le {id : UInt8} {bs : Bytes} {ms : List Mention}
    (h : SubsectionForm id bs ms) : mentioned ms ≤ bs.length := by
  have htable {t : Table} {es : List (Index × String)}
      (hes : Format.Vector (.fixed EntryForm) 0 bs es) : mentioned (es.map (.entry t)) ≤ bs.length :=
    Nat.le_of_lt (mentioned_lt_of_vector (f := .entry t) (fun _ _ _ he => EntryForm.length_pos he) hes)
  unfold SubsectionForm at h
  split at h
  · obtain ⟨name, ⟨content, ⟨hcount, -⟩, -⟩, rfl⟩ := h
    have hpos := hcount.groups.length_pos
    rw [List.length_append, mentioned, mentioned, Mention.count]
    omega
  · obtain ⟨es, hes, rfl⟩ := h
    exact htable hes
  · obtain ⟨maps, hmaps, rfl⟩ := h
    exact Nat.le_of_lt (mentioned_lt_of_vector (fun _ _ _ hm => LocalsForm.count_le hm) hmaps)
  · obtain ⟨es, hes, rfl⟩ := h
    exact htable hes
  · obtain ⟨es, hes, rfl⟩ := h
    exact htable hes
  · obtain ⟨-, rfl⟩ := h
    exact Nat.zero_le _

theorem Mentions.mentioned_le {contents : Bytes} {ms : List Mention} (h : Mentions contents ms) :
    mentioned ms ≤ contents.length := by
  induction h with
  | nil => exact Nat.le_refl 0
  | @cons r taken unused contents ms ms' payload_eq first _ ih =>
    have hle := first.mentioned_le
    have hpayload := congrArg List.length payload_eq
    rw [List.length_append] at hpayload
    rw [mentioned_append, List.length_append, r.length_bytes]
    omega

theorem count_le_of_decode {contents : Bytes} {n : Names} {warnings : List Warning}
    (h : decode contents = .ok (n, warnings)) : n.count ≤ contents.length := by
  obtain ⟨ms, hms, hout⟩ := (decode_eq_ok_iff ..).mp h
  obtain ⟨rfl, -⟩ := Prod.mk.inj hout
  exact Nat.le_trans (count_told_le ms) hms.mentioned_le

end Names

/-! ## Payloads -/

/-- Whether payloads of this kind are read. The others are skipped. -/
def SectionKind.isRead (readCode : Bool) : SectionKind → Bool
  | .tag | .unknown _ => false
  | .code => readCode
  | _ => true

namespace Payload

/-- How many entities a payload lists. A number on its own is none. -/
def held : Payload → Nat
  | .custom _ (some (names, _)) => names.count
  | .types found => found.length
  | .imports found => found.length
  | .functions found => found.length
  | .tables found => found.length
  | .memories found => found.length
  | .globals found => found.length
  | .exports found => found.length
  | .elements found => found.length
  | .codes found => found.length
  | .datas found => found.length
  | .custom _ none | .start _ | .dataCount _ | .skipped => 0

variable {ε α : Type} {c c' : Cursor} {pl : Payload}

theorem held_lt_of_vector {d : Decoder ε α} (h : ReadsElement d) {toError : VectorError ε → ModuleError}
    {toPayload : List α → Payload} (hheld : ∀ as, (toPayload as).held = as.length)
    (hread : (toPayload <$> (vector d).mapError toError) c = .ok pl c') : pl.held < c.rest.length := by
  obtain ⟨as, hfound, rfl⟩ := (map_eq_ok ..).mp hread
  rw [hheld]
  exact (Decoder.paysForCount_vector h.advances).length_lt ((mapError_eq_ok ..).mp hfound)

theorem held_lt_of_number {d : Decoder ε α} (h : ReadsElement d) {toError : ε → ModuleError}
    {toPayload : α → Payload} (hheld : ∀ a, (toPayload a).held = 0)
    (hread : (toPayload <$> d.mapError toError) c = .ok pl c') : pl.held < c.rest.length := by
  obtain ⟨a, hfound, rfl⟩ := (map_eq_ok ..).mp hread
  rw [hheld]
  have hle := (h.advances _ _ _ ((mapError_eq_ok ..).mp hfound)).length_le
  omega

theorem held_lt_of_decodeCustom {readCode : Bool} (h : decode readCode .custom c = .ok pl c') :
    pl.held < c.rest.length := by
  obtain ⟨found, names, c₁, hread, rfl⟩ := exists_of_decodeCustom h
  obtain ⟨count, length, hcount, -, hpayload⟩ := CustomSection.payload_of_decode hread
  have hpos := hcount.groups.length_pos
  have hlength := congrArg List.length hpayload
  simp only [List.length_append] at hlength
  have hnames := custom_of_decode h
  cases names with
  | none =>
    rw [held]
    omega
  | some result =>
    have hle := Names.count_le_of_decode hnames.2
    rw [held]
    omega

/-- A payload that was read has more bytes than it lists entities. -/
theorem held_lt_of_decode {readCode : Bool} {kind : SectionKind} (h : decode readCode kind c = .ok pl c') :
    pl.held < c.rest.length ∨ kind.isRead readCode = false ∧ pl = .skipped := by
  cases kind with
  | custom => exact .inl (held_lt_of_decodeCustom h)
  | type => exact .inl (held_lt_of_vector .type (fun _ => rfl) h)
  | importing => exact .inl (held_lt_of_vector .importing (fun _ => rfl) h)
  | function => exact .inl (held_lt_of_vector (.index .type) (fun _ => rfl) h)
  | table => exact .inl (held_lt_of_vector .table (fun _ => rfl) h)
  | memory => exact .inl (held_lt_of_vector .memory (fun _ => rfl) h)
  | global => exact .inl (held_lt_of_vector .global (fun _ => rfl) h)
  | exporting => exact .inl (held_lt_of_vector .exporting (fun _ => rfl) h)
  | start => exact .inl (held_lt_of_number (.index .func) (fun _ => rfl) h)
  | element => exact .inl (held_lt_of_vector .element (fun _ => rfl) h)
  | data => exact .inl (held_lt_of_vector .data (fun _ => rfl) h)
  | dataCount => exact .inl (held_lt_of_number .branchTarget (fun _ => rfl) h)
  | code =>
    cases readCode with
    | false =>
      cases h
      exact .inr ⟨rfl, rfl⟩
    | true =>
      -- The vector is that of the places. Numbering them makes the code of it.
      obtain ⟨codes, hread, rfl⟩ := (map_eq_ok ..).mp h
      obtain ⟨places, c₁, hplaces, hread⟩ := (bind_eq_ok ..).mp ((mapError_eq_ok ..).mp hread)
      cases hread
      rw [held, List.length_mapIdx]
      exact .inl ((Decoder.paysForCount_vector ReadsElement.code.advances).length_lt hplaces)
  | tag | unknown id =>
    cases h
    exact .inr ⟨rfl, rfl⟩

end Payload

/-! ## Modules -/

namespace Module

/-- How many entities there are that sections of this kind list. -/
def held (m : Module) : SectionKind → Nat
  | .custom => m.names.count
  | .type => m.types.length
  | .importing => m.imports.length
  | .function => m.functions.length
  | .table => m.tables.length
  | .memory => m.memories.length
  | .global => m.globals.length
  | .exporting => m.exports.length
  | .element => m.elements.length
  | .code => m.codes.length
  | .data => m.datas.length
  | .start | .dataCount | .tag | .unknown _ => 0

/-- The module as it is before the first section. -/
def bare (m : Module) : Module := { source := m.source, version := m.version }

theorem held_bare (m : Module) (kind : SectionKind) : m.bare.held kind = 0 := by
  cases kind <;> rfl

/-- What is listed changes only with a payload of its kind. -/
theorem held_addTo (m : Module) (pl : Payload) (kind : SectionKind) :
    pl.kind? = some kind ∧ (pl.addTo m).held kind = pl.held ∨ (pl.addTo m).held kind = m.held kind := by
  cases pl with
  | custom found names =>
    cases names <;> cases kind <;> first | exact .inr rfl | exact .inl ⟨rfl, rfl⟩
  | _ => cases kind <;> first | exact .inr rfl | exact .inl ⟨rfl, rfl⟩

/-- The entities that sections of this kind list were read from one of them, which has more bytes. -/
def PaidFor (m : Module) (kind : SectionKind) : Prop :=
  m.held kind = 0 ∨ ∃ s ∈ m.sections, s.kind = kind ∧ m.held kind < s.size.toNat

/-- The sections of the module have more bytes than they list entities, but for empty ones that are
skipped. -/
structure FewerThanBytes (readCode : Bool) (m : Module) : Prop where
  /-- The payload of a section, read on its own. -/
  alone (s : Section) (hs : s ∈ m.sections) :
    ∃ payload n c, s.payload? m.source = some payload ∧ payload.length = s.size.toNat ∧
      m.bare.decodePayload readCode s.kind ⟨s.payload, payload⟩ = .ok n c ∧
      (n.held s.kind < s.size.toNat ∨ s.kind.isRead readCode = false ∧ s.size = 0 ∧ n = m.bare)
  /-- What is left of all sections of a kind. -/
  kept (kind : SectionKind) : m.PaidFor kind

end Module

namespace RawSection

variable {readCode : Bool} {r : RawSection} {p : Nat} {pl : Payload}

theorem Holds.held_lt (h : r.Holds readCode p pl) :
    pl.held < r.size.toNat ∨ r.kind.isRead readCode = false ∧ pl = .skipped := by
  obtain ⟨c, h⟩ := h
  rw [r.toNat_size]
  exact Payload.held_lt_of_decode h

/-- What a section adds where there was nothing. -/
theorem Holds.held_bare_lt (h : r.Holds readCode p pl) (m : Module) :
    (pl.addTo m.bare).held r.kind < r.size.toNat ∨
      r.kind.isRead readCode = false ∧ r.size = 0 ∧ pl.addTo m.bare = m.bare := by
  rcases h.held_lt with hlt | ⟨hskipped, rfl⟩
  · rcases m.bare.held_addTo pl r.kind with ⟨-, hheld⟩ | hheld
    · rw [hheld]
      exact .inl hlt
    · rw [hheld, Module.held_bare]
      exact .inl (Nat.zero_lt_of_lt hlt)
  · by_cases hempty : r.size = 0
    · exact .inr ⟨hskipped, hempty, rfl⟩
    · refine .inl ?_
      change m.bare.held r.kind < _
      rw [Module.held_bare]
      exact Nat.pos_of_ne_zero fun hzero => hempty (UInt32.toNat_inj.mp hzero)

end RawSection

namespace Module

theorem PaidFor.addSection {m : Module} {kind : SectionKind} (hm : m.PaidFor kind) {readCode : Bool}
    {r : RawSection} {p : Nat} {pl : Payload} (h : r.Holds readCode p pl) :
    (m.addSection pl (r.entry p)).PaidFor kind := by
  have hsections : (m.addSection pl (r.entry p)).sections = m.sections ++ [r.entry p] := by
    rw [Module.addSection, (pl.addTo_places m).2.2]
  have hheld : (m.addSection pl (r.entry p)).held kind = (pl.addTo m).held kind := by
    cases kind <;> rfl
  rw [PaidFor, hsections, hheld]
  rcases held_addTo m pl kind with ⟨hkind, hadded⟩ | hsame
  · rw [hadded]
    rcases h.held_lt with hlt | ⟨-, rfl⟩
    · obtain ⟨c, hread⟩ := h
      exact .inr ⟨r.entry p, by simp, Payload.kind_of_decode hread hkind, hlt⟩
    · cases hkind
  · rw [hsame]
    rcases hm with hnone | ⟨s, hs, hkind, hlt⟩
    · exact .inl hnone
    · exact .inr ⟨s, List.mem_append_left _ hs, hkind, hlt⟩

theorem paidFor_of_decode {readCode : Bool} {file : Bytes} {m : Module}
    (h : decode readCode file = .ok m) (kind : SectionKind) : m.PaidFor kind := by
  refine invariant_of_decode (P := (PaidFor · kind)) h (fun version => ?_) fun hn hpl => hn.addSection hpl
  cases kind <;> exact .inl rfl

theorem fewerThanBytes_of_decode {readCode : Bool} {file : Bytes} {m : Module}
    (h : decode readCode file = .ok m) : m.FewerThanBytes readCode where
  kept := paidFor_of_decode h
  alone := by
    intro s hs
    obtain ⟨version, rs, rfl, hscan, hsections⟩ := exists_scans_of_decode h
    have hsource : m.source = preamble version ++ RawSection.join rs := hscan.places.1
    rw [hsections, ← length_preamble version] at hs
    rw [← length_preamble version] at hscan
    obtain ⟨front, r, back, rfl, rfl⟩ := RawSection.exists_of_mem_entries hs
    obtain ⟨m₁, -, hrest⟩ := Scans.append_iff.mp hscan
    cases hrest with
    | @cons _ _ _ _ _ pl first _ =>
      have hheld := first.held_bare_lt m
      obtain ⟨c, hread⟩ := first
      refine ⟨r.payload, pl.addTo m.bare, c, ?_, r.toNat_size.symm, ?_, hheld⟩
      · have hfile : m.source = preamble version ++ RawSection.join front ++
            (r.bytes ++ RawSection.join back) := by
          simp [hsource, RawSection.join]
        rw [hfile, ← List.length_append]
        exact r.payload?_entry _ _
      · rw [decodePayload_eq]
        exact (map_eq_ok ..).mpr ⟨pl, hread, rfl⟩

/-- A module with an empty section, of a kind that is skipped. -/
def emptyTag : Module where
  source := [0x00, 0x61, 0x73, 0x6D, 1, 0, 0, 0, 13, 0]
  version := 1
  sections := [⟨.tag, 0, 8, 10⟩]

/-- However entities are counted, a section without bytes does not have fewer of them than bytes. -/
theorem emptyTag_not_fewer :
    decode true emptyTag.source = .ok emptyTag ∧
      ∃ s ∈ emptyTag.sections, s.kind = .tag ∧ ∀ entities : Nat, ¬entities < s.size.toNat :=
  ⟨rfl, _, .head _, rfl, Nat.not_lt_zero⟩

end Module

/-- Nothing is read for free. Behind the count of a vector there are as many bytes as elements at least, or
reading ends in an error after no more elements than there are bytes; of a byte vector there are exactly as
many, or it is told to be truncated. An expression has more bytes than instructions, nested ones included.
So the sections of a module have more bytes than they list entities, but for empty ones that are skipped. -/
theorem Decoder.elements_take_bytes :
    (∀ {ε α : Type} {d : Decoder ε α}, ReadsElement d → PaysForCount (vector d) (elements d 0)) ∧
      PaysForCount FunctionBody.localsVector (FunctionBody.localRuns 0 · 0) ∧
      (∀ c c' bytes, byteVector c = .ok bytes c' → ∃ n c₁, Leb128.u32 c = .ok n c₁ ∧
        bytes.length = n.toNat ∧ c₁.rest = bytes ++ c'.rest) ∧
      (∀ c c₁ n, Leb128.u32 c = .ok n c₁ → c₁.rest.length < n.toNat →
        ∃ c₂, byteVector c = .error (.truncated n.toNat c₁.rest.length) c₂) ∧
      (∀ c c' e, Expr.decode c = .ok e c' → Ahead ((Instruction.walkAll e).length + 1) c c') ∧
      ∀ readCode file m, Module.decode readCode file = .ok m → m.FewerThanBytes readCode :=
  ⟨fun h => paysForCount_vector h.advances, paysForCount_localsVector, fun _ _ _ h => byteVector_paid h,
    fun _ _ _ h hshort => byteVector_unpaid h hshort, fun _ _ _ h => Expr.ahead_of_decode h,
    fun _ _ _ h => Module.fewerThanBytes_of_decode h⟩

/-- A count of `2 ^ 32 - 1` branch targets with two bytes behind it, a block with an instruction in it, and
a module. -/
theorem Decoder.elements_take_bytes_sample :
    (∃ k cause c, vector Leb128.u32 ⟨0, [0xFF, 0xFF, 0xFF, 0xFF, 0x0F, 1, 2]⟩ =
        .error (.element k cause) c ∧ k ≤ 2) ∧
      Ahead 3 ⟨0, [0x02, 0x40, 0x01, 0x0B, 0x0B]⟩ ⟨5, []⟩ ∧
      (∃ s ∈ Module.sample.sections, s.kind = .global ∧ 1 < s.size.toNat) := by
  obtain ⟨hvectors, -, -, -, hexpressions, hmodules⟩ := elements_take_bytes
  refine ⟨?_, ?_, ?_⟩
  · obtain ⟨k, cause, c, hfails, hk, -⟩ := (hvectors ReadsElement.branchTarget).unpaid
      ⟨0, [0xFF, 0xFF, 0xFF, 0xFF, 0x0F, 1, 2]⟩ ⟨5, [1, 2]⟩ 0xFFFFFFFF rfl (by decide)
    exact ⟨k, cause, c, hfails, hk⟩
  · obtain ⟨e, hread, hlength⟩ : ∃ e, Expr.decode ⟨0, [0x02, 0x40, 0x01, 0x0B, 0x0B]⟩ = .ok e ⟨5, []⟩ ∧
        (Instruction.walkAll e).length = 2 := ⟨_, rfl, rfl⟩
    have hahead := hexpressions _ _ e hread
    rwa [hlength] at hahead
  · have hm : Module.decode true Module.sample.source = .ok Module.sample := rfl
    rcases (hmodules _ _ _ hm).kept .global with hnone | hsome
    · cases hnone
    · exact hsome

end WasmBinary
