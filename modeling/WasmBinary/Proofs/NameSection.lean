import WasmBinary.Proofs.NameMaps
import WasmBinary.Proofs.Scan

/-!
# What is kept of the names

The contents of a names section are subsections, which are laid out as the sections of a file are.
`Names.Mentions` says what they mention, in order. What reading makes of it depends on nothing else.

* `Names.recognizes_subsection`: a subsection adds what it mentions to what was mentioned before.
* `Names.decode_eq_ok_iff`: contents can be read exactly if they are subsections, and give what
  these mention together.
* `Names.decode_insert`: a subsection with another id makes no difference.
* `Names.decode_keepsFirst`: nothing is lost. Each entry is kept, if it is the first for its index,
  or gives a warning.
-/
namespace WasmBinary

open Decoder (Recognizes recognizes_vector recognizes_fixedVector recognizes_name bind_eq_ok
  mapError_eq_ok within_eq_ok)
open Leb128 (U32Form recognizes_u32)

namespace Names

/-! ## What a section mentions -/

/-- The names that are kept in one map for the whole module. -/
inductive Table where
  | functions
  | globals
  | dataSegments
  deriving DecidableEq

namespace Table

/-- The id of the subsections that hold the names. -/
def id : Table → UInt8
  | functions => 1
  | globals => 7
  | dataSegments => 9

def kind : Table → NameKind
  | functions => .function
  | globals => .global
  | dataSegments => .dataSegment

theorem kind_injective {t t' : Table} (h : t.kind = t'.kind) : t = t' := by
  cases t <;> cases t' <;> first | rfl | cases h

def get (n : Names) : Table → NameMap
  | functions => n.functions
  | globals => n.globals
  | dataSegments => n.dataSegments

def put (n : Names) (m : NameMap) : Table → Names
  | functions => { n with functions := m }
  | globals => { n with globals := m }
  | dataSegments => { n with dataSegments := m }

end Table

/-- What stands in a subsection that is read. -/
inductive Mention where
  | module (name : String)
  | entry (t : Table) (e : Index × String)
  | locals (m : Index × List (Index × String))

namespace Mention

def moduleName? : Mention → Option String
  | module name => some name
  | _ => none

def entryOf? (t : Table) : Mention → Option (Index × String)
  | entry t' e => if t' = t then some e else none
  | _ => none

def localMap? : Mention → Option (Index × List (Index × String))
  | locals m => some m
  | _ => none

end Mention

/-- The names for the module, in file order. -/
def moduleNames (ms : List Mention) : List String := ms.filterMap Mention.moduleName?

/-- The entries of a map, in file order. -/
def entriesOf (t : Table) (ms : List Mention) : List (Index × String) :=
  ms.filterMap (Mention.entryOf? t)

/-- The functions with their local names, in file order. -/
def localMaps (ms : List Mention) : List (Index × List (Index × String)) :=
  ms.filterMap Mention.localMap?

/-- The warnings for a mention behind those of `front`. -/
def Mention.warnings (front : List Mention) : Mention → List Warning
  | .module _ => []
  | .entry t e => entryWarnings t.kind (entriesOf t front) e
  | .locals m => localWarnings (localMaps front) m

/-- The names that all mentions together make. -/
def told (ms : List Mention) : Names where
  module := (moduleNames ms).getLast?
  functions := ⟨firsts (entriesOf .functions ms)⟩
  locals := localTables (localMaps ms)
  globals := ⟨firsts (entriesOf .globals ms)⟩
  dataSegments := ⟨firsts (entriesOf .dataSegments ms)⟩

/-- What the mentions `ms` make of the names, behind the mentions `front`. -/
def toldAfter (front ms : List Mention) : Names × List Warning :=
  (told (front ++ ms), flatMapAfter Mention.warnings front ms)

section

variable (ms ms' : List Mention) (t : Table) (es : List (Index × String))
  (maps : List (Index × List (Index × String)))

@[simp] theorem moduleNames_append : moduleNames (ms ++ ms') = moduleNames ms ++ moduleNames ms' :=
  List.filterMap_append

@[simp] theorem entriesOf_append : entriesOf t (ms ++ ms') = entriesOf t ms ++ entriesOf t ms' :=
  List.filterMap_append

@[simp] theorem localMaps_append : localMaps (ms ++ ms') = localMaps ms ++ localMaps ms' :=
  List.filterMap_append

@[simp] theorem moduleNames_entries : moduleNames (es.map (.entry t)) = [] := by
  simp [moduleNames, Mention.moduleName?]

@[simp] theorem entriesOf_entries : entriesOf t (es.map (.entry t)) = es := by
  have hall : Mention.entryOf? t ∘ Mention.entry t = some := by
    funext e
    exact if_pos rfl
  rw [entriesOf, List.filterMap_map, hall, List.filterMap_some]

theorem entriesOf_entries_of_ne {t t' : Table} (h : t' ≠ t) :
    entriesOf t (es.map (.entry t')) = [] := by
  simp [entriesOf, Mention.entryOf?, h]

@[simp] theorem localMaps_entries : localMaps (es.map (.entry t)) = [] := by
  simp [localMaps, Mention.localMap?]

@[simp] theorem moduleNames_locals : moduleNames (maps.map .locals) = [] := by
  simp [moduleNames, Mention.moduleName?]

@[simp] theorem entriesOf_locals : entriesOf t (maps.map .locals) = [] := by
  simp [entriesOf, Mention.entryOf?]

@[simp] theorem localMaps_locals : localMaps (maps.map .locals) = maps := by
  have hall : Mention.localMap? ∘ Mention.locals = some := rfl
  rw [localMaps, List.filterMap_map, hall, List.filterMap_some]

end

theorem get_told (t : Table) (ms : List Mention) : t.get (told ms) = ⟨firsts (entriesOf t ms)⟩ := by
  cases t <;> rfl

/-- Entries of one map give the warnings that they give in this map. -/
theorem flatMapAfter_entries (t : Table) (front : List Mention) (es : List (Index × String)) :
    flatMapAfter Mention.warnings front (es.map (.entry t)) =
      flatMapAfter (entryWarnings t.kind) (entriesOf t front) es := by
  have hentries : ∀ m ∈ es.map (Mention.entry t), ∀ front : List Mention,
      m.warnings front = (m.entryOf? t).elim [] (entryWarnings t.kind (entriesOf t front)) := by
    intro m hm front
    obtain ⟨e, -, rfl⟩ := List.mem_map.mp hm
    rw [Mention.entryOf?, if_pos rfl]
    rfl
  have hselected : (es.map (Mention.entry t)).filterMap (Mention.entryOf? t) = es :=
    entriesOf_entries t es
  rw [flatMapAfter_filterMap (Mention.entryOf? t) hentries, hselected]
  rfl

theorem flatMapAfter_locals (front : List Mention) (maps : List (Index × List (Index × String))) :
    flatMapAfter Mention.warnings front (maps.map .locals) =
      flatMapAfter localWarnings (localMaps front) maps := by
  have hlocals : ∀ m ∈ maps.map Mention.locals, ∀ front : List Mention,
      m.warnings front = m.localMap?.elim [] (localWarnings (localMaps front)) := by
    intro m hm front
    obtain ⟨m, -, rfl⟩ := List.mem_map.mp hm
    rfl
  have hselected : (maps.map Mention.locals).filterMap Mention.localMap? = maps :=
    localMaps_locals maps
  rw [flatMapAfter_filterMap Mention.localMap? hlocals, hselected]
  rfl

/-! ## Subsections -/

/-- An index and then its name. -/
inductive EntryForm : Bytes → Index × String → Prop
  | mk {bs₁ bs₂ : Bytes} {i : Index} {name : String} (index : U32Form bs₁ i)
      (name_form : Format.Name bs₂ name) : EntryForm (bs₁ ++ bs₂) (i, name)

/-- The index of a function and then the names of its locals. -/
inductive LocalsForm : Bytes → Index × List (Index × String) → Prop
  | mk {bs₁ bs₂ : Bytes} {f : Index} {es : List (Index × String)} (function : U32Form bs₁ f)
      (names : Format.Vector (.fixed EntryForm) 0 bs₂ es) : LocalsForm (bs₁ ++ bs₂) (f, es)

theorem recognizes_entry : entry.Recognizes (.fixed EntryForm) := by
  refine ((recognizes_u32.mapError _).bind fun i => (recognizes_name.mapError _).bind
    fun name => .pure _).congr fun p bs e => ⟨?_, ?_⟩
  · intro h
    obtain ⟨bs₁, _, i, rfl, hi, bs₂, _, name, rfl, hname, rfl, rfl⟩ := h
    rw [List.append_nil]
    exact .mk hi hname
  · intro h
    obtain ⟨hi, hname⟩ := h
    exact ⟨_, _, _, rfl, hi, _, [], _, (List.append_nil _).symm, hname, rfl, rfl⟩

theorem recognizes_entries : entries.Recognizes (.fixed (Format.Vector (.fixed EntryForm) 0)) :=
  recognizes_fixedVector recognizes_entry

theorem recognizes_localEntries : localEntries.Recognizes (.fixed LocalsForm) := by
  refine ((recognizes_u32.mapError _).bind fun f => (recognizes_entries.mapError _).bind
    fun es => .pure _).congr fun p bs m => ⟨?_, ?_⟩
  · intro h
    obtain ⟨bs₁, _, f, rfl, hf, bs₂, _, es, rfl, hes, rfl, rfl⟩ := h
    rw [List.append_nil]
    exact .mk hf hes
  · intro h
    obtain ⟨hf, hes⟩ := h
    exact ⟨_, _, _, rfl, hf, _, [], _, (List.append_nil _).symm, hes, rfl, rfl⟩

/-- What the bytes that are read of a subsection mention. -/
def SubsectionForm (id : UInt8) (bs : Bytes) (ms : List Mention) : Prop :=
  match id with
  | 0 => ∃ name, Format.Name bs name ∧ ms = [.module name]
  | 1 => ∃ es, Format.Vector (.fixed EntryForm) 0 bs es ∧ ms = es.map (.entry .functions)
  | 2 => ∃ maps, Format.Vector (.fixed LocalsForm) 0 bs maps ∧ ms = maps.map .locals
  | 7 => ∃ es, Format.Vector (.fixed EntryForm) 0 bs es ∧ ms = es.map (.entry .globals)
  | 9 => ∃ es, Format.Vector (.fixed EntryForm) 0 bs es ∧ ms = es.map (.entry .dataSegments)
  | _ => bs = [] ∧ ms = []

theorem subsectionForm_table (t : Table) (bs : Bytes) (ms : List Mention) :
    SubsectionForm t.id bs ms ↔
      ∃ es, Format.Vector (.fixed EntryForm) 0 bs es ∧ ms = es.map (.entry t) := by
  cases t <;> exact .rfl

theorem subsection_module (front : List Mention) : subsection 0 (told front) =
    (fun name => toldAfter front [.module name]) <$> Decoder.name.mapError .module := by
  have htold (name : String) : toldAfter front [.module name] =
      ({ told front with module := some name }, []) := by
    have hname : moduleNames [.module name] = [name] := rfl
    have hentries (t : Table) : entriesOf t [.module name] = [] := rfl
    have hlocals : localMaps [.module name] = [] := rfl
    simp [toldAfter, told, hname, hentries, hlocals, flatMapAfter, Mention.warnings]
  simp only [htold]
  rfl

theorem subsection_table (t : Table) (front : List Mention) : subsection t.id (told front) =
    (fun es => toldAfter front (es.map (.entry t))) <$> entries.mapError (.map t.id) := by
  have htold (es : List (Index × String)) : toldAfter front (es.map (.entry t)) =
      (t.put (told front) (addAll t.kind (t.get (told front)) es).1,
        (addAll t.kind (t.get (told front)) es).2) := by
    rw [get_told, addAll_firsts, toldAfter, flatMapAfter_entries]
    cases t <;> simp [told, Table.put, entriesOf_entries_of_ne]
  simp only [htold]
  cases t <;> rfl

theorem subsection_locals (front : List Mention) : subsection 2 (told front) =
    (fun maps => toldAfter front (maps.map .locals)) <$>
      (Decoder.vector localEntries).mapError .locals := by
  have htold (maps : List (Index × List (Index × String))) :
      toldAfter front (maps.map .locals) =
        ({ told front with locals := (addLocals (told front).locals maps).1 },
          (addLocals (told front).locals maps).2) := by
    have hadded := addLocals_localTables maps (localMaps front)
    rw [toldAfter, flatMapAfter_locals]
    simp [told, hadded]
  simp only [htold]
  rfl

/-- The ids of the subsections that are read. -/
def ids : List UInt8 := [0, 1, 2, 7, 9]

theorem subsection_of_not_mem {id : UInt8} (h : id ∉ ids) (n : Names) :
    subsection id n = return (n, []) := by
  unfold subsection
  split <;> first | rfl | exact absurd (by decide) h

theorem subsectionForm_of_not_mem {id : UInt8} (h : id ∉ ids) (bs : Bytes) (ms : List Mention) :
    SubsectionForm id bs ms ↔ bs = [] ∧ ms = [] := by
  unfold SubsectionForm
  split <;> first | rfl | exact absurd (by decide) h

theorem toldAfter_nil (front : List Mention) : toldAfter front [] = (told front, []) := by
  simp [toldAfter, flatMapAfter]

/-- A reader of mentions. -/
theorem recognizes_told {ε α : Type} {d : Decoder ε α} {F : Bytes → α → Prop}
    (h : d.Recognizes (.fixed F)) (front : List Mention) (f : α → List Mention) :
    Recognizes ((fun a => toldAfter front (f a)) <$> d) (.fixed fun bs out =>
      ∃ ms, (∃ a, F bs a ∧ ms = f a) ∧ out = toldAfter front ms) := by
  refine (h.map _).congr fun p bs out => ⟨?_, ?_⟩
  · rintro ⟨a, ha, rfl⟩
    exact ⟨_, ⟨a, ha, rfl⟩, rfl⟩
  · rintro ⟨_, ⟨a, ha, rfl⟩, rfl⟩
    exact ⟨a, ha, rfl⟩

/-- Reading a subsection makes of the names what the subsection mentions. -/
theorem recognizes_subsection (id : UInt8) (front : List Mention) :
    (subsection id (told front)).Recognizes (.fixed fun bs out =>
      ∃ ms, SubsectionForm id bs ms ∧ out = toldAfter front ms) := by
  by_cases hid : id ∈ ids
  · have hcases : id = 0 ∨ id = 2 ∨ ∃ t : Table, id = t.id := by
      simp only [ids, List.mem_cons, List.not_mem_nil, or_false] at hid
      rcases hid with rfl | rfl | rfl | rfl | rfl
      · exact .inl rfl
      · exact .inr (.inr ⟨.functions, rfl⟩)
      · exact .inr (.inl rfl)
      · exact .inr (.inr ⟨.globals, rfl⟩)
      · exact .inr (.inr ⟨.dataSegments, rfl⟩)
    rcases hcases with rfl | rfl | ⟨t, rfl⟩
    · rw [subsection_module]
      exact recognizes_told (recognizes_name.mapError _) front _
    · rw [subsection_locals]
      exact recognizes_told ((recognizes_fixedVector recognizes_localEntries).mapError _) front _
    · simp only [subsection_table, subsectionForm_table]
      exact recognizes_told (recognizes_entries.mapError _) front _
  · rw [subsection_of_not_mem hid]
    refine (Recognizes.pure _).congr fun p bs out => ⟨?_, ?_⟩
    · rintro ⟨rfl, rfl⟩
      exact ⟨[], (subsectionForm_of_not_mem hid ..).mpr ⟨rfl, rfl⟩, (toldAfter_nil front).symm⟩
    · rintro ⟨ms, hms, rfl⟩
      obtain ⟨rfl, rfl⟩ := (subsectionForm_of_not_mem hid ..).mp hms
      exact ⟨rfl, toldAfter_nil front⟩

/-! ## The contents of a section -/

/-- The contents of a section that mention `ms`: subsections, one behind the other. Reading a
subsection need not take all of its payload. -/
inductive Mentions : Bytes → List Mention → Prop
  | nil : Mentions [] []
  | cons {r : RawSection} {taken unused contents : Bytes} {ms ms' : List Mention}
      (payload_eq : r.payload = taken ++ unused) (first : SubsectionForm r.id taken ms)
      (others : Mentions contents ms') : Mentions (r.bytes ++ contents) (ms ++ ms')

/-- What a turn of the loop does behind the size of a subsection. -/
theorem subsections_succ_of_size (bound p : Nat) (n : Names) (id : UInt8) {s : Bytes}
    {size : UInt32} {c : Cursor} (h : Leb128.u32 ⟨p + 1, s⟩ = .ok size c) :
    subsections (bound + 1) n ⟨p, id :: s⟩ =
      if (c.rest.take size.toNat).length < size.toNat then .error (.outOfBounds id size) c
      else (do
        let read ← Decoder.within size.toNat (subsection id n)
        let others ← subsections bound read.1
        return (others.1, read.2 ++ others.2)) c := by
  have hmapped : Leb128.u32.mapError NamesError.size ⟨p + 1, s⟩ = .ok size c :=
    (mapError_eq_ok ..).mpr h
  change (Leb128.u32.mapError NamesError.size >>= _) ⟨p + 1, s⟩ = _
  rw [Decoder.bind_of_ok hmapped]
  have hget (k : Cursor → Decoder NamesError (Names × List Warning)) :
      ((get : Decoder NamesError Cursor) >>= k) c = k c c := rfl
  rw [hget]
  by_cases hshort : (c.rest.take size.toNat).length < size.toNat
  · rw [if_pos hshort, if_pos hshort]
    rfl
  · rw [if_neg hshort, if_neg hshort]

/-- A turn of the loop that succeeds takes a subsection. -/
theorem exists_of_subsections {bound p : Nat} {n : Names} {id : UInt8} {s : Bytes}
    {out : Names × List Warning} {c : Cursor}
    (h : subsections (bound + 1) n ⟨p, id :: s⟩ = .ok out c) :
    ∃ (r : RawSection) (rest : Bytes), id :: s = r.bytes ++ rest := by
  have hturn : (Leb128.u32.mapError NamesError.size >>= _) ⟨p + 1, s⟩ = .ok out c := h
  obtain ⟨size, c₁, hsize, -⟩ := (bind_eq_ok ..).mp hturn
  rw [mapError_eq_ok] at hsize
  rw [subsections_succ_of_size _ _ _ _ hsize] at h
  split at h
  · cases h
  · rename_i hlong
    obtain ⟨sizeBytes, rfl, -, hform⟩ := recognizes_u32.consumed hsize
    exact RawSection.exists_of_size id hform hlong

/-- A turn of the loop reads the payload of the subsection and goes on behind it. -/
theorem subsections_succ_append (bound p : Nat) (n : Names) (r : RawSection) (rest : Bytes) :
    subsections (bound + 1) n ⟨p, r.bytes ++ rest⟩ = (do
      let read ← Decoder.within r.payload.length (subsection r.id n)
      let others ← subsections bound read.1
      return (others.1, read.2 ++ others.2)) ⟨r.payloadOffset p, r.payload ++ rest⟩ := by
  have hsize := recognizes_u32.read (p := p + 1) r.sizeForm (r.payload ++ rest)
  have hlong : ¬((r.payload ++ rest).take r.payload.length).length < r.payload.length := by simp
  rw [RawSection.bytes, List.cons_append, List.append_assoc,
    subsections_succ_of_size _ _ _ _ hsize]
  simp only [r.toNat_size, if_neg hlong]
  rfl

/-- A turn of the loop makes of the names what the subsection mentions. -/
theorem subsections_succ_eq_ok (bound p : Nat) (front : List Mention) (r : RawSection)
    (rest : Bytes) (out : Names × List Warning) (c : Cursor) :
    subsections (bound + 1) (told front) ⟨p, r.bytes ++ rest⟩ = .ok out c ↔
      ∃ taken unused ms others, r.payload = taken ++ unused ∧ SubsectionForm r.id taken ms ∧
        subsections bound (told (front ++ ms)) ⟨p + r.bytes.length, rest⟩ = .ok others c ∧
        out = (others.1, flatMapAfter Mention.warnings front ms ++ others.2) := by
  rw [subsections_succ_append]
  simp only [bind_eq_ok, within_eq_ok, r.skip_payload, List.take_left]
  constructor
  · rintro ⟨read, _, ⟨⟨c₁, hread⟩, rfl⟩, others, _, hothers, hout⟩
    cases hout
    obtain ⟨taken, hpayload, -, ms, hms, rfl⟩ := (recognizes_subsection r.id front).consumed hread
    exact ⟨taken, _, ms, others, hpayload, hms, hothers, rfl⟩
  · rintro ⟨taken, unused, ms, others, hpayload, hms, hothers, rfl⟩
    have hread := (recognizes_subsection r.id front).read (p := r.payloadOffset p)
      ⟨ms, hms, rfl⟩ unused
    rw [← hpayload] at hread
    exact ⟨_, _, ⟨⟨_, hread⟩, rfl⟩, others, c, hothers, rfl⟩

/-- The loop makes of the names what all subsections mention, and ends behind the last. -/
theorem subsections_eq_ok_iff (bound : Nat) : ∀ (p : Nat) (s : Bytes) (front : List Mention)
    (out : Names × List Warning), s.length ≤ bound →
      ((∃ c, subsections bound (told front) ⟨p, s⟩ = .ok out c) ↔
        ∃ ms, Mentions s ms ∧ out = toldAfter front ms) := by
  have hnil (bound p : Nat) (front : List Mention) (out : Names × List Warning) :
      (∃ c, subsections bound (told front) ⟨p, []⟩ = .ok out c) ↔
        ∃ ms, Mentions [] ms ∧ out = toldAfter front ms := by
    have hdone : subsections bound (told front) ⟨p, []⟩ = .ok (toldAfter front []) ⟨p, []⟩ := by
      rw [toldAfter_nil]
      cases bound <;> rfl
    rw [hdone]
    constructor
    · rintro ⟨_, h⟩
      cases h
      exact ⟨[], .nil, rfl⟩
    · rintro ⟨ms, hms, rfl⟩
      generalize hs : [] = s at hms
      cases hms with
      | nil => exact ⟨_, rfl⟩
      | cons => cases hs
  induction bound with
  | zero =>
    intro p s front out hs
    obtain rfl := List.length_eq_zero_iff.mp (Nat.le_zero.mp hs)
    exact hnil 0 p front out
  | succ bound ih =>
    intro p s front out hs
    cases s with
    | nil => exact hnil (bound + 1) p front out
    | cons b s =>
      -- A subsection has a byte at least, so what is left stays within the bound.
      have hrest {r : RawSection} {rest : Bytes} (h : b :: s = r.bytes ++ rest) :
          rest.length ≤ bound := by
        rw [h, List.length_append, r.length_bytes] at hs
        omega
      constructor
      · rintro ⟨c, h⟩
        obtain ⟨r, rest, hbs⟩ := exists_of_subsections h
        rw [hbs] at h
        obtain ⟨taken, unused, ms, others, hpayload, hms, hothers, rfl⟩ :=
          (subsections_succ_eq_ok ..).mp h
        obtain ⟨ms', hms', rfl⟩ := (ih _ _ _ _ (hrest hbs)).mp ⟨c, hothers⟩
        refine ⟨ms ++ ms', hbs ▸ .cons hpayload hms hms', ?_⟩
        simp [toldAfter, flatMapAfter_append]
      · rintro ⟨ms, hms, rfl⟩
        generalize hbs : b :: s = contents at hms
        cases hms with
        | nil => cases hbs
        | @cons r taken unused rest ms ms' hpayload hms hms' =>
          obtain ⟨c, h⟩ := (ih (p + r.bytes.length) _ (front ++ ms) _ (hrest hbs)).mpr
            ⟨ms', hms', rfl⟩
          refine ⟨c, (subsections_succ_eq_ok ..).mpr ⟨taken, unused, ms, _, hpayload, hms, h, ?_⟩⟩
          simp [toldAfter, flatMapAfter_append]

/-- The contents of a section can be read exactly if they are subsections, and then give what these
mention. -/
theorem decode_eq_ok_iff (contents : Bytes) (out : Names × List Warning) :
    decode contents = .ok out ↔
      ∃ ms, Mentions contents ms ∧ out = (told ms, flatMapAfter Mention.warnings [] ms) := by
  rw [decode, Decoder.outcome_eq_ok]
  exact subsections_eq_ok_iff contents.length 0 contents [] out (Nat.le_refl _)

theorem Mentions.append {contents contents' : Bytes} {ms ms' : List Mention}
    (h : Mentions contents ms) (h' : Mentions contents' ms') :
    Mentions (contents ++ contents') (ms ++ ms') := by
  induction h with
  | nil => exact h'
  | cons payload_eq first _ ih =>
    rw [List.append_assoc, List.append_assoc]
    exact .cons payload_eq first ih

/-- A subsection with another id makes no difference, whatever its payload. -/
theorem decode_insert {front back : Bytes} {ms ms' : List Mention} (hfront : Mentions front ms)
    (hback : Mentions back ms') {r : RawSection} (hid : r.id ∉ ids) :
    decode (front ++ (r.bytes ++ back)) = decode (front ++ back) := by
  have hnothing : SubsectionForm r.id [] [] := (subsectionForm_of_not_mem hid ..).mpr ⟨rfl, rfl⟩
  have hinserted := hfront.append (.cons rfl hnothing hback)
  exact ((decode_eq_ok_iff ..).mpr ⟨_, hinserted, rfl⟩).trans
    ((decode_eq_ok_iff ..).mpr ⟨_, hfront.append hback, rfl⟩).symm

end Names

/-! ## Nothing is lost -/

namespace Warning

/-- The entry of a map of this kind that the warning is about. -/
def dropped? (kind : NameKind) : Warning → Option (Index × String)
  | duplicateName kind' i name => if kind' = kind then some (i, name) else none
  | duplicateLocalMap _ => none

/-- The function whose local names the warning is about. -/
def function? : Warning → Option Index
  | duplicateName .. => none
  | duplicateLocalMap function => some function

@[simp] theorem dropped?_droppedEntry (kind kind' : NameKind) (e : Index × String) :
    (Names.droppedEntry kind' e).dropped? kind = if kind' = kind then some e else none := rfl

@[simp] theorem dropped?_duplicateLocalMap (kind : NameKind) (function : Index) :
    (duplicateLocalMap function).dropped? kind = none := rfl

@[simp] theorem function?_droppedEntry (kind : NameKind) (e : Index × String) :
    (Names.droppedEntry kind e).function? = none := rfl

@[simp] theorem function?_duplicateLocalMap (function : Index) :
    (duplicateLocalMap function).function? = some function := rfl

end Warning

namespace Names

/-- The entries of a module-wide map that are warned about. -/
theorem filterMap_dropped?_warnings (t : Table) (ms : List Mention) :
    (flatMapAfter Mention.warnings [] ms).filterMap (·.dropped? t.kind) =
      repeats (entriesOf t ms) := by
  rw [List.filterMap_eq_flatMap_toList, flatMap_flatMapAfter]
  refine flatMapAfter_filterMap (Mention.entryOf? t) (fun m _ front => ?_) []
  cases m with
  | module name => rfl
  | entry t' e =>
    rw [Mention.warnings, entryWarnings]
    by_cases ht : t' = t
    · subst ht
      rw [entriesOf, Mention.entryOf?, if_pos rfl, Option.elim_some]
      split <;> simp
    · have hkind : t'.kind ≠ t.kind := fun h => ht (Table.kind_injective h)
      rw [Mention.entryOf?, if_neg ht, Option.elim_none]
      split <;> simp [hkind]
  | locals m =>
    have hkind : NameKind.localVariable ≠ t.kind := by cases t <;> decide
    change (localWarnings (localMaps front) m).flatMap _ = []
    rw [localWarnings]
    split <;> simp [List.flatMap_map, hkind]

/-- The entries for locals that are warned about. -/
theorem filterMap_dropped?_local (ms : List Mention) :
    (flatMapAfter Mention.warnings [] ms).filterMap (·.dropped? .localVariable) =
      (firsts (localMaps ms)).flatMap fun m => repeats m.2 := by
  rw [List.filterMap_eq_flatMap_toList, flatMap_flatMapAfter, firsts, flatMap_flatMapAfter]
  refine flatMapAfter_filterMap Mention.localMap? (fun m _ front => ?_) []
  cases m with
  | module name => rfl
  | entry t e =>
    have hkind : t.kind ≠ .localVariable := by cases t <;> decide
    change (entryWarnings t.kind (entriesOf t front) e).flatMap _ = []
    rw [entryWarnings]
    split <;> simp [hkind]
  | locals m =>
    rw [Mention.warnings, localWarnings, localMaps, Mention.localMap?, Option.elim_some]
    split <;> simp [List.flatMap_map]

/-- The functions whose local names are warned about. -/
theorem filterMap_function?_warnings (ms : List Mention) :
    (flatMapAfter Mention.warnings [] ms).filterMap Warning.function? =
      (repeats (localMaps ms)).map Prod.fst := by
  rw [List.filterMap_eq_flatMap_toList, flatMap_flatMapAfter, List.map_eq_flatMap, repeats,
    flatMap_flatMapAfter]
  refine flatMapAfter_filterMap Mention.localMap? (fun m _ front => ?_) []
  cases m with
  | module name => rfl
  | entry t e =>
    change (entryWarnings t.kind (entriesOf t front) e).flatMap _ = []
    rw [entryWarnings]
    split <;> simp
  | locals m =>
    rw [Mention.warnings, localWarnings, localMaps, Mention.localMap?, Option.elim_some]
    split <;> simp [List.flatMap_map]

theorem keys_localTables (maps : List (Index × List (Index × String))) :
    (localTables maps).map Prod.fst = (firsts maps).map Prod.fst := by
  simp [localTables]

/-- What is left of the contents of a section that can be read. Whatever they mention:

* a module-wide map keeps the first name for each index, and each further entry of that map gives
  one warning;
* of the local names of a function the first map is kept, in which the same holds, and each further
  map gives one warning and no other;
* the warnings stand in the order of what they are about;
* of the names for the module the last is kept. -/
theorem decode_keepsFirst {contents : Bytes} {n : Names} {warnings : List Warning}
    (h : decode contents = .ok (n, warnings)) :
    (∃ ms, Mentions contents ms) ∧ ∀ ms, Mentions contents ms →
      (∀ t : Table, (t.get n).KeepsFirst (entriesOf t ms) ∧
        warnings.filterMap (·.dropped? t.kind) = repeats (entriesOf t ms)) ∧
      (n.locals.map Prod.fst).Nodup ∧
      (∀ function, Option.Rel NameMap.KeepsFirst (n.locals.lookup function)
        ((localMaps ms).lookup function)) ∧
      warnings.filterMap (·.dropped? .localVariable) =
        (firsts (localMaps ms)).flatMap (fun m => repeats m.2) ∧
      warnings.filterMap Warning.function? = (repeats (localMaps ms)).map Prod.fst ∧
      warnings = flatMapAfter Mention.warnings [] ms ∧
      n.module = (moduleNames ms).getLast? := by
  obtain ⟨ms, hms, -⟩ := (decode_eq_ok_iff ..).mp h
  refine ⟨⟨ms, hms⟩, fun ms hms => ?_⟩
  have hout := h.symm.trans ((decode_eq_ok_iff ..).mpr ⟨ms, hms, rfl⟩)
  obtain ⟨rfl, rfl⟩ := Prod.mk.inj (Except.ok.inj hout)
  refine ⟨fun t => ⟨?_, filterMap_dropped?_warnings t ms⟩, ?_, fun function => ?_,
    filterMap_dropped?_local ms, filterMap_function?_warnings ms, rfl, rfl⟩
  · rw [get_told]
    exact keepsFirst_firsts _
  · exact keys_localTables _ ▸ nodup_keys_firsts _
  · have hlookup := lookup_localTables (localMaps ms) function
    change Option.Rel _ ((localTables (localMaps ms)).lookup function) _
    rw [hlookup]
    cases (localMaps ms).lookup function with
    | none => exact .none
    | some es => exact .some (keepsFirst_firsts es)

/-- Two lists of function names, between them a subsection that is not read, and local names. -/
def sample : Bytes :=
  [1, 7, 2, 0, 1, 0x61, 0, 1, 0x62,
    0x42, 2, 0xFF, 0xFF,
    2, 14, 2, 1, 2, 0, 1, 0x78, 0, 1, 0x79, 1, 1, 5, 1, 0x7A,
    1, 7, 2, 0, 1, 0x63, 1, 1, 0x64]

theorem decode_keepsFirst_sample :
    decode sample = .ok
      ({ functions := ⟨[(0, "a"), (1, "d")]⟩, locals := [(1, ⟨[(0, "x")]⟩)] },
        [.duplicateName .function 0 "b", .duplicateName .localVariable 0 "y",
          .duplicateLocalMap 1, .duplicateName .function 0 "c"]) ∧
    ∃ ms, Mentions sample ms ∧
      (entriesOf .functions ms).Perm [(0, "a"), (1, "d"), (0, "b"), (0, "c")] ∧
      (entriesOf .functions ms).lookup 0 = some "a" ∧
      repeats (entriesOf .functions ms) = [(0, "b"), (0, "c")] ∧
      (repeats (localMaps ms)).map Prod.fst = [1] := by
  have hread : decode sample = .ok
      ({ functions := ⟨[(0, "a"), (1, "d")]⟩, locals := [(1, ⟨[(0, "x")]⟩)] },
        [.duplicateName .function 0 "b", .duplicateName .localVariable 0 "y",
          .duplicateLocalMap 1, .duplicateName .function 0 "c"]) := rfl
  obtain ⟨⟨ms, hms⟩, hkept⟩ := decode_keepsFirst hread
  obtain ⟨htables, -, -, -, hlocals, -⟩ := hkept ms hms
  obtain ⟨hfunctions, hrepeats⟩ := htables .functions
  have hperm := hfunctions.perm
  rw [← hrepeats] at hperm
  exact ⟨hread, ms, hms, hperm, (hfunctions.get?_eq 0).symm, hrepeats.symm, hlocals.symm⟩

end Names

end WasmBinary
