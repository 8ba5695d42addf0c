import WasmBinary.Proofs.Output

/-!
# Writing over what was written

Replacing the data of a module leaves nothing of the data that was there before, and neither does
embedding an image leave anything of an earlier one. So the output of either tool is as good an input as
the module that it was made from: from then on both give the same bytes, or the same error.

* `Encoder.module_congr`: what the bytes that are written for a module depend on.
* `DataReplacement.write_congr`, `Template.embed_of_stored`: the same for the two tools.
* `Module.overwrites`: using a tool again on its own output.
-/
namespace WasmBinary

/-! ## What the writers do not look at -/

theorem Instruction.constant?_mapOffsets (f : Nat → Nat) (i : Instruction) :
    (i.mapOffsets f).constant? = i.constant? := by
  cases i with
  | plain o p immediate => cases immediate <;> rfl
  | _ => rfl

theorem Instruction.length_mapOffsetsAll (f : Nat → Nat) (e : List Instruction) :
    (Instruction.mapOffsetsAll f e).length = e.length := by
  induction e with
  | nil => rfl
  | cons i rest ih => exact congrArg (· + 1) ih

theorem Expr.constant_mapOffsets (f : Nat → Nat) (e : Expr) :
    (e.mapOffsets f).constant = e.constant := by
  rcases e with _ | ⟨i, _ | ⟨j, rest⟩⟩
  · rfl
  · simp only [Expr.mapOffsets, Instruction.mapOffsetsAll, Expr.constant,
      Instruction.constant?_mapOffsets, Instruction.text_mapOffsets]
  · simp only [Expr.mapOffsets, Instruction.mapOffsetsAll, Expr.constant, List.length_cons,
      Instruction.length_mapOffsetsAll]

namespace Encoder

theorem constExprLength_mapOffsets (f : Nat → Nat) (e : Expr) :
    constExprLength (e.mapOffsets f) = constExprLength e := by
  rw [constExprLength_eq, constExprLength_eq, Expr.constant_mapOffsets]

theorem constExpr_mapOffsets (f : Nat → Nat) (e : Expr) :
    constExpr (e.mapOffsets f) = constExpr e := by
  simp only [constExpr, Expr.constant_mapOffsets]

theorem global_mapOffsets (f : Nat → Nat) (g : Global) :
    global (g.mapOffsets f) = global g ∧ globalLength (g.mapOffsets f) = globalLength g := by
  simp only [global, globalLength, Global.mapOffsets, constExpr_mapOffsets,
    constExprLength_mapOffsets, and_self]

theorem dataSegment_mapOffsets (f : Nat → Nat) (d : DataSegment) :
    dataSegment (d.mapOffsets f) = dataSegment d ∧
      dataSegmentLength (d.mapOffsets f) = dataSegmentLength d := by
  obtain ⟨mode, init⟩ := d
  cases mode with
  | passive => exact ⟨rfl, rfl⟩
  | active offset | activeIn memory offset =>
    simp only [dataSegment, dataSegmentLength, DataSegment.mapOffsets, DataMode.mapOffsets,
      DataMode.tag, constExpr_mapOffsets, constExprLength_mapOffsets, and_self]

theorem itemsLength_map {α : Type} {itemLength : α → Except EncodeError Nat} {g : α → α}
    (h : ∀ a, itemLength (g a) = itemLength a) (items : List α) :
    itemsLength itemLength (items.map g) = itemsLength itemLength items := by
  induction items with
  | nil => rfl
  | cons a rest ih => simp only [List.map_cons, itemsLength, h, ih]

theorem vectorSection_map {α : Type} {itemLength : α → Except EncodeError Nat}
    {item : α → Encoder Unit} {g : α → α}
    (h : ∀ a, item (g a) = item a ∧ itemLength (g a) = itemLength a) (kind : SectionKind)
    (items : List α) :
    vectorSection kind (vectorLength itemLength) item (items.map g) =
      vectorSection kind (vectorLength itemLength) item items := by
  have hitems : (items.map g).forM item = items.forM item := by
    induction items with
    | nil => rfl
    | cons a rest ih =>
      change (item (g a) >>= fun _ => (rest.map g).forM item) = (item a >>= fun _ => rest.forM item)
      rw [ih, (h a).1]
  simp only [vectorSection, vectorLength, List.length_map, itemsLength_map fun a => (h a).2, hitems]

/-! ## Modules -/

/-- The replacements, without where their instructions were found. -/
def Replacements.withoutOffsets (r : Replacements) : Replacements where
  globals := r.globals.map (·.map Global.withoutOffsets)
  datas := r.datas.map (·.map DataSegment.withoutOffsets)
  dataCount := r.dataCount

theorem copySection_congr {file file' : Bytes} {s s' : Section} (h : s'.raw? file' = s.raw? file) :
    copySection file' s' = copySection file s := by
  simp only [copySection, h]

theorem sectionOf_withoutOffsets (m : Module) (r : Replacements) (s : Section) :
    sectionOf m r.withoutOffsets s = sectionOf m r s := by
  obtain ⟨globals, datas, dataCount⟩ := r
  obtain ⟨kind, size, offset, payload⟩ := s
  cases kind with
  | global =>
    cases globals with
    | none => rfl
    | some globals => exact vectorSection_map (global_mapOffsets _) .global globals
  | data =>
    cases datas with
    | none => rfl
    | some datas => exact vectorSection_map (dataSegment_mapOffsets _) .data datas
  | dataCount => cases dataCount <;> rfl
  | _ => rfl

/-- What replaces a section is written whatever the section was. A section that is copied is a matter
of its bytes. -/
theorem sectionOf_congr {m m' : Module} {r : Replacements} {s s' : Section}
    (hkind : s'.kind = s.kind)
    (hraw : r.payload? s.kind = none → s'.raw? m'.source = s.raw? m.source) :
    sectionOf m' r s' = sectionOf m r s := by
  obtain ⟨globals, datas, dataCount⟩ := r
  obtain ⟨kind, size, offset, payload⟩ := s
  obtain ⟨kind', size', offset', payload'⟩ := s'
  obtain rfl : kind' = kind := hkind
  cases kind' with
  | global =>
    cases globals with
    | none => exact copySection_congr (hraw rfl)
    | some globals => rfl
  | data =>
    cases datas with
    | none => exact copySection_congr (hraw rfl)
    | some datas => rfl
  | dataCount =>
    cases dataCount with
    | none => exact copySection_congr (hraw rfl)
    | some count => rfl
  | _ => exact copySection_congr (hraw rfl)

/-- Modules whose sections are the same but for those that are replaced are written alike. -/
theorem module_congr {m m' : Module} {r r' : Replacements}
    (hr : r'.withoutOffsets = r.withoutOffsets) (hversion : m'.version = m.version)
    (hsections : m.SameSections (fun kind => r.payload? kind = none) m') :
    Encoder.module m' r' = Encoder.module m r := by
  have hwriters : m'.sections.map (sectionOf m' r') = m.sections.map (sectionOf m r) := by
    refine List.ext_getElem (by simpa using congrArg List.length hsections.kinds) fun i hi' hi => ?_
    rw [List.length_map] at hi hi'
    have hs := List.getElem?_eq_getElem hi
    have hs' := List.getElem?_eq_getElem hi'
    have hkind := congrArg (·[i]?) hsections.kinds
    simp only [List.getElem?_map, hs, hs', Option.map_some, Option.some.injEq] at hkind
    rw [List.getElem_map, List.getElem_map, ← sectionOf_withoutOffsets m' r', hr,
      sectionOf_withoutOffsets]
    refine sectionOf_congr hkind fun hcopied => ?_
    obtain ⟨raw, hraw, hraw'⟩ := hsections.raw i _ _ hs hs' hcopied
    rw [hraw, hraw']
  have hforM {α : Type} (w : α → Encoder Unit) (l : List α) : l.forM w = (l.map w).forM id := by
    induction l with
    | nil => rfl
    | cons a rest ih =>
      change (w a >>= fun _ => rest.forM w) = (w a >>= fun _ => (rest.map w).forM id)
      rw [ih]
  rw [Encoder.module, Encoder.module, hversion, hforM, hwriters, ← hforM]

end Encoder

/-! ## Data -/

theorem Encoder.Replacements.payload?_datas (segments : List DataSegment) (count : UInt32)
    (kind : SectionKind) :
    Encoder.Replacements.payload? { datas := some segments, dataCount := some count } kind = none ↔
      kind ≠ .data ∧ kind ≠ .dataCount := by
  cases kind <;> simp [Encoder.Replacements.payload?]

theorem Encoder.Replacements.payload?_template (globals : List Global) (datas : List DataSegment)
    (kind : SectionKind) :
    Encoder.Replacements.payload? { globals := some globals, datas := some datas } kind = none ↔
      kind ≠ .global ∧ kind ≠ .data := by
  cases kind <;> simp [Encoder.Replacements.payload?]

/-- Replacing data looks at the version and at the sections that are kept. -/
theorem DataReplacement.write_congr {m m' : Module} (hversion : m'.version = m.version)
    (hsections : m.SameSections (fun kind => kind ≠ .data ∧ kind ≠ .dataCount) m')
    (o : DataReplacement) (blob : Bytes) : o.write m' blob = o.write m blob := by
  have hmodule (segments : List DataSegment) (count : UInt32) :
      Encoder.module m' { datas := some segments, dataCount := some count } =
        Encoder.module m { datas := some segments, dataCount := some count } := by
    refine Encoder.module_congr rfl hversion (hsections.mono fun kind hkept => ?_)
    exact (Encoder.Replacements.payload?_datas ..).mp hkept
  simp only [DataReplacement.write, hsections.hasSection, hmodule]

namespace Template

/-- The globals with the length of a descriptor where the template keeps it. -/
def storeLength (t : Template) (blob : Bytes) (globals : List Global) : List Global :=
  globals.modify t.descriptorLengthGlobal fun g =>
    { g with init := [.i32Const (Int32.ofNat blob.length)] }

/-- The data segments with a descriptor and the bytes of an image where the template keeps them. -/
def storeImage (t : Template) (blob content : Bytes) (datas : List DataSegment) : List DataSegment :=
  (datas.modify t.descriptorSegment fun d => { d with init := blob }).modify t.moduleDataSegment
    fun d => { d with init := content }

theorem getElem_storeLength (t : Template) (blob : Bytes) (gs : List Global) {i : Nat}
    (hi : i < gs.length) (h : i < (t.storeLength blob gs).length) :
    (t.storeLength blob gs)[i] = { gs[i] with
      init := if t.descriptorLengthGlobal = i then [.i32Const (Int32.ofNat blob.length)]
        else gs[i].init } := by
  simp only [storeLength, List.getElem_modify]
  split <;> rfl

theorem getElem_storeImage (t : Template) (blob content : Bytes) (ds : List DataSegment) {i : Nat}
    (hi : i < ds.length) (h : i < (t.storeImage blob content ds).length) :
    (t.storeImage blob content ds)[i] = { ds[i] with
      init := if t.moduleDataSegment = i then content
        else if t.descriptorSegment = i then blob
        else ds[i].init } := by
  simp only [storeImage, List.getElem_modify]
  split <;> split <;> rfl

/-- Of the length that was stored first nothing is left. -/
theorem storeLength_over {t : Template} {blob blob' : Bytes} {gs gs' : List Global}
    (h : gs'.map Global.withoutOffsets = (t.storeLength blob gs).map Global.withoutOffsets) :
    (t.storeLength blob' gs').map Global.withoutOffsets =
      (t.storeLength blob' gs).map Global.withoutOffsets := by
  have hlength : gs'.length = gs.length := by simpa [storeLength] using congrArg List.length h
  refine List.ext_getElem (by simp [storeLength, hlength]) fun i hi' hi => ?_
  rw [List.length_map, storeLength, List.length_modify] at hi hi'
  have hplace := List.getElem_of_eq h (by simpa using hi')
  simp only [List.getElem_map, t.getElem_storeLength _ _ hi] at hplace
  obtain ⟨htype, hinit⟩ := Global.mk.inj hplace
  simp only [List.getElem_map, t.getElem_storeLength _ _ hi, t.getElem_storeLength _ _ hi', htype]
  by_cases heq : t.descriptorLengthGlobal = i
  · simp only [if_pos heq]
  · rw [if_neg heq] at hinit
    simp only [if_neg heq]
    exact congrArg (Global.mk gs[i].type) hinit

/-- Of the image that was stored first nothing is left. -/
theorem storeImage_over {t : Template} {blob blob' content content' : Bytes}
    {ds ds' : List DataSegment}
    (h : ds'.map DataSegment.withoutOffsets =
      (t.storeImage blob content ds).map DataSegment.withoutOffsets) :
    (t.storeImage blob' content' ds').map DataSegment.withoutOffsets =
      (t.storeImage blob' content' ds).map DataSegment.withoutOffsets := by
  have hlength : ds'.length = ds.length := by simpa [storeImage] using congrArg List.length h
  refine List.ext_getElem (by simp [storeImage, hlength]) fun i hi' hi => ?_
  rw [List.length_map, storeImage, List.length_modify, List.length_modify] at hi hi'
  have hplace := List.getElem_of_eq h (by simpa using hi')
  simp only [List.getElem_map, t.getElem_storeImage _ _ _ hi] at hplace
  obtain ⟨hmode, hinit⟩ := DataSegment.mk.inj hplace
  simp only [List.getElem_map, t.getElem_storeImage _ _ _ hi, t.getElem_storeImage _ _ _ hi']
  refine congrArg₂ DataSegment.mk hmode ?_
  dsimp only at hinit ⊢
  by_cases hmoduleData : t.moduleDataSegment = i
  · simp only [if_pos hmoduleData]
  · by_cases hdescriptor : t.descriptorSegment = i
    · simp only [if_neg hmoduleData, if_pos hdescriptor]
    · rw [if_neg hmoduleData, if_neg hdescriptor] at hinit
      simp only [if_neg hmoduleData, if_neg hdescriptor]
      exact hinit

/-- Whether an image can be embedded depends on how many globals and data segments there are. -/
theorem replacements_cases {m m' : Module} (hglobals : m'.globals.length = m.globals.length)
    (hdatas : m'.datas.length = m.datas.length) (t : Template) (image : Image) :
    (∃ e, replacements m t image = .error e ∧ replacements m' t image = .error e) ∨ ∃ blob,
      replacements m t image =
        .ok (t.storeLength blob m.globals, t.storeImage blob image.content m.datas) ∧
      replacements m' t image =
        .ok (t.storeLength blob m'.globals, t.storeImage blob image.content m'.datas) := by
  simp only [replacements, hglobals, hdatas]
  cases descriptor [image] with
  | error e => exact .inl ⟨e, rfl, rfl⟩
  | ok blob =>
    simp only [bind, Except.bind]
    split
    · exact .inl ⟨_, rfl, rfl⟩
    split
    · exact .inl ⟨_, rfl, rfl⟩
    split
    · exact .inl ⟨_, rfl, rfl⟩
    split
    · exact .inl ⟨_, rfl, rfl⟩
    exact .inr ⟨blob, rfl, rfl⟩

/-- The places stay where they are. -/
theorem locate_of_stored {m m' : Module} {t : Template} {blob content : Bytes}
    (hsame : m'.withoutPlaces = { m.withoutPlaces with
      globals := (t.storeLength blob m.globals).map Global.withoutOffsets
      datas := (t.storeImage blob content m.datas).map DataSegment.withoutOffsets }) :
    locate m' = locate m := by
  have hexports : m'.withoutPlaces.exports = _ := congrArg Module.exports hsame
  have himports : m'.withoutPlaces.imports = _ := congrArg Module.imports hsame
  have hglobals : m'.withoutPlaces.globals = _ := congrArg Module.globals hsame
  have hdatas : m'.withoutPlaces.datas = _ := congrArg Module.datas hsame
  have htags := congrArg (List.map (·.mode.tag)) hdatas
  simp only [Module.withoutPlaces, map_tag_withoutOffsets, storeImage, map_tag_modify] at htags
  refine locate_congr hexports himports ?_ htags
  simpa [Module.withoutPlaces, storeLength] using congrArg List.length hglobals

/-- Embedding into a template that carries an image is embedding into the template. -/
theorem embed_of_stored {m m' : Module} {t : Template} {blob content : Bytes}
    (ht : locate m = .ok t)
    (hsections : m.SameSections (fun kind => kind ≠ .global ∧ kind ≠ .data) m')
    (hsame : m'.withoutPlaces = { m.withoutPlaces with
      globals := (t.storeLength blob m.globals).map Global.withoutOffsets
      datas := (t.storeImage blob content m.datas).map DataSegment.withoutOffsets })
    (image : Image) : embed m' image = embed m image := by
  have hversion : m'.withoutPlaces.version = _ := congrArg Module.version hsame
  have hglobals : m'.withoutPlaces.globals = _ := congrArg Module.globals hsame
  have hdatas : m'.withoutPlaces.datas = _ := congrArg Module.datas hsame
  have hcount : m'.globals.length = m.globals.length := by
    simpa [Module.withoutPlaces, storeLength] using congrArg List.length hglobals
  have hcount' : m'.datas.length = m.datas.length := by
    simpa [Module.withoutPlaces, storeImage] using congrArg List.length hdatas
  rw [embed, embed, locate_of_stored hsame, ht]
  simp only [Writer.ofExcept, pure_bind]
  rcases replacements_cases hcount hcount' t image with ⟨e, he, he'⟩ | ⟨blob', hr, hr'⟩
  · rw [he, he']
    rfl
  · rw [hr, hr']
    simp only [pure_bind]
    congr 1
    refine Encoder.module_congr ?_ hversion (hsections.mono fun kind hkept => ?_)
    · simp only [Encoder.Replacements.withoutOffsets, Option.map_some, storeLength_over hglobals,
        storeImage_over hdatas]
    · exact (Encoder.Replacements.payload?_template ..).mp hkept

/-- What embedding an image makes of a template. -/
theorem exists_of_embed {readCode : Bool} {file : Bytes} {m : Module} {image : Image}
    {capacity : Option Nat} {sink : Sink} (hm : Module.decode readCode file = .ok m)
    (hw : embed m image (.empty capacity) = .ok () sink) :
    ∃ t blob m', locate m = .ok t ∧ Module.decode readCode sink.bytes = .ok m' ∧
      m.SameSections (fun kind => kind ≠ .global ∧ kind ≠ .data) m' ∧
      m'.withoutPlaces = { m.withoutPlaces with
        globals := (t.storeLength blob m.globals).map Global.withoutOffsets
        datas := (t.storeImage blob image.content m.datas).map DataSegment.withoutOffsets } := by
  obtain ⟨t, globals, datas, ht, hr, hmodule⟩ := (embed_eq_ok_iff ..).mp hw
  obtain ⟨blob, -, -, hglobal, hdescriptor, -, hreplaced⟩ := exists_of_replacements hr
  obtain ⟨rfl, rfl⟩ := Prod.mk.inj hreplaced
  obtain ⟨m', hm', hsections, hsame⟩ := Encoder.decode_module hm hmodule
  have hsectioned := Module.sectioned_of_decode hm
  simp only [Encoder.Replacements.applyTo, hsectioned.hasSection_global hglobal,
    hsectioned.hasSection_data hdescriptor, if_true] at hsame
  exact ⟨t, blob, m', ht, hm',
    hsections.mono fun _ => (Encoder.Replacements.payload?_template ..).mpr, hsame⟩

end Template

/-- What replacing its data makes of a module. -/
theorem DataReplacement.exists_of_write {readCode : Bool} {file : Bytes} {m : Module}
    {o : DataReplacement} {blob : Bytes} {capacity : Option Nat} {sink : Sink}
    (hm : Module.decode readCode file = .ok m)
    (hw : o.write m blob (.empty capacity) = .ok () sink) :
    ∃ m', Module.decode readCode sink.bytes = .ok m' ∧
      m.SameSections (fun kind => kind ≠ .data ∧ kind ≠ .dataCount) m' ∧
      m'.version = m.version := by
  obtain ⟨-, segments, count, -, -, hmodule⟩ := (write_eq_ok_iff ..).mp hw
  obtain ⟨m', hm', hsections, hsame⟩ := Encoder.decode_module hm hmodule
  have hversion : m'.withoutPlaces.version = _ := congrArg Module.version hsame
  exact ⟨m', hm', hsections.mono fun _ => (Encoder.Replacements.payload?_datas ..).mpr, hversion⟩

namespace Module

/-- Read with the code or without, a file gives the same apart from the code. -/
theorem withoutCode_eq_of_decode {readCode readCode' : Bool} {file : Bytes} {m m' : Module}
    (hm : decode readCode file = .ok m) (hm' : decode readCode' file = .ok m') :
    m'.withoutCode = m.withoutCode :=
  Except.ok.inj ((decode_withoutCode hm').symm.trans (decode_withoutCode hm))

/-- The output of a tool can be read. Used on what was read, with the code or without, the tool gives
what it gives on the module that the output was made from. -/
theorem overwrites {readCode : Bool} {file : Bytes} {m : Module}
    (hm : decode readCode file = .ok m) :
    (∀ (o : DataReplacement) (blob : Bytes) (capacity : Option Nat) (sink : Sink),
      o.write m blob (.empty capacity) = .ok () sink →
        (∃ m', decode readCode sink.bytes = .ok m') ∧
        ∀ readCode' m', decode readCode' sink.bytes = .ok m' →
          ∀ (o' : DataReplacement) (blob' : Bytes), o'.write m' blob' = o'.write m blob') ∧
    ∀ (image : Image) (capacity : Option Nat) (sink : Sink),
      Template.embed m image (.empty capacity) = .ok () sink →
        (∃ m', decode readCode sink.bytes = .ok m') ∧
        ∀ readCode' m', decode readCode' sink.bytes = .ok m' →
          ∀ image', Template.embed m' image' = Template.embed m image' := by
  constructor
  · intro o blob capacity sink hw
    obtain ⟨n, hn, hsections, hversion⟩ := DataReplacement.exists_of_write hm hw
    refine ⟨⟨n, hn⟩, fun readCode' m' hm' o' blob' => ?_⟩
    calc o'.write m' blob' = o'.write m'.withoutCode blob' := rfl
      _ = o'.write n.withoutCode blob' := by rw [withoutCode_eq_of_decode hn hm']
      _ = o'.write n blob' := rfl
      _ = o'.write m blob' := DataReplacement.write_congr hversion hsections o' blob'
  · intro image capacity sink hw
    obtain ⟨t, blob, n, ht, hn, hsections, hsame⟩ := Template.exists_of_embed hm hw
    have hembed := Template.embed_of_stored ht hsections hsame
    refine ⟨⟨n, hn⟩, fun readCode' m' hm' image' => ?_⟩
    calc Template.embed m' image' = Template.embed m'.withoutCode image' := rfl
      _ = Template.embed n.withoutCode image' := by rw [withoutCode_eq_of_decode hn hm']
      _ = Template.embed n image' := rfl
      _ = Template.embed m image' := hembed image'

set_option maxRecDepth 4000 in
/-- The two segments of the first replacement, and the count of two, are gone after the second; and a
template that carries an image takes another. -/
theorem overwrites_unevenModule :
    decode true DataReplacement.unevenModule.source = .ok DataReplacement.unevenModule ∧
      DataReplacement.splitAtZeros.write DataReplacement.unevenModule [1, 0, 0, 0, 2]
        (.empty none) = .ok () DataReplacement.splitOutput ∧
      (∃ m', decode true DataReplacement.splitOutput.bytes = .ok m' ∧
        ({ passive := true } : DataReplacement).write m' [7] (.empty none) =
          .ok () ⟨[[7], [1], [1], [1], [4], [11], [99, 1, 7], [1], [1], [12], [1, 0, 0, 0],
            [0, 97, 115, 109]], none⟩) ∧
      decode true Template.smallTemplate.source = .ok Template.smallTemplate ∧
      Template.embed Template.smallTemplate ⟨"a", [7, 8]⟩ (.empty none) =
        .ok () Template.smallOutput ∧
      ∃ m', decode true Template.smallOutput.bytes = .ok m' ∧
        ∀ image, Template.embed m' image = Template.embed Template.smallTemplate image := by
  have hm : decode true DataReplacement.unevenModule.source = .ok DataReplacement.unevenModule := rfl
  have hw : DataReplacement.splitAtZeros.write DataReplacement.unevenModule [1, 0, 0, 0, 2]
      (.empty none) = .ok () DataReplacement.splitOutput := by with_unfolding_all rfl
  have ht : decode true Template.smallTemplate.source = .ok Template.smallTemplate := rfl
  have hlocate : Template.locate Template.smallTemplate = .ok ⟨0, 1, 0, 1⟩ := rfl
  have hreplacements : Template.replacements Template.smallTemplate ⟨0, 1, 0, 1⟩ ⟨"a", [7, 8]⟩ =
      .ok ([⟨⟨.const, .i32⟩, [.plain .i32Const 21 (.i32 1)]⟩,
          ⟨⟨.const, .i32⟩, [.i32Const 18]⟩],
        [⟨.passive, [1, 0, 0, 0, 14, 0, 0, 0, 2, 0, 0, 0, 97, 0, 2, 0, 0, 0]⟩,
          ⟨.passive, [7, 8]⟩]) := rfl
  have he : Template.embed Template.smallTemplate ⟨"a", [7, 8]⟩ (.empty none) =
      .ok () Template.smallOutput :=
    (Template.embed_eq_ok_iff ..).mpr ⟨_, _, _, hlocate, hreplacements, by with_unfolding_all rfl⟩
  obtain ⟨⟨m₁, hm₁⟩, hagain⟩ := (overwrites hm).1 _ _ _ _ hw
  obtain ⟨⟨m₂, hm₂⟩, hagain'⟩ := (overwrites ht).2 _ _ _ he
  refine ⟨hm, hw, ⟨m₁, hm₁, ?_⟩, ht, he, m₂, hm₂, hagain' true m₂ hm₂⟩
  rw [hagain true m₁ hm₁]
  with_unfolding_all rfl

end Module

end WasmBinary
