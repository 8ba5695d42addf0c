import WasmBinary.Template
import WasmBinary.Proofs.Replacement

/-!
# Templates that carry an image

`Template.embed` gives a template again, with the same places, whose contents have changed at three
places only: the length of the descriptor, the descriptor and the bytes of the image.

* `Template.locate_congr`: what the places of a template depend on.
* `Template.Carries`: how a module that carries an image differs from its template.
* `Template.decode_embed`: the module that is read from the output.
-/
namespace WasmBinary

theorem DataMode.isPassive_eq (mode : DataMode) : mode.isPassive = (mode.tag == 1) := by
  cases mode <;> rfl

namespace Template

/-! ## Where the places are -/

theorem exported_congr {m m' : Module} (hexports : m'.exports = m.exports) (name : String)
    (kind : ExternalKind) : exported m' name kind = exported m name kind := by
  simp only [exported, Module.findExport?, hexports]

theorem definedGlobal_congr {m m' : Module} (hexports : m'.exports = m.exports)
    (himports : m'.imports = m.imports) (hglobals : m'.globals.length = m.globals.length)
    (name : String) : definedGlobal m' name = definedGlobal m name := by
  have himported : m'.importedGlobalCount = m.importedGlobalCount := by
    rw [Module.importedGlobalCount, himports]
    rfl
  simp only [definedGlobal, exported_congr hexports, himported, hglobals]

/-- The places depend on the imports, the exports, the number of globals and the modes of the data
segments. -/
theorem locate_congr {m m' : Module} (hexports : m'.exports = m.exports)
    (himports : m'.imports = m.imports) (hglobals : m'.globals.length = m.globals.length)
    (htags : m'.datas.map (·.mode.tag) = m.datas.map (·.mode.tag)) : locate m' = locate m := by
  have hfirst (ds : List DataSegment) : ds.findIdx? (·.mode.isPassive) =
      (ds.map (·.mode.tag)).findIdx? (· == 1) := by
    rw [List.findIdx?_map]
    congr 1
    funext d
    exact d.mode.isPassive_eq
  simp only [locate, definedGlobal_congr hexports himports hglobals, exported_congr hexports, hfirst,
    htags]
  cases List.findIdx? (· == 1) (m.datas.map (·.mode.tag)) with
  | none => rfl
  | some k =>
    have htag := congrArg (·[k + 1]?) htags
    simp only [List.getElem?_map] at htag
    cases hd' : m'.datas[k + 1]? <;> cases hd : m.datas[k + 1]? <;>
      simp only [hd, hd', Option.map_some, Option.map_none, reduceCtorEq, Option.some.injEq] at htag
    · simp only [hd, hd']
    · simp only [hd, hd', DataMode.isPassive_eq, htag]

theorem moduleDataSegment_of_locate {m : Module} {t : Template} (h : locate m = .ok t) :
    t.moduleDataSegment = t.descriptorSegment + 1 := by
  unfold locate at h
  simp only [Except.bind_eq_ok] at h
  obtain ⟨versionGlobal, -, descriptorLengthGlobal, -, _, -, _, -, h⟩ := h
  split at h
  · cases h
  · split at h
    · cases h
    · split at h
      · cases h
        rfl
      · cases h

/-! ## What is written -/

/-- The replaced globals and data segments, and what had to fit for it. -/
theorem exists_of_replacements {m : Module} {t : Template} {image : Image}
    {r : List Global × List DataSegment} (h : replacements m t image = .ok r) :
    ∃ blob, descriptor [image] = .ok blob ∧ (blob.length : Int) ≤ Int32.maxValue.toInt ∧
      t.descriptorLengthGlobal < m.globals.length ∧ t.descriptorSegment < m.datas.length ∧
      t.moduleDataSegment < m.datas.length ∧
      r = (m.globals.modify t.descriptorLengthGlobal fun g =>
          { g with init := [.i32Const (Int32.ofNat blob.length)] },
        (m.datas.modify t.descriptorSegment fun d => { d with init := blob }).modify
          t.moduleDataSegment fun d => { d with init := image.content }) := by
  simp only [replacements, Except.bind_eq_ok] at h
  obtain ⟨blob, hblob, h⟩ := h
  split at h
  · cases h
  rename_i hfits
  split at h
  · cases h
  rename_i hglobal
  split at h
  · cases h
  rename_i hdescriptor
  split at h
  · cases h
  rename_i hmoduleData
  cases h
  exact ⟨blob, hblob, by omega, by omega, by omega, by omega, rfl⟩

theorem embed_eq_ok_iff (m : Module) (image : Image) (s s' : Sink) :
    embed m image s = .ok () s' ↔ ∃ t globals datas, locate m = .ok t ∧
      replacements m t image = .ok (globals, datas) ∧
        Encoder.module m { globals := some globals, datas := some datas } s = .ok () s' := by
  simp only [embed, Writer.bind_eq_ok, Writer.mapError_eq_ok, Writer.ofExcept_eq_ok]
  constructor
  · intro h
    obtain ⟨t, _, ⟨ht, rfl⟩, ⟨globals, datas⟩, _, ⟨hr, rfl⟩, hmodule⟩ := h
    exact ⟨t, globals, datas, ht, hr, hmodule⟩
  · intro h
    obtain ⟨t, globals, datas, ht, hr, hmodule⟩ := h
    exact ⟨t, s, ⟨ht, rfl⟩, (globals, datas), s, ⟨hr, rfl⟩, hmodule⟩

/-! ## What is read from the output -/

/-- `m'` differs from `m` only where template `t` keeps the descriptor and the bytes of an image, and
holds those there. -/
structure Carries (t : Template) (descriptor content : Bytes) (m m' : Module) : Prop where
  globals_length : m'.globals.length = m.globals.length
  datas_length : m'.datas.length = m.datas.length
  lengthGlobal_lt : t.descriptorLengthGlobal < m.globals.length
  descriptor_lt : t.descriptorSegment < m.datas.length
  moduleData_lt : t.moduleDataSegment < m.datas.length
  global (i : Nat) (g g' : Global) (hg : m.globals[i]? = some g) (hg' : m'.globals[i]? = some g') :
    g'.type = g.type ∧ g'.init.withoutOffsets =
      if i = t.descriptorLengthGlobal then [.i32Const (Int32.ofNat descriptor.length)]
      else g.init.withoutOffsets
  data (i : Nat) (d d' : DataSegment) (hd : m.datas[i]? = some d) (hd' : m'.datas[i]? = some d') :
    d'.mode.withoutOffsets = d.mode.withoutOffsets ∧ d'.init =
      if i = t.descriptorSegment then descriptor
      else if i = t.moduleDataSegment then content
      else d.init

section

variable {t : Template} {m m' : Module} {blob content : Bytes}

theorem global_of_modify {i : Nat} {g g' : Global} (hg : m.globals[i]? = some g)
    (hg' : m'.globals[i]? = some g')
    (h : m'.globals.map Global.withoutOffsets = (m.globals.modify t.descriptorLengthGlobal fun g =>
      { g with init := [.i32Const (Int32.ofNat blob.length)] }).map Global.withoutOffsets) :
    g'.type = g.type ∧ g'.init.withoutOffsets =
      if i = t.descriptorLengthGlobal then [.i32Const (Int32.ofNat blob.length)]
      else g.init.withoutOffsets := by
  have hi := congrArg (·[i]?) h
  simp only [List.getElem?_map, List.getElem?_modify, hg, hg', Option.map_eq_map, Option.map_some,
    Option.some.injEq] at hi
  by_cases heq : i = t.descriptorLengthGlobal
  · rw [if_pos heq.symm] at hi
    rw [if_pos heq]
    exact Global.mk.inj hi
  · rw [if_neg (Ne.symm heq)] at hi
    rw [if_neg heq]
    exact Global.mk.inj hi

theorem data_of_modify {i : Nat} {d d' : DataSegment} (hd : m.datas[i]? = some d)
    (hd' : m'.datas[i]? = some d') (hbehind : t.moduleDataSegment = t.descriptorSegment + 1)
    (h : m'.datas.map DataSegment.withoutOffsets =
      ((m.datas.modify t.descriptorSegment fun d => { d with init := blob }).modify
        t.moduleDataSegment fun d => { d with init := content }).map DataSegment.withoutOffsets) :
    d'.mode.withoutOffsets = d.mode.withoutOffsets ∧ d'.init =
      if i = t.descriptorSegment then blob
      else if i = t.moduleDataSegment then content
      else d.init := by
  have hi := congrArg (·[i]?) h
  simp only [List.getElem?_map, List.getElem?_modify, hd, hd', Option.map_eq_map, Option.map_some,
    Option.some.injEq] at hi
  by_cases hdescriptor : i = t.descriptorSegment
  · have hother : t.moduleDataSegment ≠ i := by omega
    rw [if_pos hdescriptor.symm, if_neg hother] at hi
    rw [if_pos hdescriptor]
    exact DataSegment.mk.inj hi
  · rw [if_neg (Ne.symm hdescriptor)] at hi
    rw [if_neg hdescriptor]
    by_cases hmoduleData : i = t.moduleDataSegment
    · rw [if_pos hmoduleData.symm] at hi
      rw [if_pos hmoduleData]
      exact DataSegment.mk.inj hi
    · rw [if_neg (Ne.symm hmoduleData)] at hi
      rw [if_neg hmoduleData]
      exact DataSegment.mk.inj hi

end

theorem map_tag_withoutOffsets (ds : List DataSegment) :
    (ds.map DataSegment.withoutOffsets).map (·.mode.tag) = ds.map (·.mode.tag) := by
  rw [List.map_map]
  refine List.map_congr_left fun d _ => ?_
  obtain ⟨mode, init⟩ := d
  cases mode <;> rfl

/-- The tags of segments whose contents change. -/
theorem map_tag_modify (ds : List DataSegment) (i : Nat) (init : Bytes) :
    (ds.modify i fun d => { d with init }).map (·.mode.tag) = ds.map (·.mode.tag) := by
  refine List.ext_getElem (by simp) fun j _ _ => ?_
  simp only [List.getElem_map, List.getElem_modify]
  split <;> rfl

/-- The output is a template with the same places that carries the image. All sections but those of
globals and of data are the same bytes. -/
theorem decode_embed {readCode : Bool} {file : Bytes} {m : Module} {image : Image}
    {capacity : Option Nat} {sink : Sink} (hm : Module.decode readCode file = .ok m)
    (hw : embed m image (.empty capacity) = .ok () sink) :
    ∃ t blob m', locate m = .ok t ∧ descriptor [image] = .ok blob ∧
      Module.decode readCode sink.bytes = .ok m' ∧ locate m' = .ok t ∧
      t.Carries blob image.content m m' ∧
      (Int32.ofNat blob.length).toInt = blob.length ∧
      m.SameSections (fun kind => kind ≠ .global ∧ kind ≠ .data) m' := by
  obtain ⟨t, globals, datas, ht, hr, hmodule⟩ := (embed_eq_ok_iff ..).mp hw
  obtain ⟨blob, hblob, hfits, hglobal, hdescriptor, hmoduleData, hreplaced⟩ :=
    exists_of_replacements hr
  obtain ⟨rfl, rfl⟩ := Prod.mk.inj hreplaced
  obtain ⟨m', hm', hsections, hsame⟩ := Encoder.decode_module hm hmodule
  have hglobalSection := (Module.sectioned_of_decode hm).hasSection_global hglobal
  have hdataSection := (Module.sectioned_of_decode hm).hasSection_data hdescriptor
  simp only [Encoder.Replacements.applyTo, hglobalSection, hdataSection, if_true] at hsame
  have hexports : m'.withoutPlaces.exports = _ := congrArg Module.exports hsame
  have himports : m'.withoutPlaces.imports = _ := congrArg Module.imports hsame
  have hglobals : m'.withoutPlaces.globals = _ := congrArg Module.globals hsame
  have hdatas : m'.withoutPlaces.datas = _ := congrArg Module.datas hsame
  have hlength : m'.globals.length = m.globals.length := by
    simpa [Module.withoutPlaces] using congrArg List.length hglobals
  have htags : m'.datas.map (·.mode.tag) = m.datas.map (·.mode.tag) := by
    have htags := congrArg (List.map (·.mode.tag)) hdatas
    simp only [Module.withoutPlaces, map_tag_withoutOffsets, map_tag_modify] at htags
    exact htags
  have hlocate : locate m' = locate m := locate_congr hexports himports hlength htags
  have hcarries : t.Carries blob image.content m m' := by
    refine ⟨hlength, ?_, hglobal, hdescriptor, hmoduleData, ?_, ?_⟩
    · simpa [Module.withoutPlaces] using congrArg List.length hdatas
    · intro i g g' hg hg'
      exact global_of_modify hg hg' hglobals
    · intro i d d' hd hd'
      exact data_of_modify hd hd' (moduleDataSegment_of_locate ht) hdatas
  refine ⟨t, blob, m', ht, hblob, hm', hlocate.trans ht, hcarries, Int32.toInt_ofNat_of_lt ?_,
    hsections.mono ?_⟩
  · have hlargest : Int32.maxValue.toInt = 2147483647 := by decide
    omega
  · intro kind hkept
    cases kind with
    | global => exact absurd rfl hkept.1
    | data => exact absurd rfl hkept.2
    | _ => rfl

/-- An Export section with what a template has to export. -/
def smallExports : Bytes :=
  [7, 102, 4] ++ 17 :: Text.Utf8.encode versionExport ++ [3, 1] ++
    26 :: Text.Utf8.encode descriptorLengthExport ++ [3, 2] ++
    23 :: Text.Utf8.encode getDescriptorExport ++ [0, 0] ++
    23 :: Text.Utf8.encode getModuleDataExport ++ [0, 1]

/-- A template that imports a global and has two more, and two empty segments. -/
def smallTemplate : Module where
  source := [0x00, 0x61, 0x73, 0x6D, 1, 0, 0, 0, 2, 6, 1, 0, 0, 3, 0x7F, 0] ++
    [6, 11, 2, 0x7F, 0, 0x41, 1, 0x0B, 0x7F, 0, 0x41, 0, 0x0B] ++ smallExports ++
    [11, 5, 2, 1, 0, 1, 0]
  version := 1
  sections := [⟨.importing, 6, 8, 10⟩, ⟨.global, 11, 16, 18⟩, ⟨.exporting, 102, 29, 31⟩,
    ⟨.data, 5, 133, 135⟩]
  imports := [⟨"", "", .global ⟨.const, .i32⟩⟩]
  globals := [⟨⟨.const, .i32⟩, [.plain .i32Const 21 (.i32 1)]⟩,
    ⟨⟨.const, .i32⟩, [.plain .i32Const 26 (.i32 0)]⟩]
  exports := [⟨versionExport, .global, 1⟩, ⟨descriptorLengthExport, .global, 2⟩,
    ⟨getDescriptorExport, .func, 0⟩, ⟨getModuleDataExport, .func, 1⟩]
  datas := [⟨.passive, []⟩, ⟨.passive, []⟩]

/-- What is written for `smallTemplate`, latest first. -/
def smallOutput : Sink where
  chunks := [[7, 8], [2], [1], [1, 0, 0, 0, 14, 0, 0, 0, 2, 0, 0, 0, 97, 0, 2, 0, 0, 0], [18], [1],
    [2], [25], [11], smallExports, [11], [18], [65], [0], [127], [11], [1], [65], [0], [127], [2],
    [11], [6], [2, 6, 1, 0, 0, 3, 127, 0], [1, 0, 0, 0], [0, 97, 115, 109]]
  room := none

set_option maxRecDepth 4000 in
/-- The exported index of the length is 2, that of an imported global included. -/
theorem decode_embed_smallTemplate :
    Module.decode true smallTemplate.source = .ok smallTemplate ∧
      embed smallTemplate ⟨"a", [7, 8]⟩ (.empty none) = .ok () smallOutput ∧
      ∃ m', Module.decode true smallOutput.bytes = .ok m' ∧ locate m' = .ok ⟨0, 1, 0, 1⟩ ∧
        Carries ⟨0, 1, 0, 1⟩ [1, 0, 0, 0, 14, 0, 0, 0, 2, 0, 0, 0, 97, 0, 2, 0, 0, 0] [7, 8]
          smallTemplate m' := by
  have hm : Module.decode true smallTemplate.source = .ok smallTemplate := rfl
  have hlocate : locate smallTemplate = .ok ⟨0, 1, 0, 1⟩ := rfl
  have hdescriptor : descriptor [⟨"a", [7, 8]⟩] =
      .ok [1, 0, 0, 0, 14, 0, 0, 0, 2, 0, 0, 0, 97, 0, 2, 0, 0, 0] := rfl
  have hreplacements : replacements smallTemplate ⟨0, 1, 0, 1⟩ ⟨"a", [7, 8]⟩ =
      .ok ([⟨⟨.const, .i32⟩, [.plain .i32Const 21 (.i32 1)]⟩,
          ⟨⟨.const, .i32⟩, [.i32Const 18]⟩],
        [⟨.passive, [1, 0, 0, 0, 14, 0, 0, 0, 2, 0, 0, 0, 97, 0, 2, 0, 0, 0]⟩,
          ⟨.passive, [7, 8]⟩]) := rfl
  have hw : embed smallTemplate ⟨"a", [7, 8]⟩ (.empty none) = .ok () smallOutput :=
    (embed_eq_ok_iff ..).mpr ⟨_, _, _, hlocate, hreplacements, by with_unfolding_all rfl⟩
  obtain ⟨t, blob, m', ht, hblob, hm', ht', hcarries, -⟩ := decode_embed hm hw
  rw [hlocate] at ht
  rw [hdescriptor] at hblob
  cases ht
  cases hblob
  exact ⟨hm, hw, m', hm', ht', hcarries⟩

end Template

end WasmBinary
