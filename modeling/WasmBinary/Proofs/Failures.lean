import WasmBinary.Proofs.BoundedSinks
import WasmBinary.Proofs.Descriptor
import WasmBinary.Proofs.Overwriting

/-!
# When the tools fail

A module that was read can be written again but for one thing: a Global or a Data section that is
replaced needs all its expressions to be single constants. So a tool fails because it cannot start, and
then writes nothing, or in front of the first section with another expression.

* `Expr.Form.encodable_iff`: an expression that was read is encodable if it is one instruction with one
  of seven opcodes.
* `Module.grammatical_of_decode`: the expressions of a module were read.
* `Encoder.run_module`: what is written for a module, and where it stops.
* `Module.fails_iff`: when the two tools fail, and what they have written by then.
-/
namespace WasmBinary

/-! ## Constants that were read -/

/-- The opcodes whose instructions give constants. -/
def Constant.opcodes : List Opcode :=
  [.i32Const, .i64Const, .f32Const, .f64Const, .globalGet, .refFunc, .refNull]

/-- The expression is one instruction, with an opcode that gives a constant. -/
def Expr.IsSingleConstant (e : Expr) : Prop := ∃ i : Instruction, e = [i] ∧ i.opcode ∈ Constant.opcodes

theorem Constant.opcode_mem (c : Constant) : c.opcode ∈ opcodes := by
  cases c <;> simp [opcodes, opcode]

/-- The immediate that stands behind one of these opcodes makes a constant of it. -/
theorem Constant.exists_of_form {o : Opcode} (ho : o ∈ opcodes) {bs : Bytes} {immediate : Immediate}
    (h : Immediate.Form o.shape bs immediate) :
    ∃ c : Constant, c.opcode = o ∧ c.immediate = immediate := by
  simp only [opcodes, List.mem_cons, List.not_mem_nil, or_false] at ho
  rcases ho with rfl | rfl | rfl | rfl | rfl | rfl | rfl
  · have hshape : Opcode.i32Const.shape = .i32 := by decide
    rw [hshape] at h
    cases h
    exact ⟨.i32 _, rfl, rfl⟩
  · have hshape : Opcode.i64Const.shape = .i64 := by decide
    rw [hshape] at h
    cases h
    exact ⟨.i64 _, rfl, rfl⟩
  · have hshape : Opcode.f32Const.shape = .f32 := by decide
    rw [hshape] at h
    cases h
    exact ⟨.f32 _, rfl, rfl⟩
  · have hshape : Opcode.f64Const.shape = .f64 := by decide
    rw [hshape] at h
    cases h
    exact ⟨.f64 _, rfl, rfl⟩
  · have hshape : Opcode.globalGet.shape = .index := by decide
    rw [hshape] at h
    cases h
    exact ⟨.globalGet _, rfl, rfl⟩
  · have hshape : Opcode.refFunc.shape = .index := by decide
    rw [hshape] at h
    cases h
    exact ⟨.refFunc _, rfl, rfl⟩
  · have hshape : Opcode.refNull.shape = .refNull := by decide
    rw [hshape] at h
    cases h
    exact ⟨.refNull _, rfl, rfl⟩

/-- None of the opcodes opens a block, so an instruction with one of them is plain. -/
theorem Instruction.Form.exists_constant {p : Nat} {bs : Bytes} {i : Instruction} (h : Form p bs i)
    (ho : i.opcode ∈ Constant.opcodes) : ∃ c : Constant, i = c.instruction p := by
  have hshapes : ∀ o ∈ Constant.opcodes, o.shape ≠ .block := by decide
  cases h with
  | plain _ _ himmediate =>
    obtain ⟨c, rfl, rfl⟩ := Constant.exists_of_form ho himmediate
    exact ⟨c, rfl⟩
  | block _ shape_eq _ _ => exact absurd shape_eq (hshapes _ ho)
  | ifElse _ _ _ _ | tryDelegate _ _ _ _ => exact absurd rfl (hshapes _ ho)

theorem Expr.Form.encodable_iff {p : Nat} {bs : Bytes} {e : Expr} (h : Expr.Form p bs e) :
    e.Encodable ↔ e.IsSingleConstant := by
  constructor
  · rintro ⟨c, q, rfl⟩
    exact ⟨_, rfl, c.opcode_mem⟩
  · rintro ⟨i, rfl, ho⟩
    cases h with
    | closed h =>
      cases h with
      | cons first others =>
        obtain ⟨c, rfl⟩ := first.exists_constant ho
        exact ⟨c, _, rfl⟩

/-! ## Modules that were read -/

namespace Module

/-- The expressions that can be replaced stand somewhere for bytes of the grammar. -/
structure Grammatical (m : Module) : Prop where
  globals (g : Global) (h : g ∈ m.globals) : ∃ p bs, Expr.Form p bs g.init
  datas (d : DataSegment) (h : d ∈ m.datas) (offset : Expr) (hoffset : d.mode.offset? = some offset) :
    ∃ p bs, Expr.Form p bs offset

end Module

theorem DataSegment.Form.exists_offset {p : Nat} {bs : Bytes} {d : DataSegment}
    (h : DataSegment.Form p bs d) {offset : Expr} (hoffset : d.mode.offset? = some offset) :
    ∃ q bs', Expr.Form q bs' offset := by
  obtain ⟨mode, init⟩ := d
  obtain ⟨_, _, -, hmode, -⟩ := h
  cases hmode with
  | active _ hform | activeIn _ _ hform =>
    cases hoffset
    exact ⟨_, _, hform⟩
  | passive _ => cases hoffset

namespace Module

theorem Grammatical.addSection {m : Module} (hm : m.Grammatical) {readCode : Bool} {r : RawSection}
    {p : Nat} {pl : Payload} (h : r.Holds readCode p pl) (s : Section) :
    (m.addSection pl s).Grammatical := by
  obtain ⟨c, h⟩ := h
  cases pl with
  | custom found names => cases names <;> exact ⟨hm.globals, hm.datas⟩
  | globals found =>
    obtain ⟨bs, rest, -, -, hvector⟩ :=
      (Decoder.recognizes_vector Global.recognizes_decode ..).mp (Payload.globals_of_decode h)
    refine ⟨fun g hg => ?_, hm.datas⟩
    obtain ⟨_, _, _, -, _, _, -, -, hinit⟩ := hvector.exists_of_mem hg
    exact ⟨_, _, hinit⟩
  | datas found =>
    obtain ⟨bs, rest, -, -, hvector⟩ :=
      (Decoder.recognizes_vector DataSegment.recognizes_decode ..).mp (Payload.datas_of_decode h)
    refine ⟨hm.globals, fun d hd offset hoffset => ?_⟩
    obtain ⟨_, _, _, -, hform⟩ := hvector.exists_of_mem hd
    exact hform.exists_offset hoffset
  | _ => exact ⟨hm.globals, hm.datas⟩

variable {readCode : Bool} {file : Bytes} {m : Module}

theorem grammatical_of_decode (h : decode readCode file = .ok m) : m.Grammatical := by
  refine invariant_of_decode h (fun _ => ⟨fun g hg => ?_, fun d hd => ?_⟩)
    fun hn hpl => hn.addSection hpl _
  · cases hg
  · cases hd

/-- All sections of the table are in the file. -/
theorem exists_raw?_of_decode (h : decode readCode file = .ok m) :
    ∀ s ∈ m.sections, ∃ raw, s.raw? m.source = some raw := by
  obtain ⟨version, rs, rfl, hscan⟩ := (decode_eq_ok_iff ..).mp h
  obtain ⟨hsource, rfl, hsections⟩ := hscan.places
  simp only [List.nil_append, ← length_preamble m.version] at hsections
  rw [hsource, hsections]
  intro s hs
  obtain ⟨i, hi⟩ := List.mem_iff_getElem?.mp hs
  obtain ⟨r, -, -, hraw⟩ := RawSection.raw?_of_getElem? hi
  exact ⟨r.bytes, hraw⟩

end Module

/-! ## Writing a module -/

theorem List.takeWhile_append_cons {α : Type} {p : α → Bool} {front back : List α} {a : α}
    (hfront : ∀ b ∈ front, p b = true) (ha : p a = false) :
    (front ++ a :: back).takeWhile p = front := by
  rw [List.takeWhile_append_of_pos hfront, List.takeWhile_cons_of_neg (by simp [ha]),
    List.append_nil]

namespace Encoder

theorem Replacements.check_eq_ok_iff {r : Replacements} {file : Bytes} {s : Section}
    (hraw : ∃ raw, s.raw? file = some raw) : r.check file s = .ok () ↔ r.Writable s.kind := by
  refine ⟨writable_of_check, fun h => ?_⟩
  obtain ⟨raw, hraw⟩ := hraw
  obtain ⟨globals, datas, dataCount⟩ := r
  obtain ⟨kind, size, offset, payload⟩ := s
  cases kind with
  | global =>
    cases globals with
    | none => simp only [check, hraw]
    | some globals =>
      obtain ⟨hcount, hitems, hsize⟩ := h globals rfl
      exact Except.map_eq_ok.mpr ⟨_, (vectorLength_eq_ok_iff (fun _ _ => globalLength_eq_ok_iff) ..).mpr
        ⟨hcount, hitems, (UInt32.toNat_ofNat_of_lt' hsize).symm⟩, rfl⟩
  | data =>
    cases datas with
    | none => simp only [check, hraw]
    | some datas =>
      obtain ⟨hcount, hitems, hsize⟩ := h datas rfl
      exact Except.map_eq_ok.mpr ⟨_, (vectorLength_eq_ok_iff
        (fun _ _ => dataSegmentLength_eq_ok_iff) ..).mpr
        ⟨hcount, hitems, (UInt32.toNat_ofNat_of_lt' hsize).symm⟩, rfl⟩
  | dataCount => cases dataCount <;> simp only [check, hraw]
  | _ => simp only [check, hraw]

/-- Whether a module can be written, and what is written up to the first section that cannot be. -/
theorem run_module {m : Module} (r : Replacements)
    (hraw : ∀ s ∈ m.sections, ∃ raw, s.raw? m.source = some raw) :
    (∀ s ∈ m.sections, r.Writable s.kind) ∧ (Encoder.module m r).run none =
        (.ok (), Module.preamble m.version ++ m.sections.flatMap (r.bytes m.source)) ∨
      ∃ cause front s back, m.sections = front ++ s :: back ∧ ¬r.Writable s.kind ∧
        (∀ s' ∈ front, r.Writable s'.kind) ∧ (Encoder.module m r).run none =
          (.error cause, Module.preamble m.version ++ front.flatMap (r.bytes m.source)) := by
  have hrun := (writes_module m r).run_none
  cases hall : m.sections.forM (r.check m.source) with
  | ok u =>
    rw [Writer.takeWhile_of_forM_eq_ok hall, hall] at hrun
    exact .inl ⟨fun s hs => (r.check_eq_ok_iff (hraw s hs)).mp (Writer.forM_eq_ok_iff.mp hall s hs),
      hrun⟩
  | error cause =>
    obtain ⟨front, s, back, hsections, hfront, hs⟩ := Except.exists_error_of_forM hall
    rw [hsections] at hraw
    refine .inr ⟨cause, front, s, back, hsections, ?_, ?_, ?_⟩
    · rw [← r.check_eq_ok_iff (hraw s (by simp)), hs]
      simp
    · exact fun s' hs' => (r.check_eq_ok_iff (hraw s' (by simp [hs']))).mp (hfront s' hs')
    · have hwritten : (m.sections.takeWhile fun s => (r.check m.source s).isOk) = front := by
        rw [hsections]
        refine List.takeWhile_append_cons (fun s' hs' => ?_) ?_
        · rw [hfront s' hs']
          rfl
        · rw [hs]
          rfl
      rw [hrun, hall, hwritten]

end Encoder

/-! ## Sections that are not too long -/

theorem Global.count_lt {globals : List Global}
    (h : (vectorLayout Global.layout globals).length < UInt32.size) :
    globals.length < UInt32.size := by
  have hcount := length_le_flatMap Global.layout (fun g => by simp [Global.layout]) globals
  rw [vectorLayout, List.length_append] at h
  omega

theorem DataSegment.counts_lt {datas : List DataSegment}
    (h : (vectorLayout DataSegment.layout datas).length < UInt32.size) :
    datas.length < UInt32.size ∧ ∀ d ∈ datas, d.init.length < UInt32.size := by
  have hcount := length_le_flatMap DataSegment.layout DataSegment.layout_pos datas
  rw [vectorLayout, List.length_append] at h
  refine ⟨by omega, fun d hd => ?_⟩
  have hle := length_le_of_mem DataSegment.layout hd
  have hinit : d.init.length ≤ d.layout.length := by
    simp only [DataSegment.layout, List.length_append]
    omega
  omega

namespace Encoder.Replacements

/-- The payloads are as long as those of sections may be. -/
def Fit (r : Replacements) : Prop :=
  ∀ kind payload, r.payload? kind = some payload → payload.length < UInt32.size

/-- The expressions that replace those of a section of the given kind can be written. -/
def Encodable (r : Replacements) : SectionKind → Prop
  | .global => ∀ globals, r.globals = some globals → ∀ g ∈ globals, g.Encodable
  | .data => ∀ datas, r.datas = some datas → ∀ d ∈ datas, d.Encodable
  | _ => True

theorem writable_iff {r : Replacements} (h : r.Fit) (kind : SectionKind) :
    r.Writable kind ↔ r.Encodable kind := by
  cases kind with
  | global =>
    refine forall₂_congr fun globals hglobals => ?_
    have hsize := h .global _ (congrArg (Option.map (vectorLayout Global.layout)) hglobals)
    constructor
    · intro hwritable
      exact hwritable.2.1
    · intro hencodable
      exact ⟨Global.count_lt hsize, hencodable, hsize⟩
  | data =>
    refine forall₂_congr fun datas hdatas => ?_
    have hsize := h .data _ (congrArg (Option.map (vectorLayout DataSegment.layout)) hdatas)
    obtain ⟨hcount, hinit⟩ := DataSegment.counts_lt hsize
    constructor
    · intro hwritable
      exact fun d hd => (hwritable.2.1 d hd).1
    · intro hencodable
      exact ⟨hcount, fun d hd => ⟨hencodable d hd, hinit d hd⟩, hsize⟩
  | _ => exact .rfl

end Encoder.Replacements

/-! ## Replacing the data -/

namespace DataReplacement

variable {o : DataReplacement} {blob : Bytes}

theorem encodable_of_segment {c : Chunk} {d : DataSegment} (h : o.segment blob c = .ok d) :
    d.Encodable := by
  unfold segment at h
  split at h
  · cases h
    exact fun offset hoffset => (nomatch hoffset)
  split at h
  · rename_i address _
    cases h
    exact DataMode.encodable_of_offset rfl ⟨.i32 address, 0, rfl⟩
  · cases h

theorem encodable_of_segments {segments : List DataSegment} (h : o.segments blob = .ok segments) :
    ∀ d ∈ segments, d.Encodable :=
  Except.forall_results_of_mapM h fun _ _ hd => encodable_of_segment hd

/-- What replaces the data and the number of segments. -/
def replaced (segments : List DataSegment) : Encoder.Replacements where
  datas := some segments
  dataCount := some (UInt32.ofNat segments.length)

theorem fit_replaced {segments : List DataSegment}
    (h : (vectorLayout DataSegment.layout segments).length < UInt32.size) :
    (replaced segments).Fit := by
  intro kind payload hpayload
  cases kind with
  | data =>
    cases hpayload
    exact h
  | dataCount =>
    cases hpayload
    exact Encoder.length_encodeUnsigned_lt _
  | _ => cases hpayload

theorem encodable_replaced {segments : List DataSegment} (h : ∀ d ∈ segments, d.Encodable)
    (kind : SectionKind) : (replaced segments).Encodable kind := by
  cases kind with
  | data =>
    intro datas hdatas
    cases hdatas
    exact h
  | global =>
    intro globals hglobals
    cases hglobals
  | _ => trivial

/-- With segments that fit, nothing is in the way of writing a module. -/
theorem run_eq_ok {m : Module} (hraw : ∀ s ∈ m.sections, ∃ raw, s.raw? m.source = some raw)
    (hdata : m.hasSection .data = true) {segments : List DataSegment}
    (h : o.segments blob = .ok segments)
    (hsize : (vectorLayout DataSegment.layout segments).length < UInt32.size) :
    ∃ written, (o.write m blob).run none = (.ok (), written) := by
  have hcount : checkedLength segments.length = .ok (UInt32.ofNat segments.length) :=
    if_pos (DataSegment.counts_lt hsize).1
  rw [write_of_hasSection hdata, Writer.run_ofExcept_bind, h]
  simp only [hcount]
  change ∃ written, ((Encoder.module m (replaced segments)).mapError
    DataReplacementError.encode).run none = _
  rw [Writer.run_mapError]
  rcases Encoder.run_module (replaced segments) hraw with
    ⟨-, hrun⟩ | ⟨cause, front, s, back, -, hs, -⟩
  · rw [hrun]
    exact ⟨_, rfl⟩
  · have hencodable := encodable_replaced (encodable_of_segments h) s.kind
    exact absurd ((Encoder.Replacements.writable_iff (fit_replaced hsize) s.kind).mpr hencodable) hs

/-- Replacing the data fails if there is no Data section or there are no segments. Nothing is written
then. -/
theorem run_eq_error_iff {m : Module} (hraw : ∀ s ∈ m.sections, ∃ raw, s.raw? m.source = some raw)
    (hsize : ∀ segments, o.segments blob = .ok segments →
      (vectorLayout DataSegment.layout segments).length < UInt32.size)
    (e : DataReplacementError) (written : Bytes) :
    (o.write m blob).run none = (.error e, written) ↔ written = [] ∧
      (m.hasSection .data = false ∧ e = .missingSection ∨
        m.hasSection .data = true ∧ o.segments blob = .error e) := by
  cases hdata : m.hasSection .data with
  | false =>
    rw [write_of_missing hdata, Writer.run_throw]
    simp [eq_comm, and_comm]
  | true =>
    cases hsegments : o.segments blob with
    | error cause =>
      rw [write_of_hasSection hdata, Writer.run_ofExcept_bind, hsegments]
      simp [eq_comm, and_comm]
    | ok segments =>
      obtain ⟨all, hrun⟩ := run_eq_ok hraw hdata hsegments (hsize segments hsegments)
      simp [hrun]

end DataReplacement

/-! ## Embedding an image -/

/-- The offsets of all active data segments are single constants. -/
def Module.ConstantOffsets (m : Module) : Prop :=
  ∀ d ∈ m.datas, ∀ offset, d.mode.offset? = some offset → offset.IsSingleConstant

namespace Template

variable {m : Module} {t : Template} {image : Image}

/-- The initializers of all globals but the one for the length of the descriptor are single
constants. -/
def ConstantGlobals (t : Template) (m : Module) : Prop :=
  ∀ i g, m.globals[i]? = some g → i ≠ t.descriptorLengthGlobal → g.init.IsSingleConstant

/-- Sections of the given kind can be written with an image in the template. -/
def CanEncode (t : Template) (m : Module) : SectionKind → Prop
  | .global => t.ConstantGlobals m
  | .data => m.ConstantOffsets
  | _ => True

/-- What replaces the globals and the data of a template that carries an image. -/
def stored (t : Template) (m : Module) (image : Image) : Encoder.Replacements where
  globals := some (t.storeLength (descriptorLayout [image]) m.globals)
  datas := some (t.storeImage (descriptorLayout [image]) image.content m.datas)

/-- The descriptor is not longer than a number of 32 bits with a sign can tell, nor any section longer
than sections may be. Expressions that cannot be written count as nothing. -/
structure HasRoom (t : Template) (m : Module) (image : Image) : Prop where
  descriptor : ((descriptorLayout [image]).length : Int) ≤ Int32.maxValue.toInt
  sections : (t.stored m image).Fit

theorem lt_of_locate (h : locate m = .ok t) : t.descriptorLengthGlobal < m.globals.length ∧
    t.descriptorSegment < m.datas.length ∧ t.moduleDataSegment < m.datas.length := by
  have hbehind := moduleDataSegment_of_locate h
  have hdefined {name : String} {i : Nat} (h : definedGlobal m name = .ok i) :
      i < m.globals.length := by
    simp only [definedGlobal, Except.bind_eq_ok] at h
    obtain ⟨index, -, h⟩ := h
    split at h
    · cases h
    split at h
    · cases h
    rename_i hlt
    cases h
    omega
  unfold locate at h
  simp only [Except.bind_eq_ok] at h
  obtain ⟨versionGlobal, -, descriptorLengthGlobal, hglobal, _, -, _, -, h⟩ := h
  split at h
  · cases h
  split at h
  · cases h
  rename_i d hd
  split at h
  · have hlt := (List.getElem?_eq_some_iff.mp hd).1
    cases h
    exact ⟨hdefined hglobal, Nat.lt_of_succ_lt hlt, hlt⟩
  · cases h

/-- The content of the image is that of a segment. -/
theorem content_lt (h : t.HasRoom m image) (hlt : t.moduleDataSegment < m.datas.length) :
    image.content.length < UInt32.size := by
  have hfits := (DataSegment.counts_lt (h.sections .data _ rfl)).2
  have hlength : t.moduleDataSegment <
      (t.storeImage (descriptorLayout [image]) image.content m.datas).length := by
    simpa [storeImage] using hlt
  have hcontent := hfits _ (List.getElem_mem hlength)
  rw [t.getElem_storeImage _ _ _ hlt] at hcontent
  simpa using hcontent

theorem descriptor_of_hasRoom (h : t.HasRoom m image) (hlt : t.moduleDataSegment < m.datas.length) :
    descriptor [image] = .ok (descriptorLayout [image]) := by
  have hlargest : Int32.maxValue.toInt < UInt32.size := by decide
  have hdescriptor := h.descriptor
  have hcount : 1 < UInt32.size := by decide
  refine descriptor_eq_ok_iff.mpr ⟨hcount, ?_, rfl⟩
  rw [List.forall_mem_singleton]
  refine ⟨?_, content_lt h hlt⟩
  simp only [descriptorLayout, List.flatMap_cons, List.flatMap_nil, List.append_nil,
    List.length_append] at hdescriptor
  omega

theorem replacements_of_locate (ht : locate m = .ok t) (h : t.HasRoom m image) :
    replacements m t image = .ok (t.storeLength (descriptorLayout [image]) m.globals,
      t.storeImage (descriptorLayout [image]) image.content m.datas) := by
  obtain ⟨hglobal, hdescriptor, hmoduleData⟩ := lt_of_locate ht
  simp only [replacements, descriptor_of_hasRoom h hmoduleData, bind, Except.bind]
  rw [if_neg (Int.not_lt.mpr h.descriptor), if_neg (Nat.not_le.mpr hglobal),
    if_neg (Nat.not_le.mpr hdescriptor), if_neg (Nat.not_le.mpr hmoduleData)]
  rfl

theorem run_embed_of_error {e : TemplateError} (h : locate m = .error e) :
    (embed m image).run none = (.error e, []) := by
  rw [embed, Writer.run_ofExcept_bind, h]

theorem run_embed_of_locate (ht : locate m = .ok t) (h : t.HasRoom m image) :
    (embed m image).run none =
      (((Encoder.module m (t.stored m image)).run none).1.mapError .encode,
        ((Encoder.module m (t.stored m image)).run none).2) := by
  rw [embed, Writer.run_ofExcept_bind, ht]
  dsimp only
  rw [Writer.run_ofExcept_bind, replacements_of_locate ht h]
  exact Writer.run_mapError ..

/-- The global for the length of the descriptor can be written whatever it was. -/
theorem encodable_storeLength_iff (hm : m.Grammatical) (t : Template) (blob : Bytes) :
    (∀ g ∈ t.storeLength blob m.globals, g.Encodable) ↔ t.ConstantGlobals m := by
  have hlength : (t.storeLength blob m.globals).length = m.globals.length := by simp [storeLength]
  constructor
  · intro h i g hg hne
    obtain ⟨hi, rfl⟩ := List.getElem?_eq_some_iff.mp hg
    have hmem := h _ (List.getElem_mem (hlength ▸ hi))
    rw [t.getElem_storeLength _ _ hi, Global.Encodable, if_neg (Ne.symm hne)] at hmem
    obtain ⟨p, bs, hform⟩ := hm.globals _ (List.getElem_mem hi)
    exact hform.encodable_iff.mp hmem
  · intro h g hg
    obtain ⟨i, hi, rfl⟩ := List.getElem_of_mem hg
    rw [hlength] at hi
    rw [t.getElem_storeLength _ _ hi, Global.Encodable]
    by_cases heq : t.descriptorLengthGlobal = i
    · rw [if_pos heq]
      exact ⟨.i32 _, 0, rfl⟩
    · rw [if_neg heq]
      obtain ⟨p, bs, hform⟩ := hm.globals _ (List.getElem_mem hi)
      exact hform.encodable_iff.mpr (h i _ (List.getElem?_eq_getElem hi) (Ne.symm heq))

/-- Storing an image leaves the modes of the segments alone. -/
theorem encodable_storeImage_iff (hm : m.Grammatical) (t : Template) (blob content : Bytes) :
    (∀ d ∈ t.storeImage blob content m.datas, d.Encodable) ↔ m.ConstantOffsets := by
  have hlength : (t.storeImage blob content m.datas).length = m.datas.length := by
    simp [storeImage]
  have hiff (d : DataSegment) (hd : d ∈ m.datas) :
      d.Encodable ↔ ∀ offset, d.mode.offset? = some offset → offset.IsSingleConstant := by
    refine forall₂_congr fun offset hoffset => ?_
    obtain ⟨p, bs, hform⟩ := hm.datas d hd offset hoffset
    exact hform.encodable_iff
  constructor
  · intro h d hd
    obtain ⟨i, hi, rfl⟩ := List.getElem_of_mem hd
    have hmem := h _ (List.getElem_mem (hlength ▸ hi))
    rw [t.getElem_storeImage _ _ _ hi] at hmem
    exact (hiff _ hd).mp hmem
  · intro h d hd
    obtain ⟨i, hi, rfl⟩ := List.getElem_of_mem hd
    rw [hlength] at hi
    rw [t.getElem_storeImage _ _ _ hi]
    exact (hiff _ (List.getElem_mem hi)).mpr (h _ (List.getElem_mem hi))

theorem encodable_stored_iff (hm : m.Grammatical) (t : Template) (image : Image)
    (kind : SectionKind) : (t.stored m image).Encodable kind ↔ t.CanEncode m kind := by
  cases kind with
  | global =>
    change (∀ globals, some _ = some globals → _) ↔ _
    simp only [Option.some.injEq, forall_eq']
    exact encodable_storeLength_iff hm t _
  | data =>
    change (∀ datas, some _ = some datas → _) ↔ _
    simp only [Option.some.injEq, forall_eq']
    exact encodable_storeImage_iff hm t _ _
  | _ => exact .rfl

/-- If the places are found, embedding fails exactly where a section cannot be written. -/
theorem run_embed_cases (hm : m.Grammatical)
    (hraw : ∀ s ∈ m.sections, ∃ raw, s.raw? m.source = some raw) (ht : locate m = .ok t)
    (h : t.HasRoom m image) :
    (∀ s ∈ m.sections, t.CanEncode m s.kind) ∧ (embed m image).run none =
        (.ok (), Module.preamble m.version ++ m.sections.flatMap ((t.stored m image).bytes m.source)) ∨
      ∃ cause front s back, m.sections = front ++ s :: back ∧ ¬t.CanEncode m s.kind ∧
        (∀ s' ∈ front, t.CanEncode m s'.kind) ∧ (embed m image).run none =
          (.error (.encode cause),
            Module.preamble m.version ++ front.flatMap ((t.stored m image).bytes m.source)) := by
  have hiff (kind : SectionKind) : (t.stored m image).Writable kind ↔ t.CanEncode m kind :=
    (Encoder.Replacements.writable_iff h.sections kind).trans (encodable_stored_iff hm t image kind)
  rw [run_embed_of_locate ht h]
  simp only [← hiff]
  rcases Encoder.run_module (t.stored m image) hraw with
    ⟨hall, hrun⟩ | ⟨cause, front, s, back, hsections, hs, hfront, hrun⟩
  · rw [hrun]
    exact .inl ⟨hall, rfl⟩
  · rw [hrun]
    exact .inr ⟨cause, front, s, back, hsections, hs, hfront, rfl⟩

/-- A template has a Global and a Data section, so it can be written if all its expressions can be. -/
theorem forall_canEncode_iff (hm : m.Sectioned) (ht : locate m = .ok t) :
    (∀ s ∈ m.sections, t.CanEncode m s.kind) ↔ t.ConstantGlobals m ∧ m.ConstantOffsets := by
  have hof {kind : SectionKind} (hkind : m.hasSection kind = true)
      (h : ∀ s ∈ m.sections, t.CanEncode m s.kind) : t.CanEncode m kind := by
    obtain ⟨s, hs, hkind⟩ := List.any_eq_true.mp hkind
    rw [← of_decide_eq_true hkind]
    exact h s hs
  obtain ⟨hglobal, hdata, -⟩ := lt_of_locate ht
  constructor
  · intro h
    exact ⟨hof (hm.hasSection_global hglobal) h, hof (hm.hasSection_data hdata) h⟩
  · intro h s _
    cases s.kind with
    | global => exact h.1
    | data => exact h.2
    | _ => trivial

end Template

namespace Module

/-- Both tools on a sink that takes any number of bytes, with sections that are not too long. Replacing
the data fails if there is no Data section, or if the bytes give no segments; nothing is written then.
Embedding fails if the places of the template are not found, and then writes nothing, or if another
global or an offset is no single constant. What is written then are the header and all sections in front
of the first that needs such an expression. -/
theorem fails_iff {readCode : Bool} {file : Bytes} {m : Module}
    (hm : decode readCode file = .ok m) :
    (∀ (o : DataReplacement) (blob : Bytes),
      (∀ segments, o.segments blob = .ok segments →
        (vectorLayout DataSegment.layout segments).length < UInt32.size) →
      ∀ e written, (o.write m blob).run none = (.error e, written) ↔ written = [] ∧
        (m.hasSection .data = false ∧ e = .missingSection ∨
          m.hasSection .data = true ∧ o.segments blob = .error e)) ∧
    ∀ image : Image, (∀ t, Template.locate m = .ok t → t.HasRoom m image) →
      ((∃ e written, (Template.embed m image).run none = (.error e, written)) ↔
        (∃ e, Template.locate m = .error e) ∨
          ∃ t, Template.locate m = .ok t ∧ ¬(t.ConstantGlobals m ∧ m.ConstantOffsets)) ∧
      (∀ e, Template.locate m = .error e → (Template.embed m image).run none = (.error e, [])) ∧
      ∀ t, Template.locate m = .ok t → ¬(t.ConstantGlobals m ∧ m.ConstantOffsets) →
        ∃ cause front s back, m.sections = front ++ s :: back ∧ ¬t.CanEncode m s.kind ∧
          (∀ s' ∈ front, t.CanEncode m s'.kind ∧ ∃ raw, s'.raw? m.source = some raw) ∧
          (Template.embed m image).run none = (.error (.encode cause),
            preamble m.version ++ front.flatMap ((t.stored m image).bytes m.source)) := by
  have hraw := exists_raw?_of_decode hm
  refine ⟨fun o blob hsize e written => DataReplacement.run_eq_error_iff hraw hsize e written,
    fun image hroom => ?_⟩
  have hcases {t : Template} (ht : Template.locate m = .ok t) :=
    Template.run_embed_cases (grammatical_of_decode hm) hraw ht (hroom t ht)
  have hall {t : Template} (ht : Template.locate m = .ok t) :=
    Template.forall_canEncode_iff (sectioned_of_decode hm) ht
  refine ⟨?_, fun e he => Template.run_embed_of_error he, fun t ht hconstant => ?_⟩
  · cases ht : Template.locate m with
    | error e => simp [Template.run_embed_of_error ht]
    | ok t =>
      rcases hcases ht with ⟨hencode, hrun⟩ | ⟨cause, front, s, back, hsections, hs, -, hrun⟩
      · simp [hrun, (hall ht).mp hencode]
      · have hnot : ¬(t.ConstantGlobals m ∧ m.ConstantOffsets) := fun hconstant =>
          hs ((hall ht).mpr hconstant s (by simp [hsections]))
        simpa [hrun] using hnot
  · rcases hcases ht with ⟨hencode, -⟩ | ⟨cause, front, s, back, hsections, hs, hfront, hrun⟩
    · exact absurd ((hall ht).mp hencode) hconstant
    · refine ⟨cause, front, s, back, hsections, hs, fun s' hs' => ⟨hfront s' hs', hraw s' ?_⟩, hrun⟩
      rw [hsections]
      exact List.mem_append_left _ hs'

/-- A template with its Global section behind its Data section. The first global has two instructions. -/
def twoInstructions : Module where
  source := [0x00, 0x61, 0x73, 0x6D, 1, 0, 0, 0, 2, 6, 1, 0, 0, 3, 0x7F, 0] ++
    Template.smallExports ++ [11, 5, 2, 1, 0, 1, 0] ++
    [6, 13, 2, 0x7F, 0, 0x41, 1, 0x41, 2, 0x0B, 0x7F, 0, 0x41, 0, 0x0B]
  version := 1
  sections := [⟨.importing, 6, 8, 10⟩, ⟨.exporting, 102, 16, 18⟩, ⟨.data, 5, 120, 122⟩,
    ⟨.global, 13, 127, 129⟩]
  imports := [⟨"", "", .global ⟨.const, .i32⟩⟩]
  globals := [⟨⟨.const, .i32⟩, [.plain .i32Const 132 (.i32 1), .plain .i32Const 134 (.i32 2)]⟩,
    ⟨⟨.const, .i32⟩, [.plain .i32Const 139 (.i32 0)]⟩]
  exports := [⟨Template.versionExport, .global, 1⟩, ⟨Template.descriptorLengthExport, .global, 2⟩,
    ⟨Template.getDescriptorExport, .func, 0⟩, ⟨Template.getModuleDataExport, .func, 1⟩]
  datas := [⟨.passive, []⟩, ⟨.passive, []⟩]

theorem hasRoom_twoInstructions :
    Template.HasRoom ⟨0, 1, 0, 1⟩ twoInstructions ⟨"a", [7, 8]⟩ := by
  refine ⟨by decide +kernel, fun kind payload h => ?_⟩
  cases kind with
  | global | data =>
    cases h
    decide +kernel
  | _ => cases h

set_option maxRecDepth 4000 in
/-- The new Data section is written, the Global section behind it is not. The second of two chunks has
no place at the end of the memory. -/
theorem fails_iff_twoInstructions :
    decode true twoInstructions.source = .ok twoInstructions ∧
      (DataReplacement.write { autoSplit := true, baseOffset := 2147483647, zeroRun := 2 }
        twoInstructions [1, 0, 0, 2]).run none = (.error (.offsetOverflow 3), []) ∧
      Template.locate twoInstructions = .ok ⟨0, 1, 0, 1⟩ ∧
      ∃ cause front s back, twoInstructions.sections = front ++ s :: back ∧ s.kind = .global ∧
        (Template.embed twoInstructions ⟨"a", [7, 8]⟩).run none = (.error (.encode cause),
          preamble 1 ++ front.flatMap ((Template.stored ⟨0, 1, 0, 1⟩ twoInstructions
            ⟨"a", [7, 8]⟩).bytes twoInstructions.source)) := by
  have hm : decode true twoInstructions.source = .ok twoInstructions := rfl
  have hlocate : Template.locate twoInstructions = .ok ⟨0, 1, 0, 1⟩ := rfl
  obtain ⟨hwrite, hembed⟩ := fails_iff hm
  have hroom : ∀ t, Template.locate twoInstructions = .ok t →
      t.HasRoom twoInstructions ⟨"a", [7, 8]⟩ := by
    intro t ht
    cases hlocate.symm.trans ht
    exact hasRoom_twoInstructions
  have hdata : twoInstructions.ConstantOffsets := by
    intro d hd offset hoffset
    simp only [twoInstructions, List.mem_cons, List.not_mem_nil, or_false, or_self] at hd
    subst hd
    cases hoffset
  have hglobal : ¬Template.ConstantGlobals ⟨0, 1, 0, 1⟩ twoInstructions := by
    intro h
    obtain ⟨i, hi, -⟩ := h 0 _ rfl (by decide)
    cases hi
  obtain ⟨-, -, hcut⟩ := hembed ⟨"a", [7, 8]⟩ hroom
  obtain ⟨cause, front, s, back, hsections, hs, -, hrun⟩ := hcut _ hlocate fun h => hglobal h.1
  refine ⟨hm, (hwrite _ _ ?_ _ _).mpr ⟨rfl, .inr ⟨rfl, rfl⟩⟩, hlocate, cause, front, s, back,
    hsections, ?_, hrun⟩
  · intro segments hsegments
    cases hsegments
  · cases hkind : s.kind with
    | global => rfl
    | data =>
      rw [hkind] at hs
      exact absurd hdata hs
    | _ =>
      rw [hkind] at hs
      exact absurd trivial hs

end Module

end WasmBinary
