import WasmBinary.Encoder
import WasmBinary.Text

/-!
# Templates

A template is a module that is ready to carry an image. It exports two globals and two functions
under fixed names. Its first passive data segment holds the descriptor of the images and the passive
segment behind it their bytes. `Template.embed` writes the template with those two segments and the
global that holds the length of the descriptor replaced; all else stays.
-/
namespace WasmBinary

/-- A file to embed. -/
structure Image where
  path : String
  content : Bytes

/-! ## Errors -/

/-- The numbers of a descriptor that may not fit. -/
inductive DescriptorField where
  | imageCount
  | imageDescriptor
  | path
  | image
  | descriptor

def DescriptorField.noun : DescriptorField → String
  | .imageCount => "image count"
  | .imageDescriptor => "image descriptor"
  | .path => "path"
  | .image => "image"
  | .descriptor => "descriptor"

/-- mirrors `EmbedError` -/
inductive TemplateError where
  | missingExport (name : String)
  | exportKind (name : String) (expected found : ExternalKind)
  | importedGlobal (name : String) (index : Index)
  | missingGlobal (name : String) (index : Index)
  | missingDescriptorSegment
  | unexpectedMode (segment : Nat) (tag : UInt32)
  | missingModuleDataSegment (descriptor : Nat)
  | tooLarge (field : DescriptorField) (length : Nat)
  | encode (cause : EncodeError)

instance : Reportable TemplateError where
  report
    | .missingExport name => .leaf ("template does not export `" ++ name ++ "`")
    | .exportKind name expected found =>
      .leaf ("template export `" ++ name ++ "` is a " ++ found.noun ++ "; expected a "
        ++ expected.noun)
    | .importedGlobal name index =>
      .leaf ("template export `" ++ name ++ "` refers to global " ++ toString index
        ++ ", which is imported")
    | .missingGlobal name index =>
      .leaf ("template export `" ++ name ++ "` refers to global " ++ toString index
        ++ ", which does not exist")
    | .missingDescriptorSegment => .leaf "template has no passive data segment for the descriptor"
    | .unexpectedMode segment tag =>
      .leaf ("template data segment " ++ toString segment ++ " must be passive; found mode "
        ++ toString tag)
    | .missingModuleDataSegment descriptor =>
      .leaf ("template has no data segment after the descriptor at " ++ toString descriptor)
    | .tooLarge field length =>
      .leaf (field.noun ++ " of " ++ toString length ++ " bytes does not fit in the descriptor")
    | .encode cause => report cause

/-! ## Finding the places -/

/-- Where a template keeps what embedding replaces. Globals are counted among the defined ones. -/
structure Template where
  versionGlobal : Nat
  descriptorLengthGlobal : Nat
  descriptorSegment : Nat
  moduleDataSegment : Nat
  deriving DecidableEq

namespace Template

def versionExport : String := "MonoWebCilVersion"
def descriptorLengthExport : String := "MonoWebCilDescriptorLength"
def getDescriptorExport : String := "MonoWebCilGetDescriptor"
def getModuleDataExport : String := "MonoWebCilGetModuleData"

/-- The index that a module exports under a name, which has to be of the given kind.
mirrors `find_export` -/
def exported (m : Module) (name : String) (kind : ExternalKind) : Except TemplateError Index :=
  match m.findExport? name with
  | none => .error (.missingExport name)
  | some e => if e.kind = kind then .ok e.index else .error (.exportKind name kind e.kind)

/-- The place among the defined globals of an exported global.
mirrors `defined_global` -/
def definedGlobal (m : Module) (name : String) : Except TemplateError Nat := do
  let index ← exported m name .global
  if index.toNat < m.importedGlobalCount then throw (.importedGlobal name index)
  let defined := index.toNat - m.importedGlobalCount
  if m.globals.length ≤ defined then throw (.missingGlobal name index)
  return defined

/-- Finds the places in a module.
mirrors `locate` -/
def locate (m : Module) : Except TemplateError Template := do
  let versionGlobal ← definedGlobal m versionExport
  let descriptorLengthGlobal ← definedGlobal m descriptorLengthExport
  let _ ← exported m getDescriptorExport .func
  let _ ← exported m getModuleDataExport .func
  match m.datas.findIdx? (·.mode.isPassive) with
  | none => throw .missingDescriptorSegment
  | some descriptorSegment =>
    let moduleDataSegment := descriptorSegment + 1
    match m.datas[moduleDataSegment]? with
    | none => throw (.missingModuleDataSegment descriptorSegment)
    | some d =>
      if d.mode.isPassive then
        return ⟨versionGlobal, descriptorLengthGlobal, descriptorSegment, moduleDataSegment⟩
      else throw (.unexpectedMode moduleDataSegment d.mode.tag)

/-! ## Descriptors -/

/-- A number of a descriptor.
mirrors `u32_field` -/
def field (what : DescriptorField) (n : Nat) : Except TemplateError Bytes :=
  if n < UInt32.size then .ok (Bytes.littleEndian 4 n) else .error (.tooLarge what n)

/-- The record of an image: its own length, the length of the path, the path with a zero behind it,
and the length of the content. -/
def imageRecord (image : Image) : Except TemplateError Bytes := do
  let path := Text.Utf8.encode image.path ++ [0]
  let size ← field .imageDescriptor (4 + 4 + path.length + 4)
  let pathLength ← field .path path.length
  let contentLength ← field .image image.content.length
  return size ++ pathLength ++ path ++ contentLength

/-- The number of images and their records.
mirrors `descriptor_blob` -/
def descriptor (images : List Image) : Except TemplateError Bytes := do
  let count ← field .imageCount images.length
  let records ← images.mapM imageRecord
  return count ++ records.flatten

/-! ## Embedding -/

/-- The globals and the data segments of a template that carries an image.
mirrors `replacements` -/
def replacements (m : Module) (t : Template) (image : Image) :
    Except TemplateError (List Global × List DataSegment) := do
  let blob ← descriptor [image]
  if Int32.maxValue.toInt < blob.length then throw (.tooLarge .descriptor blob.length)
  if m.globals.length ≤ t.descriptorLengthGlobal then
    throw (.missingGlobal descriptorLengthExport (UInt32.ofNat t.descriptorLengthGlobal))
  if m.datas.length ≤ t.descriptorSegment then throw .missingDescriptorSegment
  if m.datas.length ≤ t.moduleDataSegment then
    throw (.missingModuleDataSegment t.descriptorSegment)
  let length := Instruction.i32Const (Int32.ofNat blob.length)
  return (m.globals.modify t.descriptorLengthGlobal fun g => { g with init := [length] },
    (m.datas.modify t.descriptorSegment fun d => { d with init := blob }).modify
      t.moduleDataSegment fun d => { d with init := image.content })

/-- Writes a template that carries an image.
mirrors `embed` -/
def embed (m : Module) (image : Image) : Writer TemplateError Unit := do
  let t ← Writer.ofExcept (locate m)
  let (globals, datas) ← Writer.ofExcept (replacements m t image)
  (Encoder.module m { globals := some globals, datas := some datas }).mapError .encode

end Template

end WasmBinary
