import WasmBinary.Proofs.Layout
import WasmBinary.Template

/-!
# Descriptors

The bytes of a descriptor, told whether or not their numbers fit.

* `Image.record`, `Template.descriptorLayout`: the record of an image and the descriptor of a list of them.
* `Template.descriptor_eq_ok_iff`: the descriptors that there are.
-/
namespace WasmBinary

namespace Image

/-- The path with a zero behind it. -/
def pathLayout (image : Image) : Bytes := Text.Utf8.encode image.path ++ [0]

/-- The record of an image. Its first number is its own length. -/
def record (image : Image) : Bytes :=
  Bytes.littleEndian 4 (4 + 4 + image.pathLayout.length + 4) ++
    (Bytes.littleEndian 4 image.pathLayout.length ++
      (image.pathLayout ++ Bytes.littleEndian 4 image.content.length))

theorem length_record (image : Image) :
    image.record.length = 4 + 4 + image.pathLayout.length + 4 := by
  simp only [record, List.length_append, Bytes.length_littleEndian]
  omega

/-- The numbers of the record can be stored. -/
structure Fits (image : Image) : Prop where
  record : image.record.length < UInt32.size
  content : image.content.length < UInt32.size

end Image

namespace Template

/-- The number of images and their records. -/
def descriptorLayout (images : List Image) : Bytes :=
  Bytes.littleEndian 4 images.length ++ images.flatMap Image.record

theorem field_eq_ok_iff {what : DescriptorField} {n : Nat} {bs : Bytes} :
    field what n = .ok bs ↔ n < UInt32.size ∧ bs = Bytes.littleEndian 4 n := by
  unfold field
  split <;> rename_i hn
  · simp only [Except.ok.injEq, hn, true_and, eq_comm]
  · simp only [reduceCtorEq, hn, false_and]

theorem imageRecord_eq_ok_iff {image : Image} {bs : Bytes} :
    imageRecord image = .ok bs ↔ image.Fits ∧ bs = image.record := by
  have hlength := image.length_record
  simp only [Image.pathLayout] at hlength
  simp only [imageRecord, Except.bind_eq_ok, field_eq_ok_iff]
  constructor
  · intro h
    obtain ⟨_, ⟨hrecord, rfl⟩, _, ⟨-, rfl⟩, _, ⟨hcontent, rfl⟩, h⟩ := h
    cases h
    refine ⟨⟨hlength ▸ hrecord, hcontent⟩, ?_⟩
    simp only [Image.record, Image.pathLayout, List.append_assoc]
  · intro h
    obtain ⟨hfits, rfl⟩ := h
    have hrecord := hfits.record
    refine ⟨_, ⟨by omega, rfl⟩, _, ⟨by omega, rfl⟩, _, ⟨hfits.content, rfl⟩, ?_⟩
    simp only [Image.record, Image.pathLayout, List.append_assoc]
    rfl

/-- A descriptor exists if all numbers in it can be stored. -/
theorem descriptor_eq_ok_iff {images : List Image} {blob : Bytes} :
    descriptor images = .ok blob ↔ images.length < UInt32.size ∧ (∀ image ∈ images, image.Fits) ∧
      blob = descriptorLayout images := by
  have hrecords (h : ∀ image ∈ images, image.Fits) :
      images.mapM imageRecord = .ok (images.map Image.record) :=
    Except.mapM_of_ok fun image himage => imageRecord_eq_ok_iff.mpr ⟨h image himage, rfl⟩
  simp only [descriptor, Except.bind_eq_ok, field_eq_ok_iff]
  constructor
  · intro h
    obtain ⟨_, ⟨hcount, rfl⟩, records, hread, h⟩ := h
    have hfits : ∀ image ∈ images, image.Fits :=
      Except.forall_of_mapM hread fun _ _ h => (imageRecord_eq_ok_iff.mp h).1
    rw [hrecords hfits] at hread
    cases hread
    cases h
    exact ⟨hcount, hfits, by rw [descriptorLayout, List.flatMap_def]⟩
  · intro h
    obtain ⟨hcount, hfits, rfl⟩ := h
    refine ⟨_, ⟨hcount, rfl⟩, _, hrecords hfits, ?_⟩
    rw [descriptorLayout, List.flatMap_def]
    rfl

end Template

end WasmBinary
