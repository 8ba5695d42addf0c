import WasmBinary.Proofs.Descriptor
import WasmBinary.Proofs.Utf8
import WasmBinary.Proofs.Vector

/-!
# Reading descriptors

The reader that descriptors are made for knows nothing but their layout. Each record tells its size in
two ways, by its first number and by the length of the path in it. The reader here goes by the length of
the path and stores the first number; `Descriptor.pieces?` goes by the first number alone.

* `Descriptor.recognizes_read`: what can be read, and as what.
* `Descriptor.pieces?_flatMap_record`: stepping through records.
* `Template.readable_descriptor`: both ways lead through every descriptor that was written.
-/
namespace WasmBinary

namespace Descriptor

open Decoder (Recognizes recognizes_take recognizes_text)

/-! ## The reader -/

inductive EntryError where
  | truncated
  | openPath                              -- no zero behind the path
  | notUtf8 (cause : Text.Utf8.Invalid)
  deriving DecidableEq

inductive ReadError where
  | count
  | records (cause : VectorError EntryError)

/-- What the record of an image tells. -/
structure Entry where
  size : Nat            -- of the record, as its first number has it
  path : String
  contentLength : Nat
  deriving DecidableEq

/-- A number of four bytes. -/
def number : Decoder EndOfInput Nat := do
  let bytes ← Decoder.take 4
  return Bytes.ofLittleEndian bytes.val

/-- The path in front of a closing zero. -/
def closedPath (bytes : Bytes) : Decoder EntryError String :=
  if bytes.getLast? = some 0 then
    match Text.Utf8.decode bytes.dropLast with
    | .ok path => return path
    | .error invalid => throw (.notUtf8 invalid)
  else throw .openPath

def Entry.read : Decoder EntryError Entry := do
  let size ← number.mapError fun _ => .truncated
  let length ← number.mapError fun _ => .truncated
  let bytes ← (Decoder.take length).mapError fun _ => .truncated
  let path ← closedPath bytes.val
  let contentLength ← number.mapError fun _ => .truncated
  return ⟨size, path, contentLength⟩

def read : Decoder ReadError (List Entry) := do
  let count ← number.mapError fun _ => .count
  (Decoder.elements Entry.read 0 count).mapError .records

/-! ## What it reads -/

theorem recognizes_number :
    number.Recognizes (.fixed fun bs n => n < UInt32.size ∧ bs = Bytes.littleEndian 4 n) := by
  refine ((recognizes_take 4).map fun taken => Bytes.ofLittleEndian taken.val).congr
    fun p bs n => ⟨?_, ?_⟩
  · rintro ⟨⟨bs, hlen⟩, rfl, rfl⟩
    have hlt := Bytes.ofLittleEndian_lt bs
    have hback := Bytes.littleEndian_ofLittleEndian bs
    rw [hlen] at hlt hback
    exact ⟨hlt, hback.symm⟩
  · rintro ⟨hlt, rfl⟩
    exact ⟨⟨_, Bytes.length_littleEndian 4 n⟩, rfl, (Bytes.ofLittleEndian_littleEndian 4 n hlt).symm⟩

theorem recognizes_closedPath (bytes : Bytes) : (closedPath bytes).Recognizes
    fun _ bs path => bs = [] ∧ bytes = Text.Utf8.encode path ++ [0] := by
  refine (Recognizes.ite (fun _ => recognizes_text EntryError.notUtf8 bytes.dropLast) fun _ => .throw _).congr
    fun p bs path => ⟨?_, ?_⟩
  · -- The path in front may have zeros of its own; only the last byte is looked at.
    rintro (⟨hlast, rfl, hpath⟩ | ⟨-, hf⟩)
    · obtain ⟨front, rfl⟩ := List.getLast?_eq_some_iff.mp hlast
      rw [List.dropLast_concat, Text.Utf8.decode_eq_ok_iff] at hpath
      exact ⟨rfl, by rw [hpath]⟩
    · exact hf.elim
  · rintro ⟨rfl, rfl⟩
    refine .inl ⟨List.getLast?_concat .., rfl, ?_⟩
    rw [List.dropLast_concat, Text.Utf8.decode_eq_ok_iff]

/-- The bytes of a record, whatever size it names. -/
def Entry.layout (e : Entry) : Bytes :=
  Bytes.littleEndian 4 e.size ++
    (Bytes.littleEndian 4 (Text.Utf8.encode e.path ++ [0]).length ++
      ((Text.Utf8.encode e.path ++ [0]) ++ Bytes.littleEndian 4 e.contentLength))

structure Entry.Fits (e : Entry) : Prop where
  size : e.size < UInt32.size
  path : (Text.Utf8.encode e.path ++ [0]).length < UInt32.size
  content : e.contentLength < UInt32.size

theorem Entry.recognizes_read :
    Entry.read.Recognizes (.fixed fun bs e => e.Fits ∧ bs = e.layout) := by
  have hnumber := recognizes_number.mapError fun _ => EntryError.truncated
  refine (hnumber.bind fun size => hnumber.bind fun length =>
    ((recognizes_take length).mapError _).bind fun bytes => (recognizes_closedPath bytes.val).bind
      fun path => hnumber.bind fun contentLength => .pure _).congr fun p bs e => ⟨?_, ?_⟩
  · rintro ⟨_, _, size, rfl, ⟨hsize, rfl⟩, _, _, length, rfl, ⟨hlength, rfl⟩, _, _, ⟨bytes, hbytes⟩,
      rfl, rfl, _, _, path, rfl, ⟨rfl, hpath⟩, _, _, contentLength, rfl, ⟨hcontent, rfl⟩, rfl, rfl⟩
    subst hpath hbytes
    refine ⟨⟨hsize, hlength, hcontent⟩, ?_⟩
    simp only [Entry.layout, List.nil_append, List.append_nil]
  · rintro ⟨hfits, rfl⟩
    refine ⟨_, _, e.size, rfl, ⟨hfits.size, rfl⟩, _, _, _, rfl, ⟨hfits.path, rfl⟩, _, _,
      ⟨_, rfl⟩, rfl, rfl, [], _, e.path, rfl, ⟨rfl, rfl⟩, Bytes.littleEndian 4 e.contentLength, [],
      e.contentLength, (List.append_nil _).symm, ⟨hfits.content, rfl⟩, rfl, rfl⟩

/-- The entries as a count and their records. -/
def layout (es : List Entry) : Bytes :=
  Bytes.littleEndian 4 es.length ++ es.flatMap Entry.layout

theorem elements_iff {p : Nat} {bs : Bytes} {es : List Entry} :
    Format.Elements (.fixed fun bs (e : Entry) => e.Fits ∧ bs = e.layout) p bs es ↔
      (∀ e ∈ es, e.Fits) ∧ bs = es.flatMap Entry.layout := by
  constructor
  · intro h
    induction h with
    | nil => simp
    | cons first _ ih =>
      obtain ⟨hfits, rfl⟩ := first
      obtain ⟨hothers, rfl⟩ := ih
      exact ⟨List.forall_mem_cons.mpr ⟨hfits, hothers⟩, rfl⟩
  · rintro ⟨hfits, rfl⟩
    induction es generalizing p with
    | nil => exact .nil p
    | cons e es ih =>
      obtain ⟨hfits, hothers⟩ := List.forall_mem_cons.mp hfits
      exact .cons ⟨hfits, rfl⟩ (ih hothers)

/-- Entries whose numbers fit are read from their layout and from no other bytes. -/
theorem recognizes_read : read.Recognizes
    (.fixed fun bs es => es.length < UInt32.size ∧ (∀ e ∈ es, e.Fits) ∧ bs = layout es) := by
  refine ((recognizes_number.mapError _).bind fun count =>
    (Decoder.recognizes_elements Entry.recognizes_read count 0).mapError _).congr
      fun p bs es => ⟨?_, ?_⟩
  · rintro ⟨_, _, _, rfl, ⟨hcount, rfl⟩, rfl, hes⟩
    obtain ⟨hfits, rfl⟩ := elements_iff.mp hes
    exact ⟨hcount, hfits, rfl⟩
  · rintro ⟨hcount, hfits, rfl⟩
    exact ⟨_, _, es.length, rfl, ⟨hcount, rfl⟩, rfl, elements_iff.mpr ⟨hfits, rfl⟩⟩

/-! ## Stepping from record to record -/

/-- The pieces that are found by going on by the number at the start of each; none if a piece is shorter
than its number or longer than what is left. -/
def pieces? (bs : Bytes) : Option (List Bytes) :=
  if bs = [] then some []
  else
    let size := Bytes.ofLittleEndian (bs.take 4)
    if 4 ≤ size ∧ size ≤ bs.length then (pieces? (bs.drop size)).map (bs.take size :: ·) else none
termination_by bs.length
decreasing_by
  rw [List.length_drop]
  omega

/-- A piece whose number is its own length is one step. -/
theorem pieces?_append {piece : Bytes} (h : 4 ≤ piece.length)
    (hsize : Bytes.ofLittleEndian (piece.take 4) = piece.length) (rest : Bytes) :
    pieces? (piece ++ rest) = (pieces? rest).map (piece :: ·) := by
  have hne : piece ++ rest ≠ [] := by
    intro hnil
    rw [List.append_eq_nil_iff.mp hnil |>.1] at h
    cases h
  rw [pieces?, if_neg hne, List.take_append_of_le_length h, hsize]
  dsimp only
  rw [List.take_left, List.drop_left, if_pos ⟨h, by simp⟩]

end Descriptor

/-! ## What was written -/

namespace Image

/-- What the record of an image has to tell. -/
def entry (image : Image) : Descriptor.Entry := ⟨image.record.length, image.path, image.content.length⟩

variable {image : Image}

theorem layout_entry : image.entry.layout = image.record := by
  rw [record, ← length_record]
  rfl

theorem Fits.entry (h : image.Fits) : image.entry.Fits := by
  refine ⟨h.record, ?_, h.content⟩
  have hlength := image.length_record
  have hrecord := h.record
  change image.pathLayout.length < _
  omega

/-- The first number of a record is the length of the record. -/
theorem Fits.size_eq (h : image.Fits) :
    Bytes.ofLittleEndian (image.record.take 4) = image.record.length := by
  have hsize : image.record.take 4 = Bytes.littleEndian 4 image.record.length := by
    rw [image.length_record, Image.record, List.take_left' (Bytes.length_littleEndian ..)]
  rw [hsize, Bytes.ofLittleEndian_littleEndian 4 _ h.record]

end Image

theorem Descriptor.pieces?_flatMap_record {images : List Image} (h : ∀ image ∈ images, image.Fits) :
    pieces? (images.flatMap Image.record) = some (images.map Image.record) := by
  induction images with
  | nil => rw [List.flatMap_nil, pieces?, if_pos rfl, List.map_nil]
  | cons image images ih =>
    obtain ⟨hfits, hothers⟩ := List.forall_mem_cons.mp h
    have hlength : 4 ≤ image.record.length := by
      rw [image.length_record]
      omega
    rw [List.flatMap_cons, pieces?_append hlength hfits.size_eq, ih hothers]
    rfl

namespace Template

/-- What is written is what the reader takes for these entries. -/
theorem form_descriptorLayout {images : List Image} (hcount : images.length < UInt32.size)
    (hfits : ∀ image ∈ images, image.Fits) :
    (images.map Image.entry).length < UInt32.size ∧ (∀ e ∈ images.map Image.entry, e.Fits) ∧
      descriptorLayout images = Descriptor.layout (images.map Image.entry) := by
  refine ⟨by rwa [List.length_map], ?_, ?_⟩
  · intro e he
    obtain ⟨image, himage, rfl⟩ := List.mem_map.mp he
    exact (hfits image himage).entry
  · rw [descriptorLayout, Descriptor.layout, List.length_map, List.flatMap_map]
    simp only [Image.layout_entry]

/-- A descriptor exists for all images whose numbers fit, and it can be read back whatever stands behind
it: the number of images, each path and the length of each content. No other list of images has a
descriptor that starts the same. The first number of each record is the length of the record, so one can
go on from one to the next by these numbers alone, and comes out at the end. -/
theorem readable_descriptor {images : List Image} (hcount : images.length < UInt32.size)
    (hfits : ∀ image ∈ images, image.Fits) : ∃ blob, descriptor images = .ok blob ∧
      (∀ position rest, Descriptor.read ⟨position, blob ++ rest⟩ =
        .ok (images.map Image.entry) ⟨position + blob.length, rest⟩) ∧
      (∀ others blob', descriptor others = .ok blob' → ∀ rest rest', blob' ++ rest' = blob ++ rest →
        others.map Image.entry = images.map Image.entry ∧ blob' = blob) ∧
      Descriptor.pieces? (blob.drop 4) = some (images.map Image.record) ∧
      ∀ image ∈ images, Bytes.ofLittleEndian (image.record.take 4) = image.record.length ∧
        ∀ position rest, Descriptor.Entry.read ⟨position, image.record ++ rest⟩ =
          .ok image.entry ⟨position + image.record.length, rest⟩ := by
  refine ⟨descriptorLayout images, descriptor_eq_ok_iff.mpr ⟨hcount, hfits, rfl⟩,
    fun position rest => Descriptor.recognizes_read.read (form_descriptorLayout hcount hfits) rest,
    fun others blob' h rest rest' heq => ?_, ?_, fun image himage => ⟨(hfits image himage).size_eq, ?_⟩⟩
  · obtain ⟨hcount', hfits', rfl⟩ := descriptor_eq_ok_iff.mp h
    exact Descriptor.recognizes_read.unique (p := 0) (form_descriptorLayout hcount' hfits')
      (form_descriptorLayout hcount hfits) heq
  · rw [descriptorLayout, List.drop_left' (Bytes.length_littleEndian ..)]
    exact Descriptor.pieces?_flatMap_record hfits
  · intro position rest
    exact Descriptor.Entry.recognizes_read.read
      ⟨(hfits image himage).entry, image.layout_entry.symm⟩ rest

/-- Two images. The path of the first has a zero in it, that of the second a character of two bytes. -/
def twoImages : List Image := [⟨"a\x00b", [1, 2, 3]⟩, ⟨"é", []⟩]

theorem readable_descriptor_twoImages : ∃ blob, descriptor twoImages = .ok blob ∧
    Descriptor.read ⟨0, blob⟩ = .ok [⟨16, "a\x00b", 3⟩, ⟨15, "é", 0⟩] ⟨35, []⟩ ∧
    Descriptor.pieces? (blob.drop 4) =
      some [[16, 0, 0, 0, 4, 0, 0, 0, 0x61, 0, 0x62, 0, 3, 0, 0, 0],
        [15, 0, 0, 0, 3, 0, 0, 0, 0xC3, 0xA9, 0, 0, 0, 0, 0]] := by
  have hfits : ∀ image ∈ twoImages, image.Fits := by
    intro image himage
    rcases List.mem_cons.mp himage with rfl | himage
    · exact ⟨by decide, by decide⟩
    · rw [List.mem_singleton.mp himage]
      exact ⟨by decide, by decide⟩
  obtain ⟨blob, hblob, hread, -, hpieces, -⟩ := readable_descriptor (by decide) hfits
  have hlength : blob.length = 35 := by
    rw [(descriptor_eq_ok_iff.mp hblob).2.2]
    decide
  refine ⟨blob, hblob, ?_, hpieces⟩
  have hall := hread 0 []
  rw [List.append_nil, hlength] at hall
  exact hall

end Template

end WasmBinary
