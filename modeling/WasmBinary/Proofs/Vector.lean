import WasmBinary.Vector
import WasmBinary.Proofs.Leb128

/-!
# The forms of vectors and names

A vector is any accepted form of its count and then its elements. A byte vector is a vector of
bytes, and a name is a byte vector whose bytes are UTF-8.

* `recognizes_vector`: if a decoder recognizes the format of the elements, `vector` recognizes
  vectors of them; `recognizes_fixedVector`: wherever they stand, if that is no matter to the elements.
* `recognizes_byteVector`, `recognizes_name`.
-/
namespace WasmBinary

open Leb128 (U32Form recognizes_u32)

namespace Format

variable {α : Type} {F : Format α}

/-- A count and that many values. -/
inductive Vector (F : Format α) : Format (List α)
  | mk {p : Nat} {count bs : Bytes} {n : UInt32} {as : List α} (hcount : U32Form count n)
      (length_eq : as.length = n.toNat) (elements : Elements F (p + count.length) bs as) :
      Vector F p (count ++ bs) as

/-- A count and that many bytes. -/
inductive ByteVector : Bytes → Bytes → Prop
  | mk {count content : Bytes} {n : UInt32} (hcount : U32Form count n)
      (length_eq : content.length = n.toNat) : ByteVector (count ++ content) content

/-- The bytes of a text behind their count. -/
def Name (bs : Bytes) (text : String) : Prop :=
  ∃ content, ByteVector bs content ∧ Text.Utf8.decode content = .ok text

/-- Each element stands somewhere among the bytes of all. -/
theorem Elements.exists_of_mem {p : Nat} {bs : Bytes} {as : List α} (h : Elements F p bs as) {a : α}
    (ha : a ∈ as) :
    ∃ front own back, bs = front ++ (own ++ back) ∧ F (p + front.length) own a := by
  induction h with
  | nil => cases ha
  | @cons p bs rest b as first _ ih =>
    rcases List.mem_cons.mp ha with rfl | ha
    · exact ⟨[], bs, rest, rfl, first⟩
    · obtain ⟨front, own, back, rfl, hown⟩ := ih ha
      refine ⟨bs ++ front, own, back, by simp, ?_⟩
      rwa [List.length_append, ← Nat.add_assoc]

theorem Vector.exists_of_mem {p : Nat} {bs : Bytes} {as : List α} (h : Vector F p bs as) {a : α}
    (ha : a ∈ as) :
    ∃ front own back, bs = front ++ (own ++ back) ∧ F (p + front.length) own a := by
  obtain ⟨_, _, helements⟩ := h
  obtain ⟨front, own, back, rfl, hown⟩ := helements.exists_of_mem ha
  refine ⟨_ ++ front, own, back, (List.append_assoc ..).symm, ?_⟩
  rwa [List.length_append, ← Nat.add_assoc]

variable {G : Bytes → α → Prop}

theorem Elements.move {p : Nat} {bs : Bytes} {as : List α} (h : Elements (.fixed G) p bs as)
    (q : Nat) : Elements (.fixed G) q bs as := by
  induction h generalizing q with
  | nil p => exact .nil q
  | cons first _ ih => exact .cons first (ih _)

/-- Where a vector of a fixed format stands does not matter. -/
theorem Vector.move {p : Nat} {bs : Bytes} {as : List α} (h : Vector (.fixed G) p bs as)
    (q : Nat) : Vector (.fixed G) q bs as := by
  cases h with
  | mk hcount hlen has => exact .mk hcount hlen (has.move _)

end Format

namespace Decoder

variable {ε α : Type} {d : Decoder ε α} {F : Format α}

theorem recognizes_elements (h : d.Recognizes F) (count : Nat) : ∀ position,
    (elements d position count).Recognizes fun p bs as => as.length = count ∧ Format.Elements F p bs as := by
  induction count with
  | zero =>
    intro position
    refine (Recognizes.pure _).congr fun p bs as => ⟨?_, ?_⟩
    · intro hform
      obtain ⟨rfl, rfl⟩ := hform
      exact ⟨rfl, .nil p⟩
    · intro hform
      obtain ⟨hlen, has⟩ := hform
      cases has with
      | nil => exact ⟨rfl, rfl⟩
      | cons _ _ => cases hlen
  | succ count ih =>
    intro position
    refine ((h.mapError _).bind fun a => (ih (position + 1)).bind fun as => .pure _).congr
      fun p bs as => ⟨?_, ?_⟩
    · intro hform
      obtain ⟨bs₁, _, a, rfl, ha, bs₂, _, as, rfl, ⟨hlen, has⟩, rfl, rfl⟩ := hform
      refine ⟨by simp [hlen], ?_⟩
      simpa using Format.Elements.cons ha has
    · intro hform
      obtain ⟨hlen, has⟩ := hform
      cases has with
      | nil => cases hlen
      | @cons _ bs₁ bs₂ a as ha has =>
        exact ⟨bs₁, bs₂, a, rfl, ha, bs₂, [], as, by simp, ⟨by simpa using hlen, has⟩, rfl, rfl⟩

/-- A vector is read whatever accepted form its count has. -/
theorem recognizes_vector (h : d.Recognizes F) : (vector d).Recognizes (.Vector F) := by
  refine ((recognizes_u32.mapError _).bind fun n => recognizes_elements h n.toNat 0).congr
    fun p bs as => ⟨?_, ?_⟩
  · intro hform
    obtain ⟨count, bs, n, rfl, hcount, hlen, has⟩ := hform
    exact .mk hcount hlen has
  · intro hform
    obtain ⟨hcount, hlen, has⟩ := hform
    exact ⟨_, _, _, rfl, hcount, hlen, has⟩

/-- A vector of a format that does not depend on the position does not depend on it either. -/
theorem recognizes_fixedVector {G : Bytes → α → Prop} (h : d.Recognizes (.fixed G)) :
    (vector d).Recognizes (.fixed (Format.Vector (.fixed G) 0)) :=
  (recognizes_vector h).congr fun p _ _ => ⟨fun has => has.move 0, fun has => has.move p⟩

theorem recognizes_byteVector : byteVector.Recognizes (.fixed Format.ByteVector) := by
  intro p s content c
  simp only [byteVector, bind_eq_ok, mapError_eq_ok]
  constructor
  · intro h
    obtain ⟨n, ⟨q, r⟩, hn, bytes, c', htake, hrest⟩ := h
    obtain ⟨count, rfl, hq, hcount⟩ := recognizes_u32.consumed hn
    simp only [takeUpTo, Cursor.skip, EStateM.Result.ok.injEq] at htake
    obtain ⟨rfl, rfl⟩ := htake
    simp only at hq
    subst hq
    split at hrest
    · rename_i hlen
      cases hrest
      refine ⟨count ++ r.take n.toNat, r.drop n.toNat, by simp, ?_, .mk hcount hlen⟩
      simp only [hlen, List.length_append, Nat.add_assoc]
    · cases hrest
  · intro h
    obtain ⟨_, rest, rfl, rfl, @⟨count, _, n, hcount, hlen⟩⟩ := h
    refine ⟨n, ⟨p + count.length, content ++ rest⟩, ?_, content,
      ⟨p + count.length + content.length, rest⟩, ?_, ?_⟩
    · rw [List.append_assoc]
      exact recognizes_u32.read hcount _
    · rw [← hlen]
      exact takeUpTo_append content rest _
    · rw [if_pos hlen]
      simp [Nat.add_assoc, pure, EStateM.pure]

theorem recognizes_text (f : Text.Utf8.Invalid → ε) (content : Bytes) : Recognizes
    (match Text.Utf8.decode content with
      | .ok text => return text
      | .error invalid => throw (f invalid) : Decoder ε String)
    fun _ bs text => bs = [] ∧ Text.Utf8.decode content = .ok text := by
  cases Text.Utf8.decode content with
  | error invalid => exact (Recognizes.throw _).congr fun p bs a => by simp
  | ok text => exact (Recognizes.pure _).congr fun p bs a => by simp [eq_comm]

theorem recognizes_name : name.Recognizes (.fixed Format.Name) := by
  refine ((recognizes_byteVector.mapError _).bind (recognizes_text NameError.notUtf8)).congr fun p bs text => ⟨?_, ?_⟩
  · intro h
    obtain ⟨bs, _, content, rfl, hbytes, rfl, htext⟩ := h
    exact ⟨content, by simpa using hbytes, htext⟩
  · intro h
    obtain ⟨content, hbytes, htext⟩ := h
    exact ⟨bs, [], content, by simp, hbytes, rfl, htext⟩

end Decoder

end WasmBinary
