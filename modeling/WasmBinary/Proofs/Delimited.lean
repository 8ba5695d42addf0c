import WasmBinary.Proofs.Payload
import WasmBinary.Proofs.Entity

/-!
# What tells where a value ends

A decoder is delimited if it recognizes some format: the bytes of a value then tell where it ends, and
what stands behind them makes no difference. All readers of payloads are delimited but that of custom
sections, whose contents go on to the end of the payload.

* `Delimited.append`: more bytes behind a value that could be read.
* `Delimited.bind`, `Delimited.ite`, …: one lemma for each way in which decoders are built.
* `Payload.delimited_decode`: the readers of payloads.
-/
namespace WasmBinary

namespace Decoder

variable {ε ε' α β : Type} {d : Decoder ε α}

/-- `d` recognizes a format. -/
def Delimited (d : Decoder ε α) : Prop := ∃ F, d.Recognizes F

namespace Delimited

/-- What stands behind a value makes no difference to it. -/
theorem append (h : Delimited d) {p : Nat} {s : Bytes} {a : α} {c : Cursor}
    (hd : d ⟨p, s⟩ = .ok a c) (more : Bytes) :
    d ⟨p, s ++ more⟩ = .ok a ⟨c.position, c.rest ++ more⟩ := by
  obtain ⟨F, h⟩ := h
  obtain ⟨bs, hs, hposition, hF⟩ := h.consumed hd
  rw [hs, List.append_assoc, h.read hF, hposition]

theorem pure (a : α) : Delimited (pure a : Decoder ε α) := ⟨_, .pure a⟩

theorem throw (e : ε) : Delimited (throw e : Decoder ε α) := ⟨_, .throw e⟩

theorem bind {k : α → Decoder ε β} (h : Delimited d) (hk : ∀ a, Delimited (k a)) :
    Delimited (d >>= k) := by
  obtain ⟨F, hF⟩ := h
  exact ⟨_, hF.bind fun a => Classical.choose_spec (hk a)⟩

theorem map (h : Delimited d) (g : α → β) : Delimited (g <$> d) := by
  obtain ⟨F, hF⟩ := h
  exact ⟨_, hF.map g⟩

theorem mapError (h : Delimited d) (g : ε → ε') : Delimited (d.mapError g) := by
  obtain ⟨F, hF⟩ := h
  exact ⟨_, hF.mapError g⟩

theorem ite {P : Prop} [Decidable P] {d' : Decoder ε α} (h : P → Delimited d)
    (h' : ¬P → Delimited d') : Delimited (if P then d else d') := by
  by_cases hP : P
  · rw [if_pos hP]
    exact h hP
  · rw [if_neg hP]
    exact h' hP

theorem vector (h : Delimited d) : Delimited (vector d) := by
  obtain ⟨F, hF⟩ := h
  exact ⟨_, recognizes_vector hF⟩

end Delimited

theorem delimited_byte : Delimited byte := ⟨_, recognizes_byte⟩

theorem delimited_name : Delimited name := ⟨_, recognizes_name⟩

end Decoder

open Decoder (Delimited bind_eq_ok mapError_eq_ok delimited_byte delimited_name)
open Leb128 (U32Form recognizes_u32)

/-! ## Numbers, types and indices -/

theorem Leb128.delimited_u32 : Delimited u32 := ⟨_, recognizes_u32⟩

theorem Leb128.delimited_u64 : Delimited u64 := Delimited.map ⟨_, recognizes_unsigned 64⟩ _

theorem MarkerTable.delimited_decode {α : Type} (t : MarkerTable α) : Delimited t.decode :=
  ⟨_, t.recognizes_decode⟩

theorem IndexSpace.delimited_decode (space : IndexSpace) : Delimited space.decode :=
  ⟨_, space.recognizes_decode⟩

theorem FuncType.delimited_decode : Delimited FuncType.decode := by
  have htypes : Delimited (Decoder.vector ValueType.markers.decode) :=
    (MarkerTable.delimited_decode _).vector
  refine (delimited_byte.mapError _).bind fun form => .ite (fun _ => ?_) fun _ => .throw _
  exact (htypes.mapError _).bind fun parameters => (htypes.mapError _).bind fun results => .pure _

theorem Limits.delimited_bound (index64 : Bool) : Delimited (Limits.bound index64) :=
  .ite (fun _ => Leb128.delimited_u64) fun _ => Leb128.delimited_u32.map _

theorem Limits.delimited_decode : Delimited Limits.decode := by
  refine (delimited_byte.mapError _).bind fun flags => .ite (fun _ => ?_) fun _ => .throw _
  refine ((delimited_bound _).mapError _).bind fun min => .ite (fun _ => ?_) fun _ => ?_
  · exact (((delimited_bound _).mapError _).map _).bind fun max => .pure _
  · exact (Delimited.pure _).bind fun max => .pure _

theorem Limits.delimited_decodeMemory : Delimited Limits.decodeMemory :=
  Limits.delimited_decode.mapError _

theorem TableType.delimited_decode : Delimited TableType.decode :=
  ((MarkerTable.delimited_decode _).mapError _).bind fun _ =>
    (Limits.delimited_decode.mapError _).bind fun _ => .pure _

theorem GlobalType.delimited_decode : Delimited GlobalType.decode := ⟨_, recognizes_decode⟩

/-! ## Imports and exports -/

theorem ImportItem.delimited_decode (kind : ExternalKind) : Delimited (ImportItem.decode kind) := by
  have htype := IndexSpace.delimited_decode .type
  cases kind with
  | func => exact (htype.mapError _).bind fun type => .pure _
  | table => exact (TableType.delimited_decode.mapError _).bind fun type => .pure _
  | memory => exact (Limits.delimited_decodeMemory.mapError _).bind fun limits => .pure _
  | global => exact (GlobalType.delimited_decode.mapError _).bind fun type => .pure _
  | tag =>
    refine (delimited_byte.mapError _).bind fun kind => .ite (fun _ => ?_) fun _ => .throw _
    exact (htype.mapError _).bind fun type => .pure _

theorem Import.delimited_decode : Delimited Import.decode := by
  refine (delimited_name.mapError _).bind fun module => (delimited_name.mapError _).bind fun name => ?_
  refine ((MarkerTable.delimited_decode _).mapError _).bind fun kind => ?_
  exact (ImportItem.delimited_decode kind).bind fun item => .pure _

theorem Export.delimited_decode : Delimited Export.decode :=
  (delimited_name.mapError _).bind fun _ => ((MarkerTable.delimited_decode _).mapError _).bind
    fun _ => (Leb128.delimited_u32.mapError _).bind fun _ => .pure _

/-! ## Segments -/

theorem Expr.delimited_decode : Delimited Expr.decode := ⟨_, Expr.recognizes_decode⟩

namespace Element

theorem delimited_decodeMode (flags : UInt32) : Delimited (decodeMode flags) := by
  have hoffset : Delimited (Expr.decode.mapError ElementError.offset) :=
    Expr.delimited_decode.mapError _
  refine .ite (fun _ => .ite (fun _ => ?_) fun _ => ?_) fun _ =>
    .ite (fun _ => .pure _) fun _ => .pure _
  · exact ((IndexSpace.delimited_decode .table).mapError _).bind fun table =>
      hoffset.bind fun offset => .pure _
  · exact (Delimited.pure _).bind fun table => hoffset.bind fun offset => .pure _

theorem delimited_decodeKind : Delimited decodeKind :=
  (delimited_byte.mapError _).bind fun _ => .ite (fun _ => .pure _) fun _ => .throw _

theorem delimited_decodeType (flags : UInt32) : Delimited (decodeType flags) :=
  .ite (fun _ => .pure _) fun _ => .ite (fun _ => (MarkerTable.delimited_decode _).mapError _)
    fun _ => delimited_decodeKind.mapError _

theorem delimited_decodeItems (flags : UInt32) : Delimited (decodeItems flags) :=
  .ite (fun _ => (Expr.delimited_decode.vector.mapError _).map _)
    fun _ => ((IndexSpace.delimited_decode .func).vector.mapError _).map _

theorem delimited_decode : Delimited Element.decode := by
  refine (Leb128.delimited_u32.mapError _).bind fun flags => .ite (fun _ => ?_) fun _ => ?_
  · exact (Delimited.throw _).bind fun _ => (delimited_decodeMode flags).bind fun mode =>
      (delimited_decodeType flags).bind fun type => (delimited_decodeItems flags).bind fun items =>
        .pure _
  · exact (delimited_decodeMode flags).bind fun mode => (delimited_decodeType flags).bind fun type =>
      (delimited_decodeItems flags).bind fun items => .pure _

end Element

/-! ## Code -/

namespace Code

/-- The size, and then that many bytes. -/
def PlaceForm (p : Nat) (bs : Bytes) (place : Nat × Bytes) : Prop :=
  ∃ size n, bs = size ++ place.2 ∧ U32Form size n ∧ place.2.length = n.toNat ∧
    place.1 = p + size.length

theorem recognizes_decodePlace : decodePlace.Recognizes PlaceForm := by
  intro p s place c
  simp only [decodePlace, bind_eq_ok, mapError_eq_ok]
  constructor
  · intro h
    obtain ⟨n, ⟨q, r⟩, hn, _, _, hposition, bytes, c', htake, hrest⟩ := h
    obtain ⟨size, rfl, hq, hsize⟩ := recognizes_u32.consumed hn
    cases hposition
    simp only [Decoder.takeUpTo, Cursor.skip, EStateM.Result.ok.injEq] at htake
    obtain ⟨rfl, rfl⟩ := htake
    simp only at hq
    subst hq
    by_cases hshort : (r.take n.toNat).length < n.toNat
    · rw [if_pos hshort] at hrest
      cases hrest
    · rw [if_neg hshort] at hrest
      cases hrest
      have hlength : (r.take n.toNat).length = n.toNat := by
        have := List.length_take_le n.toNat r
        omega
      refine ⟨size ++ r.take n.toNat, r.drop n.toNat, by simp, ?_, size, n, rfl, hsize, hlength, rfl⟩
      simp only [hlength, List.length_append, Nat.add_assoc]
  · intro h
    obtain ⟨_, rest, rfl, rfl, size, n, rfl, hsize, hlength, hoffset⟩ := h
    obtain ⟨offset, bytes⟩ := place
    simp only at hlength hoffset ⊢
    subst hoffset
    have hread := recognizes_u32.read (p := p) hsize (bytes ++ rest)
    rw [← List.append_assoc] at hread
    refine ⟨n, _, hread, _, _, rfl, bytes, ⟨p + size.length + bytes.length, rest⟩, ?_, ?_⟩
    · rw [← hlength]
      exact Decoder.takeUpTo_append bytes rest _
    · rw [if_neg (by omega), List.length_append, ← Nat.add_assoc]
      rfl

theorem delimited_decodeAll : Delimited decodeAll :=
  (Delimited.vector ⟨_, recognizes_decodePlace⟩).bind fun _ => .pure _

end Code

/-! ## Payloads -/

namespace Payload

theorem delimited_of_entities {ε α : Type} {d : Decoder ε α} (h : Delimited d)
    (toError : ε → ModuleError) (toPayload : α → Payload) :
    Delimited (toPayload <$> d.mapError toError) := (h.mapError toError).map toPayload

/-- All payloads but those of custom sections tell where they end. -/
theorem delimited_decode (readCode : Bool) {kind : SectionKind} (h : kind ≠ .custom) :
    Delimited (decode readCode kind) := by
  cases kind with
  | custom => exact absurd rfl h
  | type => exact delimited_of_entities FuncType.delimited_decode.vector _ _
  | importing => exact delimited_of_entities Import.delimited_decode.vector _ _
  | function => exact delimited_of_entities (IndexSpace.delimited_decode _).vector _ _
  | table => exact delimited_of_entities TableType.delimited_decode.vector _ _
  | memory => exact delimited_of_entities Limits.delimited_decodeMemory.vector _ _
  | global => exact delimited_of_entities (Delimited.vector ⟨_, Global.recognizes_decode⟩) _ _
  | exporting => exact delimited_of_entities Export.delimited_decode.vector _ _
  | start => exact delimited_of_entities (IndexSpace.delimited_decode _) _ _
  | element => exact delimited_of_entities Element.delimited_decode.vector _ _
  | data => exact delimited_of_entities (Delimited.vector ⟨_, DataSegment.recognizes_decode⟩) _ _
  | dataCount => exact delimited_of_entities Leb128.delimited_u32 _ _
  | code => exact .ite (fun _ => delimited_of_entities Code.delimited_decodeAll _ _) fun _ => .pure _
  | tag | unknown id => exact .pure _

end Payload

end WasmBinary
