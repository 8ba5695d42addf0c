import WasmBinary.Proofs.Numbers
import WasmBinary.Proofs.Relocation

/-!
# Values that are cut short

Of a value that was read, only the first bytes are left. Reading them again is no success: it fails, and
the innermost cause of the failure is that the input ended. It is never taken for a shorter value, an
unknown opcode, a misplaced `else` or `delegate`, or a number out of range.

The label of a `delegate` is the exception. If the input ends there, the failure is still told as one of
the label, but its causes stop at the label and do not say that the input ended.

* `EndsInput` says of an error that its innermost cause, as it is told, is the end of the input.
* `CutShort P d d'` says that `d'` fails with an error of `P` on everything that `d` reads and that was
  cut short. `CutShort.bind`, `CutShort.mapError`, …: one lemma for each way in which decoders are built.
* `Leb128.cutShort_u32`, `Immediate.cutShort_decode`, `BlockType.cutShort_decode`: the parts of an
  instruction. `Instruction.cutShort_sequence`: nested instructions, by induction on the bound of the reader.
* `Instruction.EndsInLabel`: the bytes that end in a label, told without reading them.
  `Instruction.failsInLabel_sequence_iff`: they are those on which reading fails there.
* `Expr.decode_cutShort`: expressions.
-/
namespace WasmBinary

/-! ## Errors at the end of the input -/

/-- The innermost cause of the error, as it is told, is that the input ended. -/
def EndsInput {ε : Type} [Reportable ε] (e : ε) : Prop :=
  (report e).innermost = Report.endOfInput.message

/-- An error that tells its cause ends the input if the cause does. -/
theorem EndsInput.because {ε ε' : Type} [Reportable ε] [Reportable ε'] {e : ε} {e' : ε'}
    {message : String} (he : EndsInput e) (h : report e' = .because message (report e)) :
    EndsInput e' := by
  rw [EndsInput, h, Report.innermost_because]
  exact he

/-- How an instruction that is cut short fails: of a label the error does not tell the cause. -/
def InstructionError.OfCut (e : InstructionError) : Prop :=
  EndsInput e ∨ e = .delegateLabel .endOfInput

/-- The report of a label ends with the label. -/
theorem InstructionError.not_endsInput_label (cause : Leb128.UnsignedError) :
    ¬EndsInput (delegateLabel cause) := by
  change "failed decoding delegate label" ≠ "failed to fill whole buffer"
  decide

/-! ## Decoders that notice a cut -/

namespace Decoder

variable {ε ε' α β : Type}

/-- `d` fails at `c` with an error of `P`. -/
def Fails (P : ε → Prop) (d : Decoder ε α) (c : Cursor) : Prop := ∃ e c', d c = .error e c' ∧ P e

/-- On the bytes that `d` takes for a value, `d'` fails with an error of `P` if some are missing. If none
is missing it reads the same value, or fails with an error of `P` again. -/
def CutShort (P : ε → Prop) (d d' : Decoder ε α) : Prop :=
  ∀ p s a c, d ⟨p, s⟩ = .ok a c → ∃ bs, s = bs ++ c.rest ∧ c.position = p + bs.length ∧
    (∀ rest, d' ⟨p, bs ++ rest⟩ = .ok a ⟨p + bs.length, rest⟩ ∨ Fails P d' ⟨p, bs ++ rest⟩) ∧
    ∀ k < bs.length, Fails P d' ⟨p, bs.take k⟩

namespace Fails

variable {P : ε → Prop} {d : Decoder ε α} {c : Cursor}

theorem bind_iff {k : α → Decoder ε β} : Fails P (d >>= k) c ↔
    Fails P d c ∨ ∃ a c', d c = .ok a c' ∧ Fails P (k a) c' := by
  constructor
  · intro h
    obtain ⟨e, c'', h, he⟩ := h
    rcases (bind_eq_error ..).mp h with hd | ⟨a, c', hd, hk⟩
    · exact .inl ⟨e, c'', hd, he⟩
    · exact .inr ⟨a, c', hd, e, c'', hk, he⟩
  · intro h
    rcases h with ⟨e, c', hd, he⟩ | ⟨a, c', hd, e, c'', hk, he⟩
    · exact ⟨e, c', (bind_eq_error ..).mpr (.inl hd), he⟩
    · exact ⟨e, c'', (bind_eq_error ..).mpr (.inr ⟨a, c', hd, hk⟩), he⟩

/-- Nothing is read behind a failure. -/
theorem bind (h : Fails P d c) (k : α → Decoder ε β) : Fails P (d >>= k) c := bind_iff.mpr (.inl h)

theorem of_bind {a : α} {c' : Cursor} (hd : d c = .ok a c') {k : α → Decoder ε β}
    (h : Fails P (k a) c') : Fails P (d >>= k) c := bind_iff.mpr (.inr ⟨a, c', hd, h⟩)

theorem of_ite {Q : Prop} [Decidable Q] {d₁ : Decoder ε α} (h : Fails P (if Q then d else d₁) c) :
    (Q ∧ Fails P d c) ∨ (¬Q ∧ Fails P d₁ c) := by
  by_cases hQ : Q
  · rw [if_pos hQ] at h
    exact .inl ⟨hQ, h⟩
  · rw [if_neg hQ] at h
    exact .inr ⟨hQ, h⟩

theorem not_pure (a : α) : ¬Fails P (pure a : Decoder ε α) c := by
  intro h
  obtain ⟨e, c', h, -⟩ := h
  cases h

theorem not_throw {e : ε} (he : ¬P e) : ¬Fails P (throw e : Decoder ε α) c := by
  intro h
  obtain ⟨_, c', h, hP⟩ := h
  cases h
  exact he hP

theorem not_mapError {P' : ε' → Prop} {g : ε → ε'} (hg : ∀ e, ¬P' (g e)) :
    ¬Fails P' (d.mapError g) c := by
  intro h
  obtain ⟨_, c', h, he⟩ := h
  obtain ⟨e, -, rfl⟩ := (mapError_eq_error ..).mp h
  exact hg e he

theorem mapError (h : Fails P d c) {P' : ε' → Prop} {g : ε → ε'} (hg : ∀ e, P e → P' (g e)) :
    Fails P' (d.mapError g) c := by
  obtain ⟨e, c', hd, he⟩ := h
  exact ⟨g e, c', (mapError_eq_error ..).mpr ⟨e, hd, rfl⟩, hg e he⟩

end Fails

namespace CutShort

variable {P : ε → Prop} {d d' : Decoder ε α}

theorem pure (a : α) : CutShort P (pure a) (pure a) := by
  intro p s b c h
  cases h
  exact ⟨[], rfl, rfl, fun _ => .inl rfl, fun _ hk => absurd hk (Nat.not_lt_zero _)⟩

theorem throw (e : ε) : CutShort P (throw e) d' := fun _ _ _ _ h => nomatch h

/-- What always fails with an error of `P` does so on less. -/
theorem of_throw {F : Format α} (h : d.Recognizes F) {e : ε} (he : P e) :
    CutShort P d (MonadExcept.throw e) := by
  intro p s a c hd
  obtain ⟨bs, hs, hposition, -⟩ := h.consumed hd
  have hfails (c : Cursor) : Fails P (MonadExcept.throw e : Decoder ε α) c := ⟨e, c, rfl, he⟩
  exact ⟨bs, hs, hposition, fun _ => .inr (hfails _), fun _ _ => hfails _⟩

theorem bind {k k' : α → Decoder ε β} (h : CutShort P d d') (hk : ∀ a, CutShort P (k a) (k' a)) :
    CutShort P (d >>= k) (d' >>= k') := by
  intro p s b c hd
  obtain ⟨a, ⟨q, r⟩, hd, hkd⟩ := (bind_eq_ok ..).mp hd
  obtain ⟨bs₁, rfl, hq, hwhole₁, hcut₁⟩ := h _ _ _ _ hd
  simp only at hq
  subst hq
  obtain ⟨bs₂, rfl, hposition, hwhole₂, hcut₂⟩ := hk a _ _ _ _ hkd
  refine ⟨bs₁ ++ bs₂, (List.append_assoc ..).symm, ?_, fun rest => ?_, fun n hn => ?_⟩
  · rw [hposition, List.length_append, Nat.add_assoc]
  · rw [List.append_assoc, List.length_append, ← Nat.add_assoc]
    rcases hwhole₁ (bs₂ ++ rest) with hread | hfails
    · rcases hwhole₂ rest with hread' | hfails
      · exact .inl ((bind_of_ok hread _).trans hread')
      · exact .inr (.of_bind hread hfails)
    · exact .inr (hfails.bind k')
  · by_cases hfirst : n < bs₁.length
    · rw [List.take_append_of_le_length (Nat.le_of_lt hfirst)]
      exact (hcut₁ n hfirst).bind k'
    · have hrest : n - bs₁.length < bs₂.length := by
        rw [List.length_append] at hn
        omega
      rw [List.take_append, List.take_of_length_le (Nat.not_lt.mp hfirst)]
      rcases hwhole₁ (bs₂.take (n - bs₁.length)) with hread | hfails
      · exact .of_bind hread (hcut₂ _ hrest)
      · exact hfails.bind k'

theorem map (h : CutShort P d d') (g : α → β) : CutShort P (g <$> d) (g <$> d') :=
  h.bind fun a => pure (g a)

/-- A byte string of the format is not read if its end is missing. -/
theorem fails_take (h : CutShort P d d') {F : Format α} (hF : d.Recognizes F) {p k : Nat} {bs : Bytes}
    {a : α} (hform : F p bs a) (hk : k < bs.length) : Fails P d' ⟨p, bs.take k⟩ := by
  obtain ⟨bs', hbs, -, -, hcut⟩ := h _ _ _ _ (hF.read hform [])
  obtain rfl := List.append_cancel_right hbs
  exact hcut k hk

theorem mapError (h : CutShort P d d') {P' : ε' → Prop} {g : ε → ε'} (hg : ∀ e, P e → P' (g e)) :
    CutShort P' (d.mapError g) (d'.mapError g) := by
  intro p s a c hd
  obtain ⟨bs, hs, hposition, hwhole, hcut⟩ := h _ _ _ _ ((mapError_eq_ok ..).mp hd)
  refine ⟨bs, hs, hposition, fun rest => ?_, fun k hk => (hcut k hk).mapError hg⟩
  rcases hwhole rest with hread | hfails
  · exact .inl ((mapError_eq_ok ..).mpr hread)
  · exact .inr (hfails.mapError hg)

theorem ite {Q : Prop} [Decidable Q] {d₁ d₁' : Decoder ε α} (h : Q → CutShort P d d')
    (h₁ : ¬Q → CutShort P d₁ d₁') :
    CutShort P (if Q then d else d₁) (if Q then d' else d₁') := by
  by_cases hQ : Q
  · rw [if_pos hQ, if_pos hQ]
    exact h hQ
  · rw [if_neg hQ, if_neg hQ]
    exact h₁ hQ

theorem elements [Reportable ε] (h : CutShort P d d) (hP : ∀ e, P e → EndsInput e) (count : Nat) :
    ∀ position, CutShort EndsInput (elements d position count) (elements d position count) := by
  induction count with
  | zero => exact fun _ => .pure _
  | succ count ih =>
    intro position
    exact CutShort.bind (h.mapError fun e he => (hP e he).because rfl) fun a =>
      (ih (position + 1)).bind fun as => .pure _

end CutShort

theorem cutShort_position {P : ε → Prop} : CutShort P (position : Decoder ε Nat) position := by
  intro p s q c h
  cases h
  exact ⟨[], rfl, rfl, fun _ => .inl rfl, fun _ hk => absurd hk (Nat.not_lt_zero _)⟩

/-- A byte is there or it is not. -/
theorem cutShort_byte : CutShort (fun _ => True) byte byte := by
  intro p s b c h
  cases s with
  | nil => cases h
  | cons x s =>
    cases h
    refine ⟨[b], rfl, rfl, fun _ => .inl rfl, fun k hk => ?_⟩
    obtain rfl : k = 0 := by simpa using hk
    exact ⟨.endOfInput, _, rfl, trivial⟩

theorem cutShort_take (n : Nat) : CutShort (fun _ => True) (take n) (take n) := by
  induction n with
  | zero => exact .pure _
  | succ n ih => exact cutShort_byte.bind fun b => ih.bind fun t => .pure _

end Decoder

open Decoder (CutShort Fails cutShort_byte cutShort_take cutShort_position bind_eq_error mapError_eq_error
  recognizes_byte)

/-! ## Numbers and markers -/

namespace Leb128

theorem cutShort_readGroups {ε α : Type} {endOfInput tooLong misfit : ε}
    {unfit : (groups width : Nat) → UInt8 → Bool} {last : UInt8 → α} {more : UInt8 → α → α}
    (groups : Nat) : ∀ width, CutShort (· = endOfInput)
      (readGroups endOfInput tooLong misfit unfit last more groups width)
      (readGroups endOfInput tooLong misfit unfit last more groups width) := by
  induction groups with
  | zero => exact fun _ => .throw _
  | succ groups ih =>
    intro width
    exact CutShort.bind (cutShort_byte.mapError fun _ _ => rfl) fun b => .ite
      (fun _ => .ite (fun _ => .throw _) fun _ => .pure _)
      fun _ => (ih (width - 7)).bind fun n => .pure _

theorem cutShort_u32 : CutShort (· = .endOfInput) u32 u32 := by
  rw [u32, unsigned, unsignedGroups_eq_readGroups]
  exact (cutShort_readGroups _ 32).map _

theorem cutShort_signed (bits : Nat) : CutShort (· = .endOfInput) (signed bits) (signed bits) := by
  rw [signed, signedGroups_eq_readGroups]
  exact cutShort_readGroups _ bits

end Leb128

open Leb128 (cutShort_u32 cutShort_signed)

theorem Decoder.CutShort.vector {ε α : Type} [Reportable ε] {P : ε → Prop} {d : Decoder ε α}
    (h : CutShort P d d) (hP : ∀ e, P e → EndsInput e) :
    CutShort EndsInput (Decoder.vector d) (Decoder.vector d) :=
  .bind (cutShort_u32.mapError fun _ he => he ▸ rfl) fun n => h.elements hP n.toNat 0

theorem MarkerTable.cutShort_decode {α : Type} (t : MarkerTable α) :
    CutShort EndsInput t.decode t.decode := by
  refine CutShort.bind (cutShort_byte.mapError fun _ _ => rfl) fun marker => ?_
  cases t.find? marker with
  | none => exact .throw _
  | some value => exact .pure value

/-! ## Immediates and block types -/

theorem MemArg.cutShort_decode : CutShort (· = .endOfInput) MemArg.decode MemArg.decode :=
  cutShort_u32.bind fun _ => cutShort_u32.bind fun _ => .pure _

theorem Immediate.cutShort_decode (shape : Shape) :
    CutShort EndsInput (decode shape) (decode shape) := by
  have hunsigned : CutShort EndsInput unsigned unsigned := cutShort_u32.mapError fun _ he => he ▸ rfl
  have hbyte : CutShort EndsInput rawByte rawByte := cutShort_byte.mapError fun _ _ => rfl
  have hbytes (n : Nat) : CutShort EndsInput (rawBytes n) (rawBytes n) :=
    (cutShort_take n).mapError fun _ _ => rfl
  have haccess : CutShort EndsInput access access :=
    MemArg.cutShort_decode.mapError fun _ he => he ▸ rfl
  have hindices : CutShort EndsInput (Decoder.vector Leb128.u32) (Decoder.vector Leb128.u32) :=
    cutShort_u32.vector fun _ he => he ▸ rfl
  have htypes : CutShort EndsInput (Decoder.vector ValueType.markers.decode)
      (Decoder.vector ValueType.markers.decode) :=
    (MarkerTable.cutShort_decode _).vector fun _ he => he
  cases shape with
  | none | block => exact .pure _
  | index => exact hunsigned.bind fun _ => .pure _
  | indexPair => exact hunsigned.bind fun _ => hunsigned.bind fun _ => .pure _
  | branchTable =>
    exact .bind (hindices.mapError fun _ he => he.because rfl) fun _ => hunsigned.bind fun _ => .pure _
  | i32 | i64 =>
    exact .bind (((cutShort_signed _).map _).mapError fun _ he => he ▸ rfl) fun _ => .pure _
  | f32 | f64 | v128 => exact (hbytes _).bind fun _ => .pure _
  | memArg => exact haccess.bind fun _ => .pure _
  | memArgLane => exact haccess.bind fun _ => hbyte.bind fun _ => .pure _
  | lane | reserved => exact hbyte.bind fun _ => .pure _
  | selectTyped =>
    exact .bind (htypes.mapError fun _ he => he.because rfl) fun _ => .pure _
  | refNull => exact .bind ((MarkerTable.cutShort_decode _).mapError fun _ he => he) fun _ => .pure _

namespace BlockType

theorem cutShort_decodeIndex : CutShort EndsInput decodeIndex decodeIndex :=
  .bind ((cutShort_signed 33).mapError fun _ he => he ▸ rfl) fun _ =>
    .ite (fun _ => .pure _) fun _ => .throw _

theorem Form.length_pos {bs : Bytes} {t : BlockType} (h : Form bs t) : 0 < bs.length := by
  cases h with
  | empty => exact Nat.one_pos
  | value h =>
    obtain ⟨b, rfl, -⟩ := h
    exact Nat.one_pos
  | typeIndex h => exact h.groups.length_pos

/-- Reads a block type that is one byte. -/
def decodeByte (t : BlockType) : Decoder BlockTypeError BlockType := do
  let _ ← Decoder.byte.mapError fun _ => .endOfInput
  return t

theorem cutShort_decodeByte (t : BlockType) :
    CutShort EndsInput (decodeByte t) (decodeByte t) :=
  .bind (cutShort_byte.mapError fun _ _ => rfl) fun _ => .pure t

/-- The first byte tells how to go on. -/
theorem exists_decode_cons (b : UInt8) : ∃ d, CutShort EndsInput d d ∧
    ∀ p s, decode ⟨p, b :: s⟩ = d ⟨p, b :: s⟩ := by
  by_cases hb : b = emptyByte
  · refine ⟨decodeByte .empty, cutShort_decodeByte _, fun p s => ?_⟩
    rw [decode_cons, if_pos hb]
    rfl
  · cases hfind : ValueType.markers.find? b with
    | some type =>
      refine ⟨decodeByte (.value type), cutShort_decodeByte _, fun p s => ?_⟩
      rw [decode_cons, if_neg hb, hfind]
      rfl
    | none =>
      refine ⟨decodeIndex, cutShort_decodeIndex, fun p s => ?_⟩
      rw [decode_cons, if_neg hb, hfind]

theorem cutShort_decode : CutShort EndsInput decode decode := by
  intro p s t c h
  cases s with
  | nil => cases h
  | cons b s =>
    obtain ⟨d, hd, hfirst⟩ := exists_decode_cons b
    obtain ⟨front, -, hlength, hform⟩ := recognizes_decode.consumed h
    have hpos := hform.length_pos
    rw [hfirst] at h
    obtain ⟨bs, hbs, hposition, hwhole, hcut⟩ := hd _ _ _ _ h
    obtain ⟨b', bs, rfl⟩ := List.exists_cons_of_length_pos (l := bs) (by omega)
    obtain rfl : b = b' := (List.cons.inj hbs).1
    refine ⟨b :: bs, hbs, hposition, fun rest => ?_, fun k hk => ?_⟩
    · simpa only [Fails, List.cons_append, hfirst] using hwhole rest
    · cases k with
      | zero => exact ⟨.endOfInput, _, rfl, rfl⟩
      | succ k => simpa only [Fails, List.take_succ_cons, hfirst] using hcut (k + 1) hk

end BlockType

/-! ## Instructions -/

namespace Instruction

open InstructionError (OfCut)

theorem Head.cutShort_decode : CutShort OfCut Head.decode Head.decode := by
  refine CutShort.bind (cutShort_byte.mapError fun _ _ => .inl rfl) fun b => .ite (fun _ => .pure _)
    fun _ => .ite (fun _ => .pure _) fun _ => .ite (fun _ => ?_) fun _ => ?_
  · exact .bind (cutShort_u32.mapError fun _ he => .inr (he ▸ rfl)) fun _ => .pure _
  · cases Opcode.Space.ofPrefixByte? b with
    | some space =>
      refine CutShort.bind (cutShort_u32.mapError fun _ he => .inl (he ▸ rfl)) fun code => ?_
      cases Opcode.ofCode? space code.toNat with
      | some known => exact .pure _
      | none => exact .throw _
    | none =>
      cases Opcode.ofCode? .core b.toNat with
      | some known => exact .pure _
      | none => exact .throw _

section

variable {nested nested' : Decoder InstructionError (Expr × Terminator)}

theorem cutShort_decodeBlock (h : CutShort OfCut nested nested') (o : Opcode) (offset : Nat) :
    CutShort OfCut (decodeBlock nested o offset) (decodeBlock nested' o offset) := by
  refine CutShort.bind (BlockType.cutShort_decode.mapError fun _ he => .inl (he.because rfl))
    fun type => h.bind fun (body, closing) => ?_
  cases closing with
  | finish => exact .pure _
  | orElse =>
    refine .ite (fun _ => h.bind fun (alternative, closing) => ?_) fun _ => .throw _
    cases closing with
    | finish => exact .pure _
    | orElse | delegate label => exact .throw _
  | delegate label => exact .ite (fun _ => .pure _) fun _ => .throw _

theorem cutShort_decodeRest (h : CutShort OfCut nested nested') (o : Opcode) (offset : Nat) :
    CutShort OfCut (decodeRest nested o offset) (decodeRest nested' o offset) :=
  .ite (fun _ => cutShort_decodeBlock h o offset) fun _ =>
    .bind ((Immediate.cutShort_decode o.shape).mapError fun _ he => .inl (he.because rfl))
      fun _ => .pure _

end

/-- Whatever bounds the two readers have: one that runs out of its bound fails as if the input ended. -/
theorem cutShort_sequence (n : Nat) : ∀ m, CutShort OfCut (sequence n) (sequence m) := by
  induction n with
  | zero => exact fun _ => .throw _
  | succ n ih =>
    intro m
    cases m with
    | zero => exact .of_throw (recognizes_sequence (n + 1)) (.inl rfl)
    | succ m =>
      refine cutShort_position.bind fun offset => Head.cutShort_decode.bind fun head => ?_
      cases head with
      | terminator closing => exact .pure _
      | opcode o =>
        exact (cutShort_decodeRest (ih m) o offset).bind fun first => (ih m).bind fun rest => .pure _

end Instruction

/-! ## Labels that are cut short -/

/-- The byte string, standing at a position of the input, ends inside the label of a `delegate`: behind its byte
come only bytes that another one has to follow, and too few for a number of 32 bits. -/
inductive Instruction.EndsInLabel : Nat → Bytes → Prop
  | label {p : Nat} {bs : Bytes} (more : ∀ b ∈ bs, 0x80 ≤ b) (length_lt : bs.length < 5) :
      EndsInLabel p (0x18 :: bs)
  | behind {p : Nat} {bs bs' : Bytes} {i : Instruction} (first : Form p bs i)
      (others : EndsInLabel (p + bs.length) bs') : EndsInLabel p (bs ++ bs')
  | body {p : Nat} {head type bs : Bytes} {o : Opcode} {t : BlockType} (hhead : Opcode.Form head o)
      (shape_eq : o.shape = .block) (htype : BlockType.Form type t)
      (nested : EndsInLabel (p + head.length + type.length) bs) : EndsInLabel p (head ++ (type ++ bs))
  | alternative {p : Nat} {head type bs bs' : Bytes} {t : BlockType} {body : Expr}
      (hhead : Opcode.Form head .ifBlock) (htype : BlockType.Form type t)
      (hbody : SequenceForm (p + head.length + type.length) bs body)
      (nested : EndsInLabel (p + head.length + type.length + bs.length + 1) bs') :
      EndsInLabel p (head ++ (type ++ (bs ++ [0x05] ++ bs')))

/-- A number of 32 bits misses its end where all bytes call for another one and there are too few of them. -/
theorem Leb128.fails_u32_iff {p : Nat} {s : Bytes} :
    Fails (· = .endOfInput) u32 ⟨p, s⟩ ↔ (∀ b ∈ s, 0x80 ≤ b) ∧ s.length < 5 := by
  have hread := unsigned_eq 32 p s
  have hmost : groupCount 32 = 5 := rfl
  dsimp only at hread
  constructor
  · intro h
    obtain ⟨_, c, h, rfl⟩ := h
    by_cases hlong : groupCount 32 ≤ s.findIdx (· < 0x80)
    · rw [if_pos hlong] at hread
      rw [u32, Decoder.map_of_error _ hread] at h
      cases h
    · rw [if_neg hlong] at hread
      by_cases hend : s.findIdx (· < 0x80) = s.length
      · have hmore := le_of_mem_take (s := s) (Nat.le_refl _)
        rw [hend, List.take_length] at hmore
        exact ⟨hmore, by omega⟩
      · rw [if_neg hend] at hread
        split at hread
        · rw [u32, Decoder.map_of_ok _ hread] at h
          cases h
        · rw [u32, Decoder.map_of_error _ hread] at h
          cases h
  · intro h
    obtain ⟨hmore, hlength⟩ := h
    exact ⟨_, _, Decoder.map_of_error _ (unsigned_endOfInput hmore (hmost ▸ hlength) p), rfl⟩

namespace Instruction

/-- The input ends inside the label of a `delegate`. -/
abbrev FailsInLabel {α : Type} (d : Decoder InstructionError α) (c : Cursor) : Prop :=
  Fails (· = .delegateLabel .endOfInput) d c

/-- Behind a byte that closes no sequence there is no label. -/
theorem Head.not_failsInLabel_opcode (b : UInt8) (c : Cursor) : ¬FailsInLabel
    (match Opcode.Space.ofPrefixByte? b with
      | some space => do
        let code ← Leb128.u32.mapError (.code b)
        match Opcode.ofCode? space code.toNat with
        | some known => return .opcode known
        | none => throw (.unknownCode b code)
      | none =>
        match Opcode.ofCode? .core b.toNat with
        | some known => return .opcode known
        | none => throw (.unknownOpcode b) : Decoder InstructionError Head) c := by
  intro h
  cases hspace : Opcode.Space.ofPrefixByte? b with
  | some space =>
    rw [hspace] at h
    rcases Fails.bind_iff.mp h with hcode | ⟨code, c₁, -, hknown⟩
    · exact Fails.not_mapError (fun _ he => nomatch he) hcode
    · cases hfind : Opcode.ofCode? space code.toNat with
      | some known =>
        rw [hfind] at hknown
        exact Fails.not_pure _ hknown
      | none =>
        rw [hfind] at hknown
        exact Fails.not_throw (fun he => nomatch he) hknown
  | none =>
    rw [hspace] at h
    cases hfind : Opcode.ofCode? .core b.toNat with
    | some known =>
      rw [hfind] at h
      exact Fails.not_pure _ h
    | none =>
      rw [hfind] at h
      exact Fails.not_throw (fun he => nomatch he) h

/-- The head of an instruction fails in a label on such bytes alone. -/
theorem Head.failsInLabel_decode_iff {p : Nat} {s : Bytes} : FailsInLabel Head.decode ⟨p, s⟩ ↔
    ∃ bs, s = 0x18 :: bs ∧ (∀ b ∈ bs, 0x80 ≤ b) ∧ bs.length < 5 := by
  constructor
  · intro h
    rcases Fails.bind_iff.mp h with hbyte | ⟨b, ⟨q, bs⟩, hbyte, hrest⟩
    · exact (Fails.not_mapError (fun _ he => nomatch he) hbyte).elim
    obtain ⟨_, rfl, -, rfl⟩ := (recognizes_byte.mapError _).consumed hbyte
    rcases Fails.of_ite hrest with ⟨-, hend⟩ | ⟨-, hrest⟩
    · exact (Fails.not_pure _ hend).elim
    rcases Fails.of_ite hrest with ⟨-, helse⟩ | ⟨-, hrest⟩
    · exact (Fails.not_pure _ helse).elim
    rcases Fails.of_ite hrest with ⟨rfl, hdelegate⟩ | ⟨-, hopcode⟩
    · rcases Fails.bind_iff.mp hdelegate with ⟨_, c, hlabel, rfl⟩ | ⟨label, c, -, hread⟩
      · obtain ⟨e, hlabel, he⟩ := (mapError_eq_error ..).mp hlabel
        cases he
        exact ⟨bs, rfl, Leb128.fails_u32_iff.mp ⟨_, c, hlabel, rfl⟩⟩
      · exact (Fails.not_pure _ hread).elim
    · exact (not_failsInLabel_opcode b _ hopcode).elim
  · intro h
    obtain ⟨bs, rfl, hlabel⟩ := h
    have hread : FailsInLabel (Leb128.u32.mapError InstructionError.delegateLabel) ⟨p + 1, bs⟩ :=
      (Leb128.fails_u32_iff.mpr hlabel).mapError fun _ he => he ▸ rfl
    exact hread.bind fun label => pure (Head.terminator (.delegate label))

section

variable {nested : Decoder InstructionError (Expr × Terminator)} {c : Cursor}

theorem failsInLabel_alternative {o : Opcode} {offset : Nat} {t : BlockType} {body : Expr}
    (h : FailsInLabel (do
      let (alternative, closing) ← nested
      match closing with
      | .finish => return ifElse offset t body alternative
      | .orElse => throw (.unexpectedElse o)
      | .delegate _ => throw (.unexpectedDelegate o) : Decoder InstructionError Instruction) c) :
    FailsInLabel nested c := by
  rcases Fails.bind_iff.mp h with hnested | ⟨⟨alternative, closing⟩, c', -, h⟩
  · exact hnested
  · cases closing with
    | finish => exact (Fails.not_pure _ h).elim
    | orElse | delegate label => exact (Fails.not_throw (fun he => nomatch he) h).elim

/-- Behind the first arm of a block, only the second arm of an `if` can fail in a label. -/
theorem failsInLabel_closing_iff {o : Opcode} {offset : Nat} {t : BlockType} {r : Expr × Terminator} :
    FailsInLabel (match r.2 with
      | .finish => return block o offset t r.1
      | .orElse =>
        if o = .ifBlock then do
          let (alternative, closing) ← nested
          match closing with
          | .finish => return ifElse offset t r.1 alternative
          | .orElse => throw (.unexpectedElse o)
          | .delegate _ => throw (.unexpectedDelegate o)
        else throw (.unexpectedElse o)
      | .delegate label =>
        if o = .tryBlock then return tryDelegate offset t r.1 label
        else throw (.unexpectedDelegate o) : Decoder InstructionError Instruction) c ↔
      o = .ifBlock ∧ r.2 = .orElse ∧ FailsInLabel nested c := by
  obtain ⟨body, closing⟩ := r
  constructor
  · intro h
    cases closing with
    | finish => exact (Fails.not_pure _ h).elim
    | orElse =>
      rcases Fails.of_ite h with ⟨hif, h⟩ | ⟨-, h⟩
      · exact ⟨hif, rfl, failsInLabel_alternative h⟩
      · exact (Fails.not_throw (fun he => nomatch he) h).elim
    | delegate label =>
      rcases Fails.of_ite h with ⟨-, h⟩ | ⟨-, h⟩
      · exact (Fails.not_pure _ h).elim
      · exact (Fails.not_throw (fun he => nomatch he) h).elim
  · intro h
    obtain ⟨rfl, rfl, h⟩ := h
    simp only [if_true]
    exact h.bind _

/-- Of instructions without nested ones, none fails in a label. -/
theorem not_failsInLabel_plain {o : Opcode} {offset : Nat} : ¬FailsInLabel
    (plain o offset <$> (Immediate.decode o.shape).mapError (.immediates o offset)) c := by
  intro h
  have h : FailsInLabel ((Immediate.decode o.shape).mapError (.immediates o offset) >>= fun i =>
    pure (plain o offset i)) c := h
  rcases Fails.bind_iff.mp h with himmediate | ⟨i, c', -, hread⟩
  · exact Fails.not_mapError (fun _ he => nomatch he) himmediate
  · exact Fails.not_pure _ hread

end

/-- If the rest of an instruction fails in a label, the label is nested in it. -/
theorem EndsInLabel.of_decodeRest {n : Nat}
    (hn : ∀ {p : Nat} {s : Bytes}, FailsInLabel (sequence n) ⟨p, s⟩ → EndsInLabel p s) {o : Opcode}
    {p : Nat} {head s : Bytes} (hhead : Opcode.Form head o)
    (h : FailsInLabel (decodeRest (sequence n) o p) ⟨p + head.length, s⟩) :
    EndsInLabel p (head ++ s) := by
  rcases Fails.of_ite h with ⟨hshape, hblock⟩ | ⟨-, hplain⟩
  · rcases Fails.bind_iff.mp hblock with hfails | ⟨t, ⟨q, s₁⟩, hread, hbody⟩
    · exact (Fails.not_mapError (fun _ he => nomatch he) hfails).elim
    obtain ⟨type, rfl, rfl, htype⟩ := (BlockType.recognizes_decode.mapError _).consumed hread
    rcases Fails.bind_iff.mp hbody with hfails | ⟨⟨body, closing⟩, ⟨q, s₂⟩, hread, hrest⟩
    · exact .body hhead hshape htype (hn hfails)
    · obtain ⟨rfl, rfl, hsecond⟩ := failsInLabel_closing_iff (r := (body, closing)).mp hrest
      obtain ⟨_, rfl, rfl, bs, _, rfl, hform, hclosing, -⟩ := (recognizes_sequence n).consumed hread
      cases hclosing
      refine .alternative hhead htype hform (hn ?_)
      simpa [Nat.add_assoc] using hsecond
  · exact (not_failsInLabel_plain hplain).elim

theorem endsInLabel_of_sequence (n : Nat) : ∀ {p : Nat} {s : Bytes},
    FailsInLabel (sequence n) ⟨p, s⟩ → EndsInLabel p s := by
  induction n with
  | zero =>
    intro p s h
    exact (Fails.not_throw (fun he => nomatch he) h).elim
  | succ n ih =>
    intro p s h
    rw [sequence] at h
    rcases Fails.bind_iff.mp h with hnone | ⟨offset, c, hposition, h⟩
    · obtain ⟨_, _, hnone, -⟩ := hnone
      cases hnone
    cases hposition
    rcases Fails.bind_iff.mp h with hhead | ⟨head, ⟨q, s₁⟩, hhead, hbehind⟩
    · obtain ⟨bs, rfl, hmore, hlength⟩ := Head.failsInLabel_decode_iff.mp hhead
      exact .label hmore hlength
    obtain ⟨bs, rfl, rfl, hform⟩ := Head.recognizes_decode.consumed hhead
    cases hform with
    | terminator ht => exact (Fails.not_pure _ hbehind).elim
    | opcode ho =>
      rcases Fails.bind_iff.mp hbehind with hrest | ⟨first, ⟨q, s₂⟩, hrest, hothers⟩
      · exact .of_decodeRest ih ho hrest
      obtain ⟨bs', rfl, rfl, hform⟩ :=
        (recognizes_decodeRest (recognizes_sequence n) _ _).consumed hrest
      obtain ⟨hfirst, -⟩ := form_iff_restForm.mpr ⟨bs, bs', _, rfl, ho, hform⟩
      rcases Fails.bind_iff.mp hothers with hothers | ⟨r, c, -, hend⟩
      · rw [← List.append_assoc]
        refine .behind hfirst (ih ?_)
        simpa [Nat.add_assoc] using hothers
      · exact (Fails.not_pure _ hend).elim

/-- If the rest of the first instruction fails in a label, so does the sequence. -/
theorem failsInLabel_of_decodeRest {n p : Nat} {head s : Bytes} {o : Opcode}
    (hhead : Opcode.Form head o)
    (h : FailsInLabel (decodeRest (sequence n) o p) ⟨p + head.length, s⟩) :
    FailsInLabel (sequence (n + 1)) ⟨p, head ++ s⟩ :=
  .of_bind rfl (.of_bind (Head.recognizes_decode.read (.opcode hhead) _) (h.bind _))

/-- Bytes that end in a label are read as far as the label. -/
theorem EndsInLabel.failsInLabel {p : Nat} {s : Bytes} (h : EndsInLabel p s) :
    ∀ {n : Nat}, s.length < n → FailsInLabel (sequence n) ⟨p, s⟩ := by
  induction h with
  | label hmore hlength =>
    intro n hn
    obtain ⟨n, rfl⟩ := Nat.exists_eq_add_one.mpr (Nat.zero_lt_of_lt hn)
    exact .of_bind rfl ((Head.failsInLabel_decode_iff.mpr ⟨_, rfl, hmore, hlength⟩).bind _)
  | @behind p bs bs' i first others ih =>
    intro n hn
    obtain ⟨n, rfl⟩ := Nat.exists_eq_add_one.mpr (Nat.zero_lt_of_lt hn)
    have hdepth := first.depth_lt
    rw [List.length_append] at hn
    obtain ⟨head, bs, o, rfl, ho, hrest⟩ := form_iff_restForm.mp ⟨first, show depth i ≤ n by omega⟩
    have hread := (recognizes_decodeRest (recognizes_sequence n) o p).read hrest bs'
    rw [List.length_append, ← Nat.add_assoc] at ih
    rw [List.append_assoc]
    exact .of_bind rfl (.of_bind (Head.recognizes_decode.read (.opcode ho) _) (.of_bind hread
      ((ih (by omega)).bind _)))
  | @body p head type bs o t ho shape_eq htype nested ih =>
    intro n hn
    obtain ⟨n, rfl⟩ := Nat.exists_eq_add_one.mpr (Nat.zero_lt_of_lt hn)
    have hpos := ho.length_pos
    simp only [List.length_append] at hn
    have hread := (BlockType.recognizes_decode.mapError InstructionError.blockType).read
      (p := p + head.length) htype bs
    refine failsInLabel_of_decodeRest ho ?_
    rw [decodeRest, if_pos shape_eq]
    exact .of_bind hread ((ih (by omega)).bind _)
  | @alternative p head type bs bs' t body ho htype hbody nested ih =>
    intro n hn
    obtain ⟨n, rfl⟩ := Nat.exists_eq_add_one.mpr (Nat.zero_lt_of_lt hn)
    have hpos := ho.length_pos
    have hdepth := hbody.depthAll_le
    simp only [List.length_append, List.length_singleton] at hn
    have hread := (BlockType.recognizes_decode.mapError InstructionError.blockType).read
      (p := p + head.length) htype (bs ++ [0x05] ++ bs')
    have hfirst := (recognizes_sequence n).read (a := (body, .orElse))
      ⟨bs, [0x05], rfl, hbody, .orElse, show depthAll body ≤ n by omega⟩ bs'
    refine failsInLabel_of_decodeRest ho ?_
    rw [decodeRest, if_pos (by decide)]
    refine .of_bind hread (.of_bind hfirst
      (failsInLabel_closing_iff (r := (body, .orElse)).mpr ⟨rfl, rfl, ?_⟩))
    simpa [Nat.add_assoc] using ih (show bs'.length < n by omega)

/-- Reading fails in a label exactly on the bytes that end in one. -/
theorem failsInLabel_sequence_iff {n p : Nat} {s : Bytes} (hn : s.length < n) :
    FailsInLabel (sequence n) ⟨p, s⟩ ↔ EndsInLabel p s :=
  ⟨endsInLabel_of_sequence n, fun h => h.failsInLabel hn⟩

end Instruction

/-! ## Expressions -/

/-- An expression that is cut short anywhere cannot be read. The innermost cause is that the input ended, except
in the label of a `delegate`: that the input ended there is known, but not told. -/
theorem Expr.decode_cutShort {p n : Nat} {s : Bytes} {e : Expr} {c : Cursor}
    (h : Expr.decode ⟨p, s⟩ = .ok e c) (hn : c.position = p + n) {k : Nat} (hk : k < n) :
    ∃ cause c', Expr.decode ⟨p, s.take k⟩ = .error cause c' ∧
      (EndsInput cause ↔ ¬Instruction.EndsInLabel p (s.take k)) ∧
      (Instruction.EndsInLabel p (s.take k) → cause = .instruction (.delegateLabel .endOfInput)) := by
  have hsequence : Instruction.sequence (s.length + 1) ⟨p, s⟩ = .ok (e, .finish) c := by
    simp only [decode] at h
    split at h
    case h_2 e' c' heq =>
      cases h
      exact heq
    all_goals cases h
  obtain ⟨bs, hs, hposition, -, hcut⟩ :=
    Instruction.cutShort_sequence _ ((s.take k).length + 1) _ _ _ _ hsequence
  have htake : s.take k = bs.take k := by
    rw [hs, List.take_append_of_le_length (by omega)]
  obtain ⟨cause, c', hread, hcause⟩ := hcut k (by omega)
  rw [← htake] at hread
  have hlabel : Instruction.EndsInLabel p (s.take k) ↔ cause = .delegateLabel .endOfInput := by
    rw [← Instruction.failsInLabel_sequence_iff (Nat.lt_succ_self _)]
    constructor
    · intro hfails
      obtain ⟨_, c₁, hfails, rfl⟩ := hfails
      rw [hread] at hfails
      cases hfails
      rfl
    · exact fun heq => ⟨cause, c', hread, heq⟩
  refine ⟨.instruction cause, c', by simp only [decode, hread], ?_, fun hends => ?_⟩
  · rw [hlabel]
    constructor
    · rintro hends rfl
      exact InstructionError.not_endsInput_label _ hends
    · exact fun hne => hcause.resolve_right hne
  · rw [hlabel.mp hends]

/-- A block whose type is an index of two bytes, and in it a `try` with a `delegate` label of two bytes,
both cut in half. -/
theorem Expr.decode_cutShort_twoBytes :
    let bytes : Bytes := [0x02, 0x80, 0x01, 0x06, 0x40, 0x18, 0x80, 0x01, 0x0B, 0x0B]
    let nested : Instruction := .tryDelegate 3 .empty [] 128
    Expr.decode ⟨0, bytes⟩ = .ok [.block ⟨.core, 0x02, by decide⟩ 0 (.typeIndex 128) [nested]] ⟨10, []⟩ ∧
      (∃ cause c, Expr.decode ⟨0, [0x02, 0x80]⟩ = .error cause c ∧ EndsInput cause) ∧
      ∃ c, Expr.decode ⟨0, [0x02, 0x80, 0x01, 0x06, 0x40, 0x18, 0x80]⟩ =
        .error (.instruction (.delegateLabel .endOfInput)) c := by
  intro bytes nested
  have hread : Expr.decode ⟨0, bytes⟩ =
      .ok [.block ⟨.core, 0x02, by decide⟩ 0 (.typeIndex 128) [nested]] ⟨10, []⟩ := rfl
  have hlength : (⟨10, []⟩ : Cursor).position = 0 + 10 := rfl
  have hlabel : Instruction.EndsInLabel 0 (bytes.take 7) :=
    (Instruction.failsInLabel_sequence_iff (n := 8) (by decide)).mp ⟨_, ⟨7, []⟩, rfl, rfl⟩
  obtain ⟨cause, c, htype, -⟩ := decode_cutShort hread hlength (k := 2) (by decide)
  obtain ⟨_, c', hcut, -, hcause⟩ := decode_cutShort hread hlength (k := 7) (by decide)
  rw [hcause hlabel] at hcut
  refine ⟨hread, ⟨cause, c, htype, ?_⟩, c', hcut⟩
  cases htype
  rfl

/-- A `try` that is cut short behind its `delegate`: the causes end with the label. -/
theorem Expr.decode_cut_delegate :
    Expr.decode ⟨0, [0x06, 0x40, 0x18, 0x00, 0x0B]⟩ = .ok [.tryDelegate 0 .empty [] 0] ⟨5, []⟩ ∧
      ∃ cause c, Expr.decode ⟨0, [0x06, 0x40, 0x18]⟩ = .error cause c ∧ ¬EndsInput cause ∧
        report cause = ⟨"failed parsing instruction", ["failed decoding delegate label"]⟩ :=
  ⟨rfl, .instruction (.delegateLabel .endOfInput), ⟨3, []⟩, rfl,
    InstructionError.not_endsInput_label .endOfInput, rfl⟩

end WasmBinary
