import WasmBinary.Module.EntityDecode
import WasmBinary.Proofs.Offsets
import WasmBinary.Proofs.Expression

/-!
# Reading at another position

What a decoder finds depends on where the bytes stand only in that the offsets it records move along.
`Follows f onError onValue d d'` says that `d'`, reading the same bytes at a place moved by `f`, ends
as `d` does, with its result changed by `onError` or `onValue`. `f` has to move only the places that
the bytes take up, so that it may move the parts of a file over different distances.

* `Follows.bind`, `Follows.mapError`, …: one lemma for each way in which decoders are built.
* `Fixed`: decoders that record no offset give the same result everywhere.
* `Expr.follows_decode`, `Global.follows_decode`, `Element.follows_decode`,
  `DataSegment.follows_decode`, `Code.follows_decodeAll`: those that do record offsets.
-/
namespace WasmBinary

/-- `f` moves all positions from `p` to `p + length` over the same distance. -/
def Moves (f : Nat → Nat) (p length : Nat) : Prop := ∀ n ≤ length, f (p + n) = f p + n

theorem Moves.mono {f : Nat → Nat} {p q length length' : Nat} (h : Moves f p length) (hle : p ≤ q)
    (hend : q + length' ≤ p + length) : Moves f q length' := by
  intro n hn
  have hfirst := h (q - p) (by omega)
  have hlast := h (q - p + n) (by omega)
  rw [show p + (q - p) = q by omega] at hfirst
  rw [show p + (q - p + n) = q + n by omega] at hlast
  omega

/-- A distance between two places. -/
theorem moves_between (p q length : Nat) : Moves (fun x => x - p + q) p length := by
  intro n _
  simp only
  omega

namespace Decoder

variable {ε ε' α β : Type}

theorem bind_eq_error (d : Decoder ε α) (k : α → Decoder ε β) (c c'' : Cursor) (e : ε) :
    (d >>= k) c = .error e c'' ↔
      d c = .error e c'' ∨ ∃ a c', d c = .ok a c' ∧ k a c' = .error e c'' := by
  change EStateM.bind d k c = _ ↔ _
  unfold EStateM.bind
  cases d c with
  | ok a c' =>
    simp only [reduceCtorEq, false_or, EStateM.Result.ok.injEq]
    constructor
    · intro h
      exact ⟨a, c', ⟨rfl, rfl⟩, h⟩
    · intro h
      obtain ⟨_, _, ⟨rfl, rfl⟩, h⟩ := h
      exact h
  | error e c' => simp

theorem mapError_eq_error (g : ε → ε') (d : Decoder ε α) (c c' : Cursor) (e' : ε') :
    d.mapError g c = .error e' c' ↔ ∃ e, d c = .error e c' ∧ e' = g e := by
  unfold mapError
  cases d c with
  | ok a c'' => simp
  | error e c'' =>
    simp only [EStateM.Result.error.injEq]
    constructor
    · intro h
      obtain ⟨rfl, rfl⟩ := h
      exact ⟨e, ⟨rfl, rfl⟩, rfl⟩
    · intro h
      obtain ⟨_, ⟨rfl, rfl⟩, rfl⟩ := h
      exact ⟨rfl, rfl⟩

/-- `d'` ends at the moved place as `d` does at the original one. -/
structure Follows (f : Nat → Nat) (onError : ε → ε) (onValue : α → α) (d d' : Decoder ε α) :
    Prop where
  ok {p : Nat} {s : Bytes} {a : α} {c : Cursor} (hf : Moves f p s.length)
    (h : d ⟨p, s⟩ = .ok a c) :
    (p ≤ c.position ∧ c.position + c.rest.length = p + s.length) ∧
      d' ⟨f p, s⟩ = .ok (onValue a) ⟨f c.position, c.rest⟩
  error {p : Nat} {s : Bytes} {e : ε} {c : Cursor} (hf : Moves f p s.length)
    (h : d ⟨p, s⟩ = .error e c) : ∃ c', d' ⟨f p, s⟩ = .error (onError e) c'

/-- The result of `d` does not depend on the position. -/
def Fixed (d : Decoder ε α) : Prop := ∀ f, Follows f id id d d

namespace Follows

variable {f : Nat → Nat} {onError : ε → ε} {onValue : α → α} {d d' : Decoder ε α}

theorem pure {a a' : α} (h : onValue a = a') :
    Follows f onError onValue (pure a : Decoder ε α) (pure a') := by
  subst h
  refine ⟨fun _ h => ?_, fun _ h => nomatch h⟩
  cases h
  exact ⟨⟨Nat.le_refl _, rfl⟩, rfl⟩

/-- Nothing is read behind a failure. -/
theorem throw_bind {onNext : β → β} {e e' : ε} {k k' : α → Decoder ε β} (h : onError e = e') :
    Follows f onError onNext ((throw e : Decoder ε α) >>= k) ((throw e' : Decoder ε α) >>= k') := by
  subst h
  refine ⟨fun _ h => (nomatch h), fun _ h => ?_⟩
  cases h
  exact ⟨_, rfl⟩

theorem throw {e e' : ε} (h : onError e = e') :
    Follows f onError onValue (throw e : Decoder ε α) (throw e') := by
  subst h
  refine ⟨fun _ h => (nomatch h), fun _ h => ?_⟩
  cases h
  exact ⟨_, rfl⟩

theorem position : Follows f onError f (position : Decoder ε Nat) position := by
  refine ⟨fun _ h => ?_, fun _ h => nomatch h⟩
  cases h
  exact ⟨⟨Nat.le_refl _, rfl⟩, rfl⟩

theorem bind {onNext : β → β} {k k' : α → Decoder ε β} (h : Follows f onError onValue d d')
    (hk : ∀ a, Follows f onError onNext (k a) (k' (onValue a))) :
    Follows f onError onNext (d >>= k) (d' >>= k') := by
  constructor
  · intro p s b c hf hd
    obtain ⟨a, ⟨q, r⟩, hd, hkd⟩ := (bind_eq_ok ..).mp hd
    obtain ⟨⟨hle, hend⟩, hd'⟩ := h.ok hf hd
    obtain ⟨⟨hle', hend'⟩, hkd'⟩ := (hk a).ok (hf.mono hle (Nat.le_of_eq hend)) hkd
    exact ⟨⟨Nat.le_trans hle hle', hend'.trans hend⟩, (bind_eq_ok ..).mpr ⟨_, _, hd', hkd'⟩⟩
  · intro p s e c hf hd
    rcases (bind_eq_error ..).mp hd with hd | ⟨a, ⟨q, r⟩, hd, hkd⟩
    · obtain ⟨c', hd'⟩ := h.error hf hd
      exact ⟨c', (bind_eq_error ..).mpr (.inl hd')⟩
    · obtain ⟨⟨hle, hend⟩, hd'⟩ := h.ok hf hd
      obtain ⟨c', hkd'⟩ := (hk a).error (hf.mono hle (Nat.le_of_eq hend)) hkd
      exact ⟨c', (bind_eq_error ..).mpr (.inr ⟨_, _, hd', hkd'⟩)⟩

theorem map {onNext : β → β} {g g' : α → β} (h : Follows f onError onValue d d')
    (hg : ∀ a, onNext (g a) = g' (onValue a)) : Follows f onError onNext (g <$> d) (g' <$> d') :=
  h.bind fun a => .pure (hg a)

theorem mapError {onError' : ε' → ε'} {g g' : ε → ε'} (h : Follows f onError onValue d d')
    (hg : ∀ e, onError' (g e) = g' (onError e)) :
    Follows f onError' onValue (d.mapError g) (d'.mapError g') := by
  constructor
  · intro p s a c hf hd
    obtain ⟨hle, hd'⟩ := h.ok hf ((mapError_eq_ok ..).mp hd)
    exact ⟨hle, (mapError_eq_ok ..).mpr hd'⟩
  · intro p s e c hf hd
    obtain ⟨e, hd₀, rfl⟩ := (mapError_eq_error ..).mp hd
    obtain ⟨c', hd'⟩ := h.error hf hd₀
    exact ⟨c', (mapError_eq_error ..).mpr ⟨_, hd', hg e⟩⟩

theorem ite {P : Prop} [Decidable P] {d₁ d₁' : Decoder ε α}
    (h : P → Follows f onError onValue d d') (h₁ : ¬P → Follows f onError onValue d₁ d₁') :
    Follows f onError onValue (if P then d else d₁) (if P then d' else d₁') := by
  by_cases hP : P
  · rw [if_pos hP, if_pos hP]
    exact h hP
  · rw [if_neg hP, if_neg hP]
    exact h₁ hP

end Follows

/-! ## Decoders that record no offset -/

namespace Fixed

variable {d : Decoder ε α}

theorem pure (a : α) : Fixed (pure a : Decoder ε α) := fun _ => .pure rfl

theorem throw (e : ε) : Fixed (throw e : Decoder ε α) := fun _ => .throw rfl

theorem bind {k : α → Decoder ε β} (h : Fixed d) (hk : ∀ a, Fixed (k a)) : Fixed (d >>= k) :=
  fun f => (h f).bind fun a => hk a f

theorem map (h : Fixed d) (g : α → β) : Fixed (g <$> d) := fun f => (h f).map fun _ => rfl

theorem mapError (h : Fixed d) (g : ε → ε') : Fixed (d.mapError g) :=
  fun f => (h f).mapError fun _ => rfl

theorem ite {P : Prop} [Decidable P] {d' : Decoder ε α} (h : P → Fixed d) (h' : ¬P → Fixed d') :
    Fixed (if P then d else d') := fun f => .ite (h · f) (h' · f)

end Fixed

theorem fixed_byte : Fixed byte := by
  intro f
  constructor
  · intro p s a c hf hd
    cases s with
    | nil => cases hd
    | cons b s =>
      cases hd
      exact ⟨⟨Nat.le_succ p, Nat.succ_add_eq_add_succ p s.length⟩, by simp [byte, hf 1]⟩
  · intro p s e c _ hd
    cases s with
    | nil =>
      cases hd
      exact ⟨_, rfl⟩
    | cons b s => cases hd

theorem fixed_take (n : Nat) : Fixed (take n) := by
  induction n with
  | zero => exact .pure _
  | succ n ih => exact fixed_byte.bind fun b => ih.bind fun t => .pure _

theorem fixed_takeUpTo (n : Nat) : Fixed (takeUpTo n : Decoder ε Bytes) := by
  refine fun f => ⟨fun hf hd => ?_, fun _ hd => nomatch hd⟩
  cases hd
  rename_i p s
  have htaken := hf (min n s.length) (Nat.min_le_right ..)
  refine ⟨⟨Nat.le_add_right _ _, ?_⟩, by simp [takeUpTo, Cursor.skip, htaken]⟩
  simp only [Cursor.skip, List.length_take, List.length_drop]
  omega

theorem fixed_takeAll : Fixed (takeAll : Decoder ε Bytes) := by
  refine fun f => ⟨fun hf hd => ?_, fun _ hd => nomatch hd⟩
  cases hd
  exact ⟨⟨Nat.le_add_right _ _, rfl⟩, by simp [takeAll, hf _ (Nat.le_refl _)]⟩

end Decoder

open Decoder (Fixed Follows fixed_byte fixed_take fixed_takeUpTo fixed_takeAll)

theorem MarkerTable.fixed_decode {α : Type} (t : MarkerTable α) : Fixed t.decode := by
  refine (fixed_byte.mapError _).bind fun marker => ?_
  cases t.find? marker with
  | none => exact .throw _
  | some value => exact .pure value

namespace Leb128

theorem fixed_readGroups {ε α : Type} {endOfInput tooLong misfit : ε}
    {unfit : (groups width : Nat) → UInt8 → Bool} {last : UInt8 → α} {more : UInt8 → α → α}
    (groups : Nat) : ∀ width,
    Fixed (readGroups endOfInput tooLong misfit unfit last more groups width) := by
  induction groups with
  | zero => exact fun _ => .throw _
  | succ groups ih =>
    intro width
    exact (fixed_byte.mapError _).bind fun b => .ite
      (fun _ => .ite (fun _ => .throw _) fun _ => .pure _)
      fun _ => (ih (width - 7)).bind fun n => .pure _

theorem fixed_unsigned (bits : Nat) : Fixed (unsigned bits) := by
  rw [unsigned, unsignedGroups_eq_readGroups]
  exact fixed_readGroups _ bits

theorem fixed_signed (bits : Nat) : Fixed (signed bits) := by
  rw [signed, signedGroups_eq_readGroups]
  exact fixed_readGroups _ bits

theorem fixed_u32 : Fixed u32 := Fixed.map (fixed_unsigned 32) _

theorem fixed_u64 : Fixed u64 := Fixed.map (fixed_unsigned 64) _

theorem fixed_i32 : Fixed i32 := Fixed.map (fixed_signed 32) _

theorem fixed_i64 : Fixed i64 := Fixed.map (fixed_signed 64) _

end Leb128

open Leb128 (fixed_u32 fixed_u64 fixed_i32 fixed_i64)

/-! ## Vectors -/

def VectorError.map {ε ε' : Type} (g : ε → ε') : VectorError ε → VectorError ε'
  | length cause => length cause
  | element position cause => element position (g cause)

namespace Decoder

variable {ε α : Type} {d d' : Decoder ε α}

theorem Follows.elements {f : Nat → Nat} {onError : ε → ε} {onValue : α → α}
    (h : Follows f onError onValue d d') (count : Nat) : ∀ position,
    Follows f (VectorError.map onError) (List.map onValue) (elements d position count)
      (elements d' position count) := by
  induction count with
  | zero => exact fun _ => .pure rfl
  | succ count ih =>
    intro position
    refine Follows.bind (h.mapError fun _ => rfl) fun a => ?_
    exact (ih (position + 1)).bind fun as => .pure rfl

theorem Follows.vector {f : Nat → Nat} {onError : ε → ε} {onValue : α → α}
    (h : Follows f onError onValue d d') :
    Follows f (VectorError.map onError) (List.map onValue) (vector d) (vector d') := by
  refine Follows.bind ((fixed_u32 f).mapError fun _ => rfl) fun n => ?_
  exact h.elements n.toNat 0

theorem Fixed.vector (h : Fixed d) : Fixed (vector d) := by
  intro f
  have hid : VectorError.map (id : ε → ε) = id := by
    funext e
    cases e <;> rfl
  have hvector := (h f).vector
  rwa [hid, List.map_id_fun] at hvector

theorem fixed_byteVector : Fixed byteVector :=
  (fixed_u32.mapError _).bind fun n => (fixed_takeUpTo n.toNat).bind fun _ =>
    .ite (fun _ => .pure _) fun _ => .throw _

theorem fixed_name : Fixed name := by
  refine (fixed_byteVector.mapError _).bind fun bytes => ?_
  cases Text.Utf8.decode bytes with
  | ok text => exact .pure text
  | error invalid => exact .throw _

end Decoder

open Decoder (fixed_name fixed_byteVector)

/-! ## Types, imports and exports -/

theorem IndexSpace.fixed_decode (space : IndexSpace) : Fixed space.decode := fixed_u32.mapError _

theorem FuncType.fixed_decode : Fixed FuncType.decode := by
  refine (fixed_byte.mapError _).bind fun form => .ite (fun _ => ?_) fun _ => .throw _
  refine ((Fixed.vector (MarkerTable.fixed_decode _)).mapError _).bind fun parameters => ?_
  exact ((Fixed.vector (MarkerTable.fixed_decode _)).mapError _).bind fun _ => .pure _

theorem Limits.fixed_bound (index64 : Bool) : Fixed (Limits.bound index64) :=
  .ite (fun _ => fixed_u64) fun _ => fixed_u32.map _

theorem Limits.fixed_decode : Fixed Limits.decode := by
  refine (fixed_byte.mapError _).bind fun flags => .ite (fun _ => ?_) fun _ => .throw _
  refine ((fixed_bound _).mapError _).bind fun min => .ite (fun _ => ?_) fun _ => ?_
  · exact (((fixed_bound _).mapError _).map _).bind fun _ => .pure _
  · exact (Fixed.pure _).bind fun _ => .pure _

theorem TableType.fixed_decode : Fixed TableType.decode :=
  ((MarkerTable.fixed_decode _).mapError _).bind fun _ =>
    (Limits.fixed_decode.mapError _).bind fun _ => .pure _

theorem Limits.fixed_decodeMemory : Fixed Limits.decodeMemory := Limits.fixed_decode.mapError _

theorem GlobalType.fixed_decode : Fixed GlobalType.decode :=
  ((MarkerTable.fixed_decode _).mapError _).bind fun _ =>
    ((MarkerTable.fixed_decode _).mapError _).bind fun _ => .pure _

theorem ImportItem.fixed_decode (kind : ExternalKind) : Fixed (ImportItem.decode kind) := by
  cases kind with
  | func => exact ((IndexSpace.fixed_decode _).mapError _).bind fun _ => .pure _
  | table => exact (TableType.fixed_decode.mapError _).bind fun _ => .pure _
  | memory => exact (Limits.fixed_decodeMemory.mapError _).bind fun _ => .pure _
  | global => exact (GlobalType.fixed_decode.mapError _).bind fun _ => .pure _
  | tag =>
    refine (fixed_byte.mapError _).bind fun kind => .ite (fun _ => ?_) fun _ => .throw _
    exact ((IndexSpace.fixed_decode _).mapError _).bind fun _ => .pure _

theorem Import.fixed_decode : Fixed Import.decode := by
  refine (fixed_name.mapError _).bind fun module => (fixed_name.mapError _).bind fun name => ?_
  refine ((MarkerTable.fixed_decode _).mapError _).bind fun kind => ?_
  exact (ImportItem.fixed_decode kind).bind fun _ => .pure _

theorem Export.fixed_decode : Fixed Export.decode :=
  (fixed_name.mapError _).bind fun _ => ((MarkerTable.fixed_decode _).mapError _).bind
    fun _ => (fixed_u32.mapError _).bind fun _ => .pure _

/-! ## Instructions -/

theorem MemArg.fixed_decode : Fixed MemArg.decode :=
  fixed_u32.bind fun _ => fixed_u32.bind fun _ => .pure _

theorem Immediate.fixed_decode (shape : Shape) : Fixed (Immediate.decode shape) := by
  have hunsigned : Fixed Immediate.unsigned := fixed_u32.mapError _
  have hbyte : Fixed Immediate.rawByte := fixed_byte.mapError _
  have hbytes (n : Nat) : Fixed (Immediate.rawBytes n) := (fixed_take n).mapError _
  have haccess : Fixed Immediate.access := MemArg.fixed_decode.mapError _
  cases shape with
  | none | block => exact .pure _
  | index => exact hunsigned.bind fun _ => .pure _
  | indexPair => exact hunsigned.bind fun _ => hunsigned.bind fun _ => .pure _
  | branchTable =>
    exact (fixed_u32.vector.mapError _).bind fun _ => hunsigned.bind fun _ => .pure _
  | i32 => exact (fixed_i32.mapError _).bind fun _ => .pure _
  | i64 => exact (fixed_i64.mapError _).bind fun _ => .pure _
  | f32 => exact (hbytes 4).bind fun _ => .pure _
  | f64 => exact (hbytes 8).bind fun _ => .pure _
  | memArg => exact haccess.bind fun _ => .pure _
  | memArgLane => exact haccess.bind fun _ => hbyte.bind fun _ => .pure _
  | lane => exact hbyte.bind fun _ => .pure _
  | v128 => exact (hbytes 16).bind fun _ => .pure _
  | selectTyped =>
    exact ((MarkerTable.fixed_decode _).vector.mapError _).bind fun _ => .pure _
  | refNull => exact ((MarkerTable.fixed_decode _).mapError _).bind fun _ => .pure _
  | reserved => exact hbyte.bind fun _ => .pure _

theorem BlockType.fixed_decodeIndex : Fixed decodeIndex :=
  ((Leb128.fixed_signed 33).mapError _).bind fun _ => .ite (fun _ => .pure _) fun _ => .throw _

theorem BlockType.fixed_decode : Fixed BlockType.decode := by
  intro f
  constructor
  · intro p s t c hf hd
    cases s with
    | nil => cases hd
    | cons b s =>
      rw [decode_cons] at hd ⊢
      by_cases hb : b = emptyByte
      · rw [if_pos hb] at hd ⊢
        cases hd
        exact ⟨⟨Nat.le_succ p, Nat.succ_add_eq_add_succ p s.length⟩, by simp [hf 1]⟩
      · rw [if_neg hb] at hd ⊢
        cases hfind : ValueType.markers.find? b with
        | some type =>
          rw [hfind] at hd
          cases hd
          exact ⟨⟨Nat.le_succ p, Nat.succ_add_eq_add_succ p s.length⟩, by simp [hf 1]⟩
        | none =>
          rw [hfind] at hd
          exact (fixed_decodeIndex f).ok hf hd
  · intro p s e c hf hd
    cases s with
    | nil =>
      cases hd
      exact ⟨_, rfl⟩
    | cons b s =>
      rw [decode_cons] at hd ⊢
      by_cases hb : b = emptyByte
      · rw [if_pos hb] at hd
        cases hd
      · rw [if_neg hb] at hd ⊢
        cases hfind : ValueType.markers.find? b with
        | some type =>
          rw [hfind] at hd
          cases hd
        | none =>
          rw [hfind] at hd
          exact (fixed_decodeIndex f).error hf hd

def InstructionError.mapOffsets (f : Nat → Nat) : InstructionError → InstructionError
  | immediates opcode offset cause => immediates opcode (f offset) cause
  | e => e

def ExprError.mapOffsets (f : Nat → Nat) : ExprError → ExprError
  | instruction cause => instruction (cause.mapOffsets f)
  | e => e

namespace Instruction

theorem Head.follows_decode (f : Nat → Nat) :
    Follows f (InstructionError.mapOffsets f) id Head.decode Head.decode := by
  have hcode (b : UInt8) : Follows f (InstructionError.mapOffsets f) id
      (Leb128.u32.mapError (.code b)) (Leb128.u32.mapError (.code b)) :=
    (fixed_u32 f).mapError fun _ => rfl
  refine Follows.bind ((fixed_byte f).mapError fun _ => rfl) fun b => .ite (fun _ => .pure rfl)
    fun _ => .ite (fun _ => .pure rfl) fun _ => .ite (fun _ => ?_) fun _ => ?_
  · exact Follows.bind ((fixed_u32 f).mapError fun _ => rfl) fun label => .pure rfl
  · simp only [id_eq]
    cases Opcode.Space.ofPrefixByte? b with
    | none =>
      cases Opcode.ofCode? .core b.toNat with
      | none => exact .throw rfl
      | some o => exact .pure rfl
    | some space =>
      refine Follows.bind (hcode b) fun code => ?_
      simp only [id_eq]
      cases Opcode.ofCode? space code.toNat with
      | none => exact .throw rfl
      | some o => exact .pure rfl

section

variable {f : Nat → Nat} {nested : Decoder InstructionError (Expr × Terminator)}

/-- Sequences read with their terminator follow a move. -/
abbrev FollowsNested (f : Nat → Nat) (nested : Decoder InstructionError (Expr × Terminator)) :
    Prop :=
  Follows f (InstructionError.mapOffsets f) (fun r => (r.1.mapOffsets f, r.2)) nested nested

theorem follows_decodeBlock (h : FollowsNested f nested) (o : Opcode) (offset : Nat) :
    Follows f (InstructionError.mapOffsets f) (mapOffsets f) (decodeBlock nested o offset)
      (decodeBlock nested o (f offset)) := by
  refine Follows.bind ((BlockType.fixed_decode f).mapError fun _ => rfl) fun t => ?_
  refine Follows.bind h fun ⟨body, closing⟩ => ?_
  cases closing with
  | finish => exact .pure rfl
  | orElse =>
    refine .ite (fun _ => ?_) fun _ => .throw rfl
    refine Follows.bind h fun ⟨alternative, closing⟩ => ?_
    cases closing with
    | finish => exact .pure rfl
    | orElse => exact .throw rfl
    | delegate label => exact .throw rfl
  | delegate label => exact .ite (fun _ => .pure rfl) fun _ => .throw rfl

theorem follows_decodeRest (h : FollowsNested f nested) (o : Opcode) (offset : Nat) :
    Follows f (InstructionError.mapOffsets f) (mapOffsets f) (decodeRest nested o offset)
      (decodeRest nested o (f offset)) :=
  .ite (fun _ => follows_decodeBlock h o offset) fun _ =>
    .map (.mapError (Immediate.fixed_decode o.shape f) fun _ => rfl) fun _ => rfl

end

theorem follows_sequence (f : Nat → Nat) (bound : Nat) : FollowsNested f (sequence bound) := by
  induction bound with
  | zero => exact .throw rfl
  | succ bound ih =>
    refine Follows.bind .position fun offset => ?_
    refine Follows.bind (Head.follows_decode f) fun head => ?_
    cases head with
    | terminator closing => exact .pure rfl
    | opcode o =>
      refine Follows.bind (follows_decodeRest ih o offset) fun first => ?_
      exact Follows.bind ih fun rest => .pure rfl

end Instruction

theorem Expr.follows_decode (f : Nat → Nat) :
    Follows f (ExprError.mapOffsets f) (Expr.mapOffsets f) Expr.decode Expr.decode := by
  constructor
  · intro p s e c hf hd
    have hsequence := Instruction.follows_sequence f (s.length + 1)
    simp only [decode] at hd ⊢
    split at hd
    case h_2 heq =>
      cases hd
      obtain ⟨hle, hread⟩ := hsequence.ok hf heq
      exact ⟨hle, by simp [hread]⟩
    all_goals cases hd
  · intro p s e c hf hd
    have hsequence := Instruction.follows_sequence f (s.length + 1)
    simp only [decode] at hd ⊢
    split at hd
    case h_1 heq =>
      cases hd
      obtain ⟨c', hread⟩ := hsequence.error hf heq
      exact ⟨c', by simp [hread, ExprError.mapOffsets]⟩
    case h_2 => cases hd
    all_goals
      rename_i heq
      cases hd
      obtain ⟨-, hread⟩ := hsequence.ok hf heq
      exact ⟨_, by simp only [hread]; rfl⟩

/-! ## Globals and segments -/

def GlobalError.mapOffsets (f : Nat → Nat) : GlobalError → GlobalError
  | type cause => type cause
  | init cause => init (cause.mapOffsets f)

theorem Global.follows_decode (f : Nat → Nat) :
    Follows f (GlobalError.mapOffsets f) (Global.mapOffsets f) Global.decode Global.decode := by
  refine Follows.bind ((GlobalType.fixed_decode f).mapError fun _ => rfl) fun type => ?_
  exact Follows.bind ((Expr.follows_decode f).mapError fun _ => rfl) fun init => .pure rfl

def ElementError.mapOffsets (f : Nat → Nat) : ElementError → ElementError
  | offset cause => offset (cause.mapOffsets f)
  | expressions cause => expressions (cause.map (ExprError.mapOffsets f))
  | e => e

namespace Element

theorem follows_decodeMode (f : Nat → Nat) (flags : UInt32) :
    Follows f (ElementError.mapOffsets f) (ElementMode.mapOffsets f) (decodeMode flags)
      (decodeMode flags) := by
  have htable : Follows f (ElementError.mapOffsets f) id
      (IndexSpace.table.decode.mapError ElementError.table)
      (IndexSpace.table.decode.mapError ElementError.table) :=
    (IndexSpace.fixed_decode .table f).mapError fun _ => rfl
  have hoffset : Follows f (ElementError.mapOffsets f) (Expr.mapOffsets f)
      (Expr.decode.mapError ElementError.offset) (Expr.decode.mapError ElementError.offset) :=
    (Expr.follows_decode f).mapError fun _ => rfl
  refine .ite (fun _ => .ite (fun _ => ?_) fun _ => ?_) fun _ =>
    .ite (fun _ => .pure rfl) fun _ => .pure rfl
  · exact Follows.bind htable fun table => Follows.bind hoffset fun offset => .pure rfl
  · refine Follows.bind (.pure (id_eq 0)) fun table => ?_
    exact Follows.bind hoffset fun offset => .pure rfl

theorem fixed_decodeKind : Fixed decodeKind :=
  (fixed_byte.mapError _).bind fun _ => .ite (fun _ => .pure _) fun _ => .throw _

theorem follows_decodeType (f : Nat → Nat) (flags : UInt32) :
    Follows f (ElementError.mapOffsets f) id (decodeType flags) (decodeType flags) :=
  .ite (fun _ => .pure rfl) fun _ => .ite
    (fun _ => (MarkerTable.fixed_decode _ f).mapError fun _ => rfl)
    fun _ => (fixed_decodeKind f).mapError fun _ => rfl

theorem follows_decodeItems (f : Nat → Nat) (flags : UInt32) :
    Follows f (ElementError.mapOffsets f) (ElementItems.mapOffsets f) (decodeItems flags)
      (decodeItems flags) :=
  .ite (fun _ => .map ((Expr.follows_decode f).vector.mapError fun _ => rfl) fun _ => rfl)
    fun _ => .map (((IndexSpace.fixed_decode .func).vector f).mapError fun _ => rfl)
      fun _ => rfl

theorem follows_decode (f : Nat → Nat) :
    Follows f (ElementError.mapOffsets f) (Element.mapOffsets f) Element.decode
      Element.decode := by
  refine Follows.bind ((fixed_u32 f).mapError fun _ => rfl) fun flags => ?_
  refine .ite (fun _ => ?_) fun _ => ?_
  · exact .throw_bind rfl
  · refine Follows.bind (follows_decodeMode f flags) fun mode => ?_
    refine Follows.bind (follows_decodeType f flags) fun type => ?_
    exact Follows.bind (follows_decodeItems f flags) fun items => .pure rfl

end Element

def DataError.mapOffsets (f : Nat → Nat) : DataError → DataError
  | offset cause => offset (cause.mapOffsets f)
  | e => e

theorem DataMode.follows_decode (f : Nat → Nat) :
    Follows f (DataError.mapOffsets f) (DataMode.mapOffsets f) DataMode.decode
      DataMode.decode := by
  have hoffset : Follows f (DataError.mapOffsets f) (Expr.mapOffsets f)
      (Expr.decode.mapError DataError.offset) (Expr.decode.mapError DataError.offset) :=
    (Expr.follows_decode f).mapError fun _ => rfl
  refine Follows.bind ((fixed_u32 f).mapError fun _ => rfl) fun tag => ?_
  refine .ite (fun _ => ?_) fun _ => .ite (fun _ => .pure rfl) fun _ => .ite (fun _ => ?_)
    fun _ => .throw rfl
  · exact Follows.bind hoffset fun offset => .pure rfl
  · refine Follows.bind ((IndexSpace.fixed_decode .memory f).mapError fun _ => rfl) fun memory => ?_
    exact Follows.bind hoffset fun offset => .pure rfl

theorem DataSegment.follows_decode (f : Nat → Nat) :
    Follows f (DataError.mapOffsets f) (DataSegment.mapOffsets f) DataSegment.decode
      DataSegment.decode := by
  refine Follows.bind (DataMode.follows_decode f) fun mode => ?_
  exact Follows.bind ((fixed_byteVector f).mapError fun _ => rfl) fun init => .pure rfl

/-! ## Code -/

def CodeError.mapOffset (f : Nat → Nat) : CodeError → CodeError
  | .size cause => .size cause
  | .outOfBounds offset declared => .outOfBounds (f offset) declared

namespace Code

theorem follows_decodePlace (f : Nat → Nat) :
    Follows f (CodeError.mapOffset f) (fun place => (f place.1, place.2)) decodePlace
      decodePlace := by
  refine Follows.bind ((fixed_u32 f).mapError fun _ => rfl) fun size => ?_
  refine Follows.bind .position fun offset => ?_
  have hbytes : Follows f (CodeError.mapOffset f) id (Decoder.takeUpTo size.toNat)
      (Decoder.takeUpTo size.toNat) := ⟨(fixed_takeUpTo _ f).ok, fun _ h => nomatch h⟩
  refine Follows.bind hbytes fun bytes => ?_
  refine .ite (fun _ => ?_) fun _ => .pure rfl
  exact .throw_bind rfl

theorem follows_decodeAll (f : Nat → Nat) :
    Follows f (VectorError.map (CodeError.mapOffset f)) (List.map (Code.mapOffset f)) decodeAll
      decodeAll := by
  refine Follows.bind (follows_decodePlace f).vector fun places => .pure ?_
  refine List.ext_getElem? fun i => ?_
  simp only [List.getElem?_map, List.getElem?_mapIdx, Option.map_map]
  rfl

end Code

end WasmBinary
