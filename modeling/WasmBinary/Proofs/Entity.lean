import WasmBinary.Module.EntityDecode
import WasmBinary.Proofs.Expression

/-!
# The binary grammar of globals and data segments

* `Global.Form`, `DataSegment.Form`: which byte strings stand for which entities.
* `Global.recognizes_decode`, `DataSegment.recognizes_decode`: the readers accept exactly these.
-/
namespace WasmBinary

open Decoder (Recognizes recognizes_byteVector)
open Leb128 (U32Form recognizes_u32)

theorem IndexSpace.recognizes_decode (space : IndexSpace) :
    space.decode.Recognizes (.fixed U32Form) := recognizes_u32.mapError _

/-! ## Globals -/

/-- The value type and then the mutability. -/
def GlobalType.Form (bs : Bytes) (t : GlobalType) : Prop :=
  ∃ bs₁ bs₂, bs = bs₁ ++ bs₂ ∧ ValueType.markers.Form bs₁ t.value ∧
    Mutability.markers.Form bs₂ t.mutability

/-- The type and then the initializer. -/
def Global.Form (p : Nat) (bs : Bytes) (g : Global) : Prop :=
  ∃ bs₁ bs₂, bs = bs₁ ++ bs₂ ∧ GlobalType.Form bs₁ g.type ∧ Expr.Form (p + bs₁.length) bs₂ g.init

theorem GlobalType.recognizes_decode : GlobalType.decode.Recognizes (.fixed GlobalType.Form) := by
  refine Recognizes.congr (((MarkerTable.recognizes_decode _).mapError _).bind fun value =>
    ((MarkerTable.recognizes_decode _).mapError _).bind fun mutability => .pure _)
    fun p bs t => ⟨?_, ?_⟩
  · intro h
    obtain ⟨bs₁, _, value, rfl, hvalue, bs₂, _, mutability, rfl, hmutability, rfl, rfl⟩ := h
    exact ⟨bs₁, bs₂, by simp, hvalue, hmutability⟩
  · intro h
    obtain ⟨bs₁, bs₂, rfl, hvalue, hmutability⟩ := h
    exact ⟨bs₁, bs₂, t.value, rfl, hvalue, bs₂, [], t.mutability, by simp, hmutability, rfl, rfl⟩

theorem Global.recognizes_decode : Global.decode.Recognizes Global.Form := by
  refine Recognizes.congr ((GlobalType.recognizes_decode.mapError _).bind fun type =>
    (Expr.recognizes_decode.mapError _).bind fun init => .pure _) fun p bs g => ⟨?_, ?_⟩
  · intro h
    obtain ⟨bs₁, _, type, rfl, htype, bs₂, _, init, rfl, hinit, rfl, rfl⟩ := h
    exact ⟨bs₁, bs₂, by simp, htype, hinit⟩
  · intro h
    obtain ⟨bs₁, bs₂, rfl, htype, hinit⟩ := h
    exact ⟨bs₁, bs₂, g.type, rfl, htype, bs₂, [], g.init, by simp, hinit, rfl, rfl⟩

/-- The instructions of the initializer, nested ones included. -/
def Global.instructions (g : Global) : List Instruction := Instruction.walkAll g.init

theorem Global.Form.foundIn {p : Nat} {bs : Bytes} {g : Global} (h : Global.Form p bs g) :
    ∀ i ∈ g.instructions, Instruction.FoundIn p bs i := by
  obtain ⟨bs₁, bs₂, rfl, -, hinit⟩ := h
  intro i hi
  exact (hinit.foundIn i hi).append_left bs₁

/-! ## Data segments -/

/-- The number of the mode, the memory if it is given, and the offset. -/
inductive DataMode.Form : Nat → Bytes → DataMode → Prop
  | active {p : Nat} {tag bs : Bytes} {offset : Expr} (htag : U32Form tag 0)
      (hoffset : Expr.Form (p + tag.length) bs offset) : Form p (tag ++ bs) (.active offset)
  | passive {p : Nat} {tag : Bytes} (htag : U32Form tag 1) : Form p tag .passive
  | activeIn {p : Nat} {tag bs bs' : Bytes} {memory : Index} {offset : Expr}
      (htag : U32Form tag 2) (hmemory : U32Form bs memory)
      (hoffset : Expr.Form (p + tag.length + bs.length) bs' offset) :
      Form p (tag ++ (bs ++ bs')) (.activeIn memory offset)

/-- The mode and then the content. -/
def DataSegment.Form (p : Nat) (bs : Bytes) (d : DataSegment) : Prop :=
  ∃ bs₁ bs₂, bs = bs₁ ++ bs₂ ∧ DataMode.Form p bs₁ d.mode ∧ Format.ByteVector bs₂ d.init

/-- What follows the number of a mode. -/
theorem DataMode.recognizes_rest (tag : UInt32) : Recognizes
    (if tag = 0 then do return .active (← Expr.decode.mapError .offset)
      else if tag = 1 then return .passive
      else if tag = 2 then do
        let memory ← IndexSpace.memory.decode.mapError .memory
        return .activeIn memory (← Expr.decode.mapError .offset)
      else throw (.unknownTag tag) : Decoder DataError DataMode)
    fun p bs mode => (tag = 0 ∧ ∃ offset, mode = .active offset ∧ Expr.Form p bs offset) ∨
      (tag = 1 ∧ bs = [] ∧ mode = .passive) ∨
      (tag = 2 ∧ ∃ bs₁ bs₂ memory offset, bs = bs₁ ++ bs₂ ∧ mode = .activeIn memory offset ∧
        U32Form bs₁ memory ∧ Expr.Form (p + bs₁.length) bs₂ offset) := by
  have hoffset {α : Type} (f : Expr → α) : Recognizes
      (do return f (← Expr.decode.mapError DataError.offset)) fun p bs a =>
      ∃ offset, Expr.Form p bs offset ∧ a = f offset :=
    (Expr.recognizes_decode.mapError _).map f
  refine Recognizes.congr (.ite (fun _ => hoffset DataMode.active) fun _ => .ite (fun _ => .pure _) fun _ =>
    .ite (fun _ => ((IndexSpace.recognizes_decode _).mapError _).bind fun memory =>
      hoffset (DataMode.activeIn memory)) fun _ => .throw _) fun p bs mode => ⟨?_, ?_⟩
  · intro h
    rcases h with ⟨htag, offset, hform, rfl⟩ | ⟨-, ⟨htag, rfl, rfl⟩ | ⟨-, ⟨htag, bs₁, bs₂, memory, rfl,
      hmemory, offset, hform, rfl⟩ | ⟨-, hf⟩⟩⟩
    · exact .inl ⟨htag, offset, rfl, hform⟩
    · exact .inr (.inl ⟨htag, rfl, rfl⟩)
    · exact .inr (.inr ⟨htag, bs₁, bs₂, memory, offset, rfl, rfl, hmemory, hform⟩)
    · exact hf.elim
  · intro h
    rcases h with ⟨rfl, offset, rfl, hform⟩ | ⟨rfl, rfl, rfl⟩ | ⟨rfl, bs₁, bs₂, memory, offset, rfl, rfl,
      hmemory, hform⟩
    · exact .inl ⟨rfl, offset, hform, rfl⟩
    · exact .inr ⟨by decide, .inl ⟨rfl, rfl, rfl⟩⟩
    · exact .inr ⟨by decide, .inr ⟨by decide, .inl ⟨rfl, bs₁, bs₂, memory, rfl, hmemory, offset,
        hform, rfl⟩⟩⟩

theorem DataMode.recognizes_decode : DataMode.decode.Recognizes DataMode.Form := by
  refine Recognizes.congr ((recognizes_u32.mapError _).bind recognizes_rest) fun p bs mode => ⟨?_, ?_⟩
  · intro h
    rcases h with ⟨tag, bs, n, rfl, htag, ⟨rfl, offset, rfl, hoffset⟩ | ⟨rfl, rfl, rfl⟩ |
      ⟨rfl, bs₁, bs₂, memory, offset, rfl, rfl, hmemory, hoffset⟩⟩
    · exact .active htag hoffset
    · rw [List.append_nil]
      exact .passive htag
    · exact .activeIn htag hmemory hoffset
  · intro hform
    cases hform with
    | @active tag bs offset htag hoffset =>
      exact ⟨tag, bs, 0, rfl, htag, .inl ⟨rfl, offset, rfl, hoffset⟩⟩
    | passive htag => exact ⟨bs, [], 1, by simp, htag, .inr (.inl ⟨rfl, rfl, rfl⟩)⟩
    | @activeIn tag bs bs' memory offset htag hmemory hoffset =>
      exact ⟨tag, bs ++ bs', 2, rfl, htag, .inr (.inr ⟨rfl, bs, bs', memory, offset, rfl, rfl,
        hmemory, hoffset⟩)⟩

theorem DataSegment.recognizes_decode : DataSegment.decode.Recognizes DataSegment.Form := by
  refine Recognizes.congr (DataMode.recognizes_decode.bind fun mode =>
    (recognizes_byteVector.mapError _).bind fun init => .pure _) fun p bs d => ⟨?_, ?_⟩
  · intro h
    obtain ⟨bs₁, _, mode, rfl, hmode, bs₂, _, init, rfl, hinit, rfl, rfl⟩ := h
    exact ⟨bs₁, bs₂, by simp, hmode, hinit⟩
  · intro h
    obtain ⟨bs₁, bs₂, rfl, hmode, hinit⟩ := h
    exact ⟨bs₁, bs₂, d.mode, rfl, hmode, bs₂, [], d.init, by simp, hinit, rfl, rfl⟩

/-- The instructions of the offset expression, nested ones included. -/
def DataSegment.instructions (d : DataSegment) : List Instruction :=
  match d.mode.offset? with
  | some offset => Instruction.walkAll offset
  | none => []

theorem DataSegment.Form.foundIn {p : Nat} {bs : Bytes} {d : DataSegment}
    (h : DataSegment.Form p bs d) : ∀ i ∈ d.instructions, Instruction.FoundIn p bs i := by
  obtain ⟨mode, init⟩ := d
  obtain ⟨bs₁, bs₂, rfl, hmode, -⟩ := h
  intro i hi
  cases hmode with
  | active _ hoffset => exact ((hoffset.foundIn i hi).append_left _).append_right _
  | passive _ => cases hi
  | activeIn _ _ hoffset =>
    exact (((hoffset.foundIn i hi).append_left _).append_left _).append_right _

end WasmBinary
