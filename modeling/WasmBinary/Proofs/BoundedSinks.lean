import WasmBinary.DataReplacement
import WasmBinary.Template
import WasmBinary.Proofs.Replacement

/-!
# Sinks that are too small

The tools write an output in pieces of different sizes, byte by byte or whole sections at once. None of
this shows when the sink is too small for the output: the sink then holds its first bytes, as many as fit,
and the tool fails with the error of a full sink.

* `Writer.Regular`: what a writer does on a sink of any size is what it does with enough room, cut off.
* `Module.run_cutOff`: both tools are regular.
-/
namespace WasmBinary

namespace Writer

variable {ε ε' α β : Type}

/-- What comes of an outcome on a sink that takes `capacity` bytes. -/
def cutOff (full : ε) (capacity : Nat) (outcome : Except ε α × Bytes) : Except ε α × Bytes :=
  if outcome.2.length ≤ capacity then outcome else (.error full, outcome.2.take capacity)

/-- Some bytes and some result are all that there is to say about the writer. -/
def Regular (full : ε) (w : Writer ε α) : Prop := ∃ bs r, Writes full w bs r

namespace Regular

variable {full : ε} {w : Writer ε α}

theorem run_some (h : Regular full w) (capacity : Nat) :
    w.run (some capacity) = cutOff full capacity (w.run none) := by
  obtain ⟨bs, r, hwrites⟩ := h
  rw [hwrites.run_some, hwrites.run_none, cutOff]

theorem throw (e : ε) : Regular full (throw e : Writer ε α) := ⟨[], _, .throw e⟩

theorem ofExcept (r : Except ε α) : Regular full (ofExcept r) := ⟨[], r, .ofExcept r⟩

/-- What follows may depend on the result, which is the same on every sink. -/
theorem bind {k : α → Writer ε β} (h : Regular full w) (hk : ∀ a, Regular full (k a)) :
    Regular full (w >>= k) := by
  obtain ⟨bs, r, hw⟩ := h
  cases r with
  | error e => exact ⟨bs, _, hw.bindError k⟩
  | ok a =>
    obtain ⟨bs', r', hwrites⟩ := hk a
    exact ⟨bs ++ bs', r', hw.bind hwrites⟩

theorem mapError (h : Regular full w) (f : ε → ε') : Regular (f full) (w.mapError f) := by
  obtain ⟨bs, r, hw⟩ := h
  exact ⟨bs, _, hw.mapError f⟩

end Regular

end Writer

open Writer (Regular cutOff)

theorem Encoder.regular_module (m : Module) (r : Replacements) :
    Regular .sinkFull (Encoder.module m r) := ⟨_, _, writes_module m r⟩

namespace DataReplacement

variable {m : Module}

theorem write_of_missing (h : m.hasSection .data = false) (o : DataReplacement) (blob : Bytes) :
    o.write m blob = throw .missingSection := by
  simp only [write, h, Bool.not_false, if_true]
  rfl

theorem write_of_hasSection (h : m.hasSection .data = true) (o : DataReplacement) (blob : Bytes) :
    o.write m blob = (do
      let datas ← Writer.ofExcept (o.segments blob)
      let count ← (Writer.ofExcept (checkedLength datas.length)).mapError .encode
      (Encoder.module m { datas := some datas, dataCount := some count }).mapError .encode) := by
  simp only [write, h, Bool.not_true, Bool.false_eq_true, if_false]

theorem regular_write (o : DataReplacement) (m : Module) (blob : Bytes) :
    Regular (.encode .sinkFull) (o.write m blob) := by
  cases hdata : m.hasSection .data with
  | false =>
    rw [write_of_missing hdata]
    exact .throw _
  | true =>
    rw [write_of_hasSection hdata]
    refine .bind (.ofExcept _) fun segments => ?_
    refine .bind (Regular.mapError (.ofExcept _) DataReplacementError.encode) fun count => ?_
    exact (Encoder.regular_module m _).mapError _

end DataReplacement

theorem Template.regular_embed (m : Module) (image : Image) :
    Regular (.encode .sinkFull) (embed m image) := by
  refine .bind (.ofExcept _) fun t => .bind (.ofExcept _) fun replaced => ?_
  exact (Encoder.regular_module m _).mapError _

/-- On a sink that takes `capacity` bytes either tool does what it does on one that takes any number, or
writes the first `capacity` bytes of that and fails because the sink is full. -/
theorem Module.run_cutOff (m : Module) (capacity : Nat) :
    (∀ (o : DataReplacement) (blob : Bytes), (o.write m blob).run (some capacity) =
      cutOff (.encode .sinkFull) capacity ((o.write m blob).run none)) ∧
    ∀ image : Image, (Template.embed m image).run (some capacity) =
      cutOff (.encode .sinkFull) capacity ((Template.embed m image).run none) :=
  ⟨fun o blob => (o.regular_write m blob).run_some capacity,
    fun image => (Template.regular_embed m image).run_some capacity⟩

/-- The output is fourteen bytes long. A sink that takes ten of them is full behind the size of the Data section. -/
theorem Module.run_cutOff_tenBytes :
    let m : Module := { source := [], version := 1, sections := [⟨.data, 3, 8, 10⟩] }
    let o : DataReplacement := { passive := true }
    (o.write m [7]).run none =
        (.ok (), [0x00, 0x61, 0x73, 0x6D, 1, 0, 0, 0, 11, 4, 1, 1, 1, 7]) ∧
      (o.write m [7]).run (some 14) = (o.write m [7]).run none ∧
      (o.write m [7]).run (some 10) =
        (.error (.encode .sinkFull), [0x00, 0x61, 0x73, 0x6D, 1, 0, 0, 0, 11, 4]) := by
  intro m o
  have hrun : (o.write m [7]).run none =
      (.ok (), [0x00, 0x61, 0x73, 0x6D, 1, 0, 0, 0, 11, 4, 1, 1, 1, 7]) := by
    with_unfolding_all rfl
  refine ⟨hrun, ?_, ?_⟩
  · rw [(run_cutOff m 14).1, hrun]
    rfl
  · rw [(run_cutOff m 10).1, hrun]
    rfl

end WasmBinary
