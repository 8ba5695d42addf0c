import WasmBinary.Proofs.DataReplacement
import WasmBinary.Proofs.Template
import WasmBinary.Proofs.Pairing

/-!
# Functions of modules that are written again

Replacing the data of a module and embedding an image move its code, if a section in front of it
becomes longer or shorter. The functions stay what they were: they have the same listings, and comparing
them finds them equal.

* `Module.Output`: what either tool writes.
* `Module.functions_of_output`: the listings and the comparison.
-/
namespace WasmBinary

namespace Module

/-- The bytes that are written for a module with its data replaced, or with an image. -/
inductive Output (m : Module) : Bytes → Prop
  | replacement {o : DataReplacement} {blob : Bytes} {capacity : Option Nat} {sink : Sink}
      (h : o.write m blob (.empty capacity) = .ok () sink) : m.Output sink.bytes
  | embedding {image : Image} {capacity : Option Nat} {sink : Sink}
      (h : Template.embed m image (.empty capacity) = .ok () sink) : m.Output sink.bytes

variable {file output : Bytes} {m : Module}

/-- Either way the module is written with some of its sections replaced. -/
theorem Output.exists_replacements (h : m.Output output) :
    ∃ r capacity sink, Encoder.module m r (.empty capacity) = .ok () sink ∧ sink.bytes = output := by
  cases h with
  | replacement h =>
    obtain ⟨-, segments, count, -, -, hmodule⟩ := (DataReplacement.write_eq_ok_iff ..).mp h
    exact ⟨_, _, _, hmodule, rfl⟩
  | embedding h =>
    obtain ⟨t, globals, datas, -, -, hmodule⟩ := (Template.embed_eq_ok_iff ..).mp h
    exact ⟨_, _, _, hmodule, rfl⟩

theorem Output.exists_decode (h : m.Output output) {readCode : Bool}
    (hm : decode readCode file = .ok m) :
    ∃ m', decode readCode output = .ok m' ∧ m.SameNames m' ∧
      m'.codes.map Code.withoutOffset = m.codes.map Code.withoutOffset := by
  obtain ⟨r, capacity, sink, hmodule, rfl⟩ := h.exists_replacements
  obtain ⟨m', hm', -, hsame⟩ := Encoder.decode_module hm hmodule
  have htypes : m'.withoutPlaces.types = _ := congrArg Module.types hsame
  have himports : m'.withoutPlaces.imports = _ := congrArg Module.imports hsame
  have hfunctions : m'.withoutPlaces.functions = _ := congrArg Module.functions hsame
  have hnames : m'.withoutPlaces.names = _ := congrArg Module.names hsame
  have hcodes : m'.withoutPlaces.codes = _ := congrArg Module.codes hsame
  exact ⟨m', hm', ⟨htypes, himports, hfunctions, hnames⟩, hcodes⟩

/-- Every function has the same text as before, or none both times. If all have one, comparing all
functions finds each of them once, and equal. -/
theorem functions_of_output (hm : decode true file = .ok m) (h : m.Output output) :
    ∃ m', decode true output = .ok m' ∧
      (∀ i, (m'.disassembly false i).toOption = (m.disassembly false i).toOption) ∧
      ((∀ i < m.functions.length, ∃ text, m.disassembly false i = .ok text) →
        ∃ order : List Nat, order.Perm (List.range m.functions.length) ∧
          m.functionDifferences m' {} = .ok (order.map fun i => ⟨m.shownName i, .equal⟩)) := by
  obtain ⟨m', hm', hnames, hcodes⟩ := h.exists_decode hm
  have htexts := disassembly_toOption hnames hcodes
  refine ⟨m', hm', htexts, fun hall => functionDifferences_of_same hnames fun i hi => ?_⟩
  obtain ⟨text, htext⟩ := hall i hi
  have hother := htexts i
  rw [htext] at hother
  refine ⟨text, htext, ?_⟩
  cases hread : m'.disassembly false i with
  | error e =>
    rw [hread] at hother
    cases hother
  | ok text' =>
    rw [hread] at hother
    cases hother
    rfl

/-- A module with two functions, the second of which calls the first, and with its code behind its
data. -/
def calls : Module where
  source := [0x00, 0x61, 0x73, 0x6D, 1, 0, 0, 0, 3, 3, 2, 0, 0, 11, 3, 1, 1, 0,
    10, 13, 2, 6, 0, 0x02, 0x40, 0x01, 0x0B, 0x0B, 4, 0, 0x10, 0, 0x0B]
  version := 1
  sections := [⟨.function, 3, 8, 10⟩, ⟨.data, 3, 13, 15⟩, ⟨.code, 13, 18, 20⟩]
  functions := [0, 0]
  datas := [⟨.passive, []⟩]
  codes := [⟨0, 22, [0, 0x02, 0x40, 0x01, 0x0B, 0x0B]⟩, ⟨1, 29, [0, 0x10, 0, 0x0B]⟩]

/-- What is written for `calls` with two bytes of data, latest first. -/
def longerData : Sink where
  chunks := [[10, 13, 2, 6, 0, 0x02, 0x40, 0x01, 0x0B, 0x0B, 4, 0, 0x10, 0, 0x0B], [7, 8], [2], [1],
    [1], [5], [11], [3, 3, 2, 0, 0], [1, 0, 0, 0], [0x00, 0x61, 0x73, 0x6D]]
  room := none

/-- The code moves by two bytes. -/
theorem functions_of_output_calls :
    decode true calls.source = .ok calls ∧ calls.Output longerData.bytes ∧
      ∃ m', decode true longerData.bytes = .ok m' ∧
        (m'.disassembly false 1).toOption = some "(func $idx:1)\n  call 0 <idx:0>\n" ∧
        ∃ order : List Nat, order.Perm [0, 1] ∧
          calls.functionDifferences m' {} = .ok (order.map fun i => ⟨calls.shownName i, .equal⟩) := by
  have hm : decode true calls.source = .ok calls := rfl
  have hw : ({ passive := true } : DataReplacement).write calls [7, 8] (.empty none) =
      .ok () longerData := by with_unfolding_all rfl
  obtain ⟨first, hfirst⟩ : ∃ body, calls.functionBody 0 = .ok body := ⟨_, rfl⟩
  have hsecond : calls.functionBody 1 = .ok ⟨[], [.plain .call 30 (.index 0)]⟩ := rfl
  obtain ⟨m', hm', htexts, hequal⟩ := functions_of_output hm (.replacement hw)
  have hread : ∀ i < calls.functions.length, ∃ text, calls.disassembly false i = .ok text := by
    intro i hi
    have htwo : i < 2 := hi
    obtain rfl | rfl : i = 0 ∨ i = 1 := by omega
    · exact ⟨_, by rw [disassembly, hfirst]⟩
    · exact ⟨_, by rw [disassembly, hsecond]⟩
  refine ⟨hm, .replacement hw, m', hm', (htexts 1).trans ?_, hequal hread⟩
  rw [disassembly, hsecond]
  decide

end Module

end WasmBinary
