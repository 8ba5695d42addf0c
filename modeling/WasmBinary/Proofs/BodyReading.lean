import WasmBinary.Proofs.Bodies
import WasmBinary.Proofs.Listing

/-!
# What decides how a body is read

The body of a function is read from the bytes of its code and from nothing around them. It can be read if
these bytes are runs of locals and instructions, with the last byte to close the instructions.

* `FunctionBody.form_iff_fills`: bodies, told byte by byte.
* `Code.body_eq_sizeMismatch_iff`: a body that ends too early.
* `Code.body_eq_moved`: what is read at another place.
* `Module.functionBody_of_bytes`: the functions of a module that was read.
-/
namespace WasmBinary

open Decoder (bind_eq_error mapError_eq_error)

/-! ## Bodies -/

namespace FunctionBody

/-- The bytes are runs of locals and instructions, and the last of them closes the instructions. There
are no more locals in all than a number of 32 bits can tell. -/
def Fills (p : Nat) (bs : Bytes) (body : FunctionBody) : Prop :=
  ∃ locals instructions, bs = locals ++ (instructions ++ [0x0B]) ∧
    Format.Vector (.fixed LocalRun.Form) p locals body.locals ∧
    LocalRun.total body.locals ≤ 2 ^ 32 - 1 ∧
    Instruction.SequenceForm (p + locals.length) instructions body.instructions

theorem form_iff_fills {p : Nat} {bs : Bytes} {body : FunctionBody} :
    Form p bs body ↔ Fills p bs body := by
  constructor
  · rintro ⟨locals, _, rfl, ⟨hlocals, htotal⟩, hinstructions⟩
    cases hinstructions with
    | closed h => exact ⟨locals, _, rfl, hlocals, htotal, h⟩
  · rintro ⟨locals, _, rfl, hlocals, htotal, hinstructions⟩
    exact ⟨locals, _, rfl, ⟨hlocals, htotal⟩, .closed hinstructions⟩

/-- Reading alone never finds fault with the size. -/
theorem decode_ne_sizeMismatch {c c' : Cursor} {declared consumed : Nat} :
    FunctionBody.decode c ≠ .error (.sizeMismatch declared consumed) c' := by
  intro h
  rcases (bind_eq_error ..).mp h with h | ⟨locals, _, -, h⟩
  · obtain ⟨_, -, he⟩ := (mapError_eq_error ..).mp h
    cases he
  · rcases (bind_eq_error ..).mp h with h | ⟨instructions, _, -, h⟩
    · obtain ⟨_, -, he⟩ := (mapError_eq_error ..).mp h
      cases he
    · cases h

/-- What becomes of reading a body, with `f p` for every offset `p` in it. -/
def mapOutcome (f : Nat → Nat) : Except BodyError FunctionBody → Except BodyError FunctionBody
  | .ok body => .ok (body.mapOffsets f)
  | .error e => .error (e.mapOffsets f)

/-- What becomes of reading a body from these bytes, with offsets that count from the first of them. -/
def ofBytes (bs : Bytes) : Except BodyError FunctionBody := Code.body ⟨0, 0, bs⟩

end FunctionBody

/-! ## Code -/

namespace Code

variable {c : Code}

/-- The size is wrong if a body stands at the front of the bytes and more bytes behind it. -/
theorem body_eq_sizeMismatch_iff {declared consumed : Nat} :
    c.body = .error (.sizeMismatch declared consumed) ↔ declared = c.size ∧
      ∃ taken rest body, c.bytes = taken ++ rest ∧ rest ≠ [] ∧
        FunctionBody.Form c.offset taken body ∧ consumed = taken.length := by
  unfold Code.body
  constructor
  · intro h
    split at h
    · -- Neither the locals nor the instructions fail with this error.
      rename_i hread
      cases h
      exact absurd hread FunctionBody.decode_ne_sizeMismatch
    · rename_i body c' hread
      split at h
      · cases h
      · rename_i hrest
        obtain ⟨taken, hbytes, hposition, hform⟩ := FunctionBody.recognizes_decode.consumed hread
        cases h
        refine ⟨rfl, taken, c'.rest, body, hbytes, ?_, hform, ?_⟩
        · rwa [List.isEmpty_iff] at hrest
        · rw [hposition, Nat.add_sub_cancel_left]
  · rintro ⟨rfl, taken, rest, body, hbytes, hrest, hform, rfl⟩
    rw [hbytes, FunctionBody.recognizes_decode.read hform rest]
    simp only [List.isEmpty_iff, hrest, if_false, Nat.add_sub_cancel_left]

theorem body_eq_mapOutcome {c' : Code} (h : c'.bytes = c.bytes) :
    c'.body = FunctionBody.mapOutcome (fun p => p - c.offset + c'.offset) c.body := by
  rw [body_of_bytes h]
  cases c.body <;> rfl

/-- The place of the code is added to the offsets in its body, or to those in the error. -/
theorem body_eq_moved (c : Code) :
    c.body = FunctionBody.mapOutcome (· + c.offset) (FunctionBody.ofBytes c.bytes) :=
  body_eq_mapOutcome rfl

theorem StandsIn.slice?_eq {file : Bytes} (h : c.StandsIn file) :
    file.slice? c.offset (c.offset + c.size) = some c.bytes := by
  obtain ⟨front, back, hfile, hoffset⟩ := h
  exact Bytes.slice?_eq_some_iff.mpr ⟨front, back, hfile, hoffset.symm, rfl⟩

end Code

/-! ## Modules -/

namespace Module

theorem functionBody_of_code {m : Module} {i : Nat} {c : Code} (h : m.codes[i]? = some c) :
    m.functionBody i = c.body := by
  rw [functionBody, h]

/-- The body of a function is read from the bytes that its code has in the file. It can be read exactly
if they are runs of locals and instructions that the last byte closes, and the size is found wrong exactly
if a body ends in front of the last byte. Whatever becomes of it is a matter of these bytes: code with the
same bytes in any other module has the same locals and instructions or gives the same error, and only the
offsets differ, by the distance between the two. -/
theorem functionBody_of_bytes {readCode : Bool} {file : Bytes} {m : Module}
    (hm : decode readCode file = .ok m) {i : Nat} {c : Code} (hc : m.codes[i]? = some c) :
    m.source.slice? c.offset (c.offset + c.size) = some c.bytes ∧
      (∀ body, m.functionBody i = .ok body ↔ FunctionBody.Fills c.offset c.bytes body) ∧
      (∀ declared consumed, m.functionBody i = .error (.sizeMismatch declared consumed) ↔
        declared = c.size ∧ ∃ taken rest body, c.bytes = taken ++ rest ∧ rest ≠ [] ∧
          FunctionBody.Fills c.offset taken body ∧ consumed = taken.length) ∧
      m.functionBody i = FunctionBody.mapOutcome (· + c.offset) (FunctionBody.ofBytes c.bytes) ∧
      ∀ (m' : Module) (j : Nat) (c' : Code), m'.codes[j]? = some c' → c'.bytes = c.bytes →
        m'.functionBody j =
          FunctionBody.mapOutcome (fun p => p - c.offset + c'.offset) (m.functionBody i) := by
  have hstands := standsIn_of_decode hm c (List.mem_of_getElem? hc)
  rw [functionBody_of_code hc]
  refine ⟨hstands.slice?_eq, fun body => ?_, fun declared consumed => ?_, c.body_eq_moved,
    fun m' j c' hc' hbytes => ?_⟩
  · rw [Code.body_eq_ok_iff, FunctionBody.form_iff_fills]
  · simp only [Code.body_eq_sizeMismatch_iff, FunctionBody.form_iff_fills]
  · rw [functionBody_of_code hc']
    exact Code.body_eq_mapOutcome hbytes

/-- A module with three functions. The code of the first two has the same bytes, that of the third has a
byte behind the end of the body. -/
def sameBytes : Module where
  source := [0x00, 0x61, 0x73, 0x6D, 1, 0, 0, 0, 3, 4, 3, 0, 0, 0,
    10, 13, 3, 3, 0, 0x01, 0x0B, 3, 0, 0x01, 0x0B, 3, 0, 0x0B, 0x01]
  version := 1
  sections := [⟨.function, 4, 8, 10⟩, ⟨.code, 13, 14, 16⟩]
  functions := [0, 0, 0]
  codes := [⟨0, 18, [0, 0x01, 0x0B]⟩, ⟨1, 22, [0, 0x01, 0x0B]⟩, ⟨2, 26, [0, 0x0B, 0x01]⟩]

theorem functionBody_of_bytes_sameBytes :
    decode true sameBytes.source = .ok sameBytes ∧
      sameBytes.functionBody 1 =
        FunctionBody.mapOutcome (fun p => p - 18 + 22) (sameBytes.functionBody 0) ∧
      sameBytes.functionBody 2 = .error (.sizeMismatch 3 2) := by
  have hm : decode true sameBytes.source = .ok sameBytes := rfl
  have hfirst : sameBytes.codes[0]? = some ⟨0, 18, [0, 0x01, 0x0B]⟩ := rfl
  have hthird : sameBytes.codes[2]? = some ⟨2, 26, [0, 0x0B, 0x01]⟩ := rfl
  obtain ⟨-, -, -, -, hsame⟩ := functionBody_of_bytes hm hfirst
  obtain ⟨-, -, hsize, -⟩ := functionBody_of_bytes hm hthird
  have hread : FunctionBody.decode ⟨26, [0, 0x0B, 0x01]⟩ = .ok ⟨[], []⟩ ⟨28, [0x01]⟩ := rfl
  obtain ⟨taken, hbytes, -, hform⟩ := FunctionBody.recognizes_decode.consumed hread
  have htaken : [0, 0x0B] = taken := List.append_cancel_right hbytes
  exact ⟨hm, hsame sameBytes 1 _ rfl rfl, (hsize 3 2).mpr ⟨rfl, taken, [0x01], ⟨[], []⟩, hbytes,
    List.cons_ne_nil 1 [], FunctionBody.form_iff_fills.mp hform, by rw [← htaken]; rfl⟩⟩

end Module

end WasmBinary
