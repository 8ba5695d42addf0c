import WasmBinary.Disassembly
import WasmBinary.Proofs.Relocation

/-!
# Bodies and listings at another position

The body of a function is a matter of its bytes. Where they stand changes the offsets that are recorded
and nothing else, and a listing without offsets does not show even that.

* `Code.body_of_bytes`: what code holds that has the same bytes.
* `Module.SameNames.functionText`: what the text of a function depends on.
* `Module.disassembly_toOption`: modules with the same names and the same code have the same listings.
-/
namespace WasmBinary

open Decoder (Fixed Follows)

/-! ## Bodies -/

namespace FunctionBody

/-- The body with `f p` for every offset `p` in it. -/
def mapOffsets (f : Nat → Nat) (body : FunctionBody) : FunctionBody :=
  { body with instructions := body.instructions.mapOffsets f }

theorem fixed_localRun (total : Nat) : Fixed (localRun total) := by
  refine (Leb128.fixed_u32.mapError _).bind fun count => .ite (fun _ => ?_) fun _ => ?_
  · exact (Fixed.throw _).bind fun _ => ((MarkerTable.fixed_decode _).mapError _).bind fun _ => .pure _
  · exact ((MarkerTable.fixed_decode _).mapError _).bind fun _ => .pure _

theorem fixed_localRuns (count : Nat) : ∀ position total, Fixed (localRuns position count total) := by
  induction count with
  | zero => exact fun _ _ => .pure _
  | succ count ih =>
    intro position total
    exact ((fixed_localRun total).mapError _).bind fun run => (ih _ _).bind fun runs => .pure _

theorem fixed_localsVector : Fixed localsVector :=
  (Leb128.fixed_u32.mapError _).bind fun count => fixed_localRuns count.toNat 0 0

end FunctionBody

def BodyError.mapOffsets (f : Nat → Nat) : BodyError → BodyError
  | instructions cause => instructions (cause.mapOffsets f)
  | e => e

theorem FunctionBody.follows_decode (f : Nat → Nat) :
    Follows f (BodyError.mapOffsets f) (FunctionBody.mapOffsets f) FunctionBody.decode
      FunctionBody.decode := by
  refine Follows.bind ((fixed_localsVector f).mapError fun _ => rfl) fun locals => ?_
  exact Follows.bind ((Expr.follows_decode f).mapError fun _ => rfl) fun instructions => .pure rfl

/-- Code with the same bytes holds the same body, or fails for the same reason, with all offsets moved
over the distance between the two. -/
theorem Code.body_of_bytes {c c' : Code} (h : c'.bytes = c.bytes) :
    c'.body =
      match c.body with
      | .ok body => .ok (body.mapOffsets fun x => x - c.offset + c'.offset)
      | .error e => .error (e.mapOffsets fun x => x - c.offset + c'.offset) := by
  have hmoves := moves_between c.offset c'.offset c.bytes.length
  have hfollows := FunctionBody.follows_decode fun x => x - c.offset + c'.offset
  have hstart : c.offset - c.offset + c'.offset = c'.offset := by omega
  simp only [body, h]
  cases hread : FunctionBody.decode ⟨c.offset, c.bytes⟩ with
  | error e rest =>
    obtain ⟨rest', hread'⟩ := hfollows.error hmoves hread
    rw [hstart] at hread'
    simp only [hread']
  | ok found rest =>
    obtain ⟨⟨hle, -⟩, hread'⟩ := hfollows.ok hmoves hread
    rw [hstart] at hread'
    simp only [hread']
    by_cases hend : rest.rest.isEmpty
    · simp only [hend, if_true]
    · simp [hend, BodyError.mapOffsets, size, h]

/-! ## Texts -/

namespace Instruction

@[simp] theorem opcode_mapOffsets (f : Nat → Nat) (i : Instruction) :
    (i.mapOffsets f).opcode = i.opcode := by
  cases i <;> rfl

@[simp] theorem index?_mapOffsets (f : Nat → Nat) (i : Instruction) :
    (i.mapOffsets f).index? = i.index? := by
  cases i with
  | plain o p immediate => cases immediate <;> rfl
  | _ => rfl

@[simp] theorem text_mapOffsets (f : Nat → Nat) (i : Instruction) :
    (i.mapOffsets f).text = i.text := by
  cases i <;> rfl

end Instruction

namespace Module

/-- The modules have the same functions, with the same types, under the same names. -/
structure SameNames (m m' : Module) : Prop where
  types : m'.types = m.types
  imports : m'.imports = m.imports
  functions : m'.functions = m.functions
  names : m'.names = m.names

namespace SameNames

variable {m m' : Module} (h : m.SameNames m')
include h

theorem importedFunctionCount : m'.importedFunctionCount = m.importedFunctionCount := by
  rw [Module.importedFunctionCount, h.imports]
  rfl

theorem functionName (i : Nat) : m'.functionName i = m.functionName i := by
  simp only [Module.functionName, Module.givenName?, h.importedFunctionCount, h.names]

theorem functionNameAbsolute (full : Nat) :
    m'.functionNameAbsolute full = m.functionNameAbsolute full := by
  simp only [Module.functionNameAbsolute, Module.givenName?, h.importedFunctionCount, h.names,
    h.functionName]

theorem globalName (i : Index) : m'.globalName i = m.globalName i := by
  simp only [Module.globalName, h.names]

theorem signature (i : Nat) : m'.signature i = m.signature i := by
  simp only [Module.signature, Module.functionType?, h.functionName, h.importedFunctionCount,
    h.functions, h.types, h.names]

end SameNames

/-- Every function and every global has the same name in both modules. -/
structure SameDisplayNames (m m' : Module) : Prop where
  functions (i : Index) : m.functionNameAbsolute i.toNat = m'.functionNameAbsolute i.toNat
  globals (i : Index) : m.globalName i = m'.globalName i

theorem SameNames.displayNames {m m' : Module} (h : m.SameNames m') : m.SameDisplayNames m' :=
  ⟨fun i => (h.functionNameAbsolute i.toNat).symm, fun i => (h.globalName i).symm⟩

theorem SameDisplayNames.instructionText {m m' : Module} (h : m.SameDisplayNames m') (f : Nat → Nat)
    (i : Instruction) : m'.instructionText (i.mapOffsets f) = m.instructionText i := by
  simp only [Module.instructionText, Instruction.index?_mapOffsets, Instruction.opcode_mapOffsets,
    Instruction.text_mapOffsets, h.functions, h.globals]

section

variable {m m' : Module} (f : Nat → Nat)

mutual

theorem SameDisplayNames.tree (h : m.SameDisplayNames m') (level : Nat) : ∀ i : Instruction,
    m'.tree false level (i.mapOffsets f) = m.tree false level i
  | .plain o p immediate => by
    have htext := h.instructionText f (.plain o p immediate)
    simp only [Instruction.mapOffsets] at htext
    simp only [Instruction.mapOffsets, Module.tree, htext, treeLine]
  | .block o p t body => by
    have htext := h.instructionText f (.block o p t body)
    simp only [Instruction.mapOffsets] at htext
    simp only [Instruction.mapOffsets, Module.tree, htext, treeLine, h.trees (level + 1) body]
  | .ifElse p t body alternative => by
    have htext := h.instructionText f (.ifElse p t body alternative)
    simp only [Instruction.mapOffsets] at htext
    simp only [Instruction.mapOffsets, Module.tree, htext, treeLine, h.trees (level + 1) body,
      h.trees (level + 1) alternative]
  | .tryDelegate p t body label => by
    have htext := h.instructionText f (.tryDelegate p t body label)
    simp only [Instruction.mapOffsets] at htext
    simp only [Instruction.mapOffsets, Module.tree, htext, treeLine, h.trees (level + 1) body]

theorem SameDisplayNames.trees (h : m.SameDisplayNames m') (level : Nat) : ∀ e : List Instruction,
    m'.trees false level (Instruction.mapOffsetsAll f e) = m.trees false level e
  | [] => rfl
  | i :: rest => by
    simp only [Instruction.mapOffsetsAll, Module.trees, h.tree level i, h.trees level rest]

end

/-- The text of a function does not depend on where its instructions stand. -/
theorem SameNames.functionText (h : m.SameNames m') (i : Nat) (body : FunctionBody) :
    m'.functionText false i (body.mapOffsets f) = m.functionText false i body := by
  simp only [Module.functionText, FunctionBody.mapOffsets, Expr.mapOffsets, h.signature,
    h.displayNames.trees f]

end

/-- If the functions have the same bytes, they have the same texts, or none. -/
theorem disassembly_toOption {m m' : Module} (h : m.SameNames m')
    (hcodes : m'.codes.map Code.withoutOffset = m.codes.map Code.withoutOffset) (i : Nat) :
    (m'.disassembly false i).toOption = (m.disassembly false i).toOption := by
  have hplace := congrArg (·[i]?) hcodes
  simp only [List.getElem?_map] at hplace
  simp only [disassembly, functionBody]
  cases hc : m.codes[i]? with
  | none =>
    rw [hc] at hplace
    rw [Option.map_eq_none_iff.mp hplace]
  | some c =>
    rw [hc] at hplace
    obtain ⟨c', hc', hsame⟩ := Option.map_eq_some_iff.mp hplace
    have hbytes := congrArg Code.bytes hsame
    change c'.bytes = c.bytes at hbytes
    simp only [hc', Code.body_of_bytes hbytes]
    cases c.body with
    | error e => rfl
    | ok body => simp only [h.functionText, Except.toOption]

end Module

end WasmBinary
