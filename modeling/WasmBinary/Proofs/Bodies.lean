import WasmBinary.Module.Body
import WasmBinary.Proofs.Delimited
import WasmBinary.Proofs.Scan

/-!
# Function bodies and where they stand

The code of a function is a piece of the file, and its offset is where that piece starts. It has a body
if it is a vector of runs of locals and an expression, and nothing else.

* `FunctionBody.Form`: which byte strings are bodies.
* `Code.body_eq_ok_iff`: code has a body exactly if all its bytes are one.
* `Code.StandsIn`, `Module.standsIn_of_decode`: the code of a module stands in its file.
-/
namespace WasmBinary

open Decoder (Recognizes bind_eq_ok)
open Leb128 (U32Form recognizes_u32)

/-! ## Locals -/

namespace LocalRun

/-- The number of the locals and their type. -/
def Form (bs : Bytes) (run : LocalRun) : Prop :=
  ∃ bs₁ bs₂, bs = bs₁ ++ bs₂ ∧ U32Form bs₁ run.count ∧ ValueType.markers.Form bs₂ run.type

/-- How many locals there are in all. -/
def total : List LocalRun → Nat
  | [] => 0
  | run :: rest => run.count.toNat + total rest

/-- Each run finds room behind those in front of it and `before` other locals. -/
def Fit (before : Nat) : List LocalRun → Prop
  | [] => True
  | run :: rest => before + run.count.toNat ≤ FunctionBody.maxLocals ∧
      Fit (before + run.count.toNat) rest

theorem fit_iff (runs : List LocalRun) : ∀ {before : Nat}, before ≤ FunctionBody.maxLocals →
    (Fit before runs ↔ before + total runs ≤ FunctionBody.maxLocals) := by
  induction runs with
  | nil => exact fun h => ⟨fun _ => h, fun _ => trivial⟩
  | cons run rest ih =>
    intro before _
    simp only [Fit, total, ← Nat.add_assoc]
    constructor
    · intro h
      exact (ih h.1).mp h.2
    · intro h
      exact ⟨by omega, (ih (by omega)).mpr h⟩

end LocalRun

namespace FunctionBody

theorem recognizes_localRun (before : Nat) : (localRun before).Recognizes
    (.fixed fun bs run => LocalRun.Form bs run ∧ before + run.count.toNat ≤ maxLocals) := by
  have htype (count : UInt32) :=
    ((ValueType.markers.recognizes_decode).mapError LocalsError.type).bind fun type =>
      Recognizes.pure (ε := LocalsError) (LocalRun.mk count type)
  refine Recognizes.congr ((recognizes_u32.mapError _).bind fun count => .ite
    (fun _ => (Recognizes.throw _).bind fun _ => htype count) fun _ => htype count)
    fun p bs run => ⟨?_, ?_⟩
  · intro h
    obtain ⟨bs₁, _, count, rfl, hcount, ⟨-, _, _, _, -, hfalse, -⟩ | ⟨hle, bs₂, _, type, rfl, htype,
      rfl, rfl⟩⟩ := h
    · exact hfalse.elim
    · exact ⟨⟨bs₁, bs₂, by simp, hcount, htype⟩, Nat.not_lt.mp hle⟩
  · intro h
    obtain ⟨⟨bs₁, bs₂, rfl, hcount, htype⟩, hle⟩ := h
    exact ⟨bs₁, bs₂, run.count, rfl, hcount,
      .inr ⟨Nat.not_lt.mpr hle, bs₂, [], run.type, by simp, htype, rfl, rfl⟩⟩

theorem recognizes_localRuns (count : Nat) : ∀ position before : Nat,
    (localRuns position count before).Recognizes fun p bs runs =>
      runs.length = count ∧ Format.Elements (.fixed LocalRun.Form) p bs runs ∧
        LocalRun.Fit before runs := by
  induction count with
  | zero =>
    intro position before
    refine (Recognizes.pure _).congr fun p bs runs => ⟨?_, ?_⟩
    · intro h
      obtain ⟨rfl, rfl⟩ := h
      exact ⟨rfl, .nil p, trivial⟩
    · intro h
      obtain ⟨hlength, hruns, -⟩ := h
      cases hruns with
      | nil => exact ⟨rfl, rfl⟩
      | cons _ _ => cases hlength
  | succ count ih =>
    intro position before
    refine (((recognizes_localRun before).mapError _).bind fun run =>
      (ih (position + 1) (before + run.count.toNat)).bind fun runs => .pure _).congr
      fun p bs runs => ⟨?_, ?_⟩
    · intro h
      obtain ⟨bs₁, _, run, rfl, ⟨hrun, hle⟩, bs₂, _, runs, rfl, ⟨hlength, hruns, hfit⟩, rfl, rfl⟩ := h
      refine ⟨by simp [hlength], ?_, hle, hfit⟩
      simpa using Format.Elements.cons (F := .fixed LocalRun.Form) hrun hruns
    · intro h
      obtain ⟨hlength, hruns, hfit⟩ := h
      cases hruns with
      | nil => cases hlength
      | @cons _ bs₁ bs₂ run runs hrun hruns =>
        exact ⟨bs₁, bs₂, run, rfl, ⟨hrun, hfit.1⟩, bs₂, [], runs, by simp,
          ⟨by simpa using hlength, hruns, hfit.2⟩, rfl, rfl⟩

/-- Runs of locals, which are not too many in all. -/
def LocalsForm (p : Nat) (bs : Bytes) (runs : List LocalRun) : Prop :=
  Format.Vector (.fixed LocalRun.Form) p bs runs ∧ LocalRun.total runs ≤ maxLocals

theorem recognizes_localsVector : localsVector.Recognizes LocalsForm := by
  have hfit (runs : List LocalRun) : LocalRun.Fit 0 runs ↔ LocalRun.total runs ≤ maxLocals := by
    rw [LocalRun.fit_iff runs (Nat.zero_le _), Nat.zero_add]
  refine ((recognizes_u32.mapError _).bind fun n => recognizes_localRuns n.toNat 0 0).congr
    fun p bs runs => ⟨?_, ?_⟩
  · intro h
    obtain ⟨_, _, n, rfl, hcount, hlength, hruns, hle⟩ := h
    exact ⟨.mk hcount hlength hruns, (hfit runs).mp hle⟩
  · intro h
    obtain ⟨⟨hcount, hlength, hruns⟩, hle⟩ := h
    exact ⟨_, _, _, rfl, hcount, hlength, hruns, (hfit runs).mpr hle⟩

/-! ## Bodies -/

/-- Locals and the instructions behind them. -/
def Form (p : Nat) (bs : Bytes) (body : FunctionBody) : Prop :=
  ∃ bs₁ bs₂, bs = bs₁ ++ bs₂ ∧ LocalsForm p bs₁ body.locals ∧
    Expr.Form (p + bs₁.length) bs₂ body.instructions

theorem recognizes_decode : FunctionBody.decode.Recognizes Form := by
  refine Recognizes.congr ((recognizes_localsVector.mapError _).bind fun locals =>
    (Expr.recognizes_decode.mapError _).bind fun instructions => .pure _) fun p bs body => ⟨?_, ?_⟩
  · intro h
    obtain ⟨bs₁, _, locals, rfl, hlocals, bs₂, _, instructions, rfl, hinstructions, rfl, rfl⟩ := h
    exact ⟨bs₁, bs₂, by simp, hlocals, hinstructions⟩
  · intro h
    obtain ⟨bs₁, bs₂, rfl, hlocals, hinstructions⟩ := h
    exact ⟨bs₁, bs₂, body.locals, rfl, hlocals, bs₂, [], body.instructions, by simp, hinstructions,
      rfl, rfl⟩

/-- Every instruction of a body stands at its offset, nested ones included. -/
theorem Form.foundIn {p : Nat} {bs : Bytes} {body : FunctionBody} (h : Form p bs body) :
    ∀ i ∈ Instruction.walkAll body.instructions, Instruction.FoundIn p bs i := by
  obtain ⟨bs₁, bs₂, rfl, -, hinstructions⟩ := h
  intro i hi
  exact (hinstructions.foundIn i hi).append_left bs₁

end FunctionBody

namespace Code

/-- Code has a body exactly if all its bytes are one. -/
theorem body_eq_ok_iff {c : Code} {body : FunctionBody} :
    c.body = .ok body ↔ FunctionBody.Form c.offset c.bytes body := by
  unfold Code.body
  constructor
  · intro h
    split at h
    · cases h
    · rename_i found rest hread
      split at h
      · rename_i hempty
        cases h
        obtain ⟨bs, hbytes, -, hform⟩ := FunctionBody.recognizes_decode.consumed hread
        rw [List.isEmpty_iff.mp hempty, List.append_nil] at hbytes
        rwa [hbytes]
      · cases h
  · intro h
    have hread := FunctionBody.recognizes_decode.read h []
    rw [List.append_nil] at hread
    rw [hread]
    rfl

end Code

theorem Module.form_of_functionBody {m : Module} {i : Nat} {body : FunctionBody}
    (h : m.functionBody i = .ok body) :
    ∃ code, m.codes[i]? = some code ∧ FunctionBody.Form code.offset code.bytes body := by
  unfold functionBody at h
  split at h
  · rename_i code hcode
    exact ⟨code, hcode, Code.body_eq_ok_iff.mp h⟩
  · cases h

/-! ## Places in files -/

namespace Code

/-- The code is a piece of a byte string, and starts at its offset. -/
def StandsIn (c : Code) (file : Bytes) : Prop :=
  ∃ front back, file = front ++ (c.bytes ++ back) ∧ c.offset = front.length

/-- An instruction of the code is one of the file. -/
theorem StandsIn.foundIn {c : Code} {file : Bytes} (h : c.StandsIn file) {i : Instruction}
    (hi : Instruction.FoundIn c.offset c.bytes i) : Instruction.FoundIn 0 file i := by
  obtain ⟨front, back, rfl, hoffset⟩ := h
  rw [hoffset, ← Nat.zero_add front.length] at hi
  exact (hi.append_right back).append_left front

/-- Code stands in the payload that it was read from. -/
theorem exists_of_decodeAll {q : Nat} {payload : Bytes} {codes : List Code} {c' : Cursor}
    (h : decodeAll ⟨q, payload⟩ = .ok codes c') (c : Code) (hc : c ∈ codes) :
    ∃ front back, payload = front ++ (c.bytes ++ back) ∧ c.offset = q + front.length := by
  obtain ⟨places, c₁, hread, h⟩ := (bind_eq_ok ..).mp h
  cases h
  obtain ⟨bs, rest, rfl, -, hplaces⟩ := (Decoder.recognizes_vector recognizes_decodePlace ..).mp hread
  obtain ⟨i, hi, rfl⟩ := List.mem_mapIdx.mp hc
  obtain ⟨front, _, back, rfl, size, n, rfl, -, -, hoffset⟩ :=
    hplaces.exists_of_mem (List.getElem_mem hi)
  refine ⟨front ++ size, back ++ rest, by simp, ?_⟩
  rw [List.length_append, ← Nat.add_assoc]
  exact hoffset

end Code

/-- Code that a section holds stands in every file that has the section at its place. -/
theorem RawSection.Holds.standsIn {readCode : Bool} {r : RawSection} {front : Bytes}
    {codes : List Code} (h : r.Holds readCode front.length (.codes codes)) (back : Bytes) :
    ∀ c ∈ codes, c.StandsIn (front ++ (r.bytes ++ back)) := by
  obtain ⟨c₁, h⟩ := h
  intro c hc
  obtain ⟨front', back', hpayload, hoffset⟩ :=
    Code.exists_of_decodeAll (Payload.codes_of_decode h) c hc
  refine ⟨front ++ (r.id :: (r.sizeBytes ++ front')), back' ++ back, ?_, ?_⟩
  · simp [RawSection.bytes, hpayload]
  · rw [hoffset, RawSection.payloadOffset]
    simp only [List.length_append, List.length_cons]
    omega

theorem Payload.codes_addTo (m : Module) (pl : Payload) :
    (∃ codes, pl = .codes codes ∧ (pl.addTo m).codes = codes) ∨ (pl.addTo m).codes = m.codes := by
  cases pl with
  | codes codes => exact .inl ⟨codes, rfl, rfl⟩
  | custom found names => cases names <;> exact .inr rfl
  | _ => exact .inr rfl

/-- One more section leaves the code in front of it where it is. -/
theorem Scans.standsIn {readCode : Bool} {rs : List RawSection} : ∀ {front : Bytes} {m m' : Module},
    Scans readCode front.length m rs m' →
    (∀ c ∈ m.codes, c.StandsIn (front ++ RawSection.join rs)) →
    ∀ c ∈ m'.codes, c.StandsIn (front ++ RawSection.join rs) := by
  induction rs with
  | nil =>
    intro front m m' h hm
    cases h
    exact hm
  | cons r rs ih =>
    intro front m m' h hm
    cases h with
    | @cons _ _ _ _ _ pl first others =>
      have hfile : front ++ RawSection.join (r :: rs) =
          front ++ r.bytes ++ RawSection.join rs := by
        simp [RawSection.join]
      rw [← List.length_append] at others
      rw [hfile] at hm ⊢
      refine ih others fun c hc => ?_
      change c ∈ (pl.addTo m).codes at hc
      rcases pl.codes_addTo m with ⟨codes, rfl, hcodes⟩ | hcodes
      · rw [hcodes] at hc
        rw [List.append_assoc]
        exact first.standsIn _ c hc
      · rw [hcodes] at hc
        exact hm c hc

namespace Module

/-- All code of a module stands in its file. -/
theorem standsIn_of_decode {readCode : Bool} {file : Bytes} {m : Module}
    (h : decode readCode file = .ok m) : ∀ c ∈ m.codes, c.StandsIn m.source := by
  obtain ⟨version, rs, rfl, hscan⟩ := (decode_eq_ok_iff ..).mp h
  rw [hscan.places.1]
  rw [← length_preamble version] at hscan
  exact hscan.standsIn fun c hc => (nomatch hc)

end Module

end WasmBinary
