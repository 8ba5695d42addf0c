import Mathlib.Data.List.Nodup
import WasmBinary.Proofs.Bodies

/-!
# Walks over bodies and the calls in them

The instructions of a body are a tree: some have nested ones, and `if` may have them in two arms. A walk
over it visits every instruction once, in the order in which they stand in the file.

* `Expr.Route`: the ways to the instructions of a tree.
* `Expr.visits_walkAll`: the walk takes each of them once.
* `Instruction.SequenceForm.ascending`: offsets ascend along the walk.
* `Module.visits_of_functionBody`: the walk over a body and the calls that are found on it.
-/
namespace WasmBinary

namespace Instruction

/-! ## Trees -/

mutual

theorem parts_induction {motive : Expr → Prop} (nil : motive [])
    (cons : ∀ (i : Instruction) (rest : Expr), motive i.body → motive i.alternative → motive rest →
      motive (i :: rest)) : ∀ i : Instruction, motive i.body ∧ motive i.alternative
  | plain .. => ⟨nil, nil⟩
  | block _ _ _ body => ⟨tree_induction nil cons body, nil⟩
  | ifElse _ _ body alternative =>
    ⟨tree_induction nil cons body, tree_induction nil cons alternative⟩
  | tryDelegate _ _ body _ => ⟨tree_induction nil cons body, nil⟩

/-- A property of sequences that the first instruction passes on from its two arms and from what is
behind it. -/
theorem tree_induction {motive : Expr → Prop} (nil : motive [])
    (cons : ∀ (i : Instruction) (rest : Expr), motive i.body → motive i.alternative → motive rest →
      motive (i :: rest)) : ∀ e : Expr, motive e
  | [] => nil
  | i :: rest => cons i rest (parts_induction nil cons i).1 (parts_induction nil cons i).2
    (tree_induction nil cons rest)

end

end Instruction

namespace Expr

open Instruction (walk walkAll walk_eq tree_induction)

/-- A way from the start of a sequence to an instruction of its tree. -/
inductive Route where
  | here
  | body (inner : Route)           -- into the first instruction
  | alternative (inner : Route)    -- into the first instruction, behind `else`
  | behind (others : Route)        -- past the first instruction

/-- The instruction at the end of a way, if the way exists. -/
def Route.find? : Route → Expr → Option Instruction
  | _, [] => none
  | here, i :: _ => some i
  | body inner, i :: _ => inner.find? i.body
  | alternative inner, i :: _ => inner.find? i.alternative
  | behind others, _ :: rest => others.find? rest

mutual

/-- The ways to an instruction at the start of a sequence and to those nested in it. -/
def routes : Instruction → List Route
  | .plain .. => [.here]
  | .block _ _ _ body => .here :: (routesAll body).map .body
  | .ifElse _ _ body alternative =>
    .here :: ((routesAll body).map .body ++ (routesAll alternative).map .alternative)
  | .tryDelegate _ _ body _ => .here :: (routesAll body).map .body

/-- All ways in a sequence. -/
def routesAll : List Instruction → List Route
  | [] => []
  | i :: rest => routes i ++ (routesAll rest).map .behind

end

theorem routes_eq (i : Instruction) : routes i =
    .here :: ((routesAll i.body).map .body ++ (routesAll i.alternative).map .alternative) := by
  cases i <;> simp [routes, routesAll, Instruction.body, Instruction.alternative]

theorem mem_routesAll_iff (r : Route) : ∀ e : Expr, r ∈ routesAll e ↔ (r.find? e).isSome := by
  induction r with
  | here =>
    intro e
    cases e <;> simp [routesAll, routes_eq, Route.find?]
  | body inner ih | alternative inner ih | behind others ih =>
    intro e
    cases e <;> simp [routesAll, routes_eq, Route.find?, ih]

theorem nodup_routesAll (e : Expr) : (routesAll e).Nodup := by
  induction e using tree_induction with
  | nil => exact .nil
  | cons i rest hbody halternative hrest =>
    have hbody := List.Nodup.map (fun _ _ h => Route.body.inj h) hbody
    have halternative := List.Nodup.map (fun _ _ h => Route.alternative.inj h) halternative
    have hrest := List.Nodup.map (fun _ _ h => Route.behind.inj h) hrest
    simp only [routesAll, routes_eq, List.cons_append, List.nodup_cons, List.nodup_append, hbody,
      halternative, hrest]
    refine ⟨by simp, ⟨trivial, trivial, by simp⟩, trivial, fun r hr r' hr' => ?_⟩
    obtain ⟨others, -, rfl⟩ := List.mem_map.mp hr'
    rcases List.mem_append.mp hr with hr | hr <;> obtain ⟨inner, -, rfl⟩ := List.mem_map.mp hr
    · simp
    · simp

theorem map_find?_routesAll (e : Expr) :
    (routesAll e).map (·.find? e) = (walkAll e).map some := by
  induction e using tree_induction with
  | nil => rfl
  | cons i rest hbody halternative hrest =>
    simp only [routesAll, routes_eq, walkAll, walk_eq, List.map_append, List.map_cons, List.map_map,
      Function.comp_def, Route.find?, hbody, halternative, hrest]

/-- `visited` are the instructions of a tree, and each of them once. -/
def Visits (e : Expr) (visited : List Instruction) : Prop :=
  ∃ routes : List Route, routes.Nodup ∧ (∀ r, r ∈ routes ↔ (r.find? e).isSome) ∧
    routes.map (·.find? e) = visited.map some

theorem visits_walkAll (e : Expr) : e.Visits (walkAll e) :=
  ⟨routesAll e, nodup_routesAll e, fun r => mem_routesAll_iff r e, map_find?_routesAll e⟩

theorem Visits.mem_iff {e : Expr} {visited : List Instruction} (h : e.Visits visited)
    (i : Instruction) : i ∈ visited ↔ ∃ r : Route, r.find? e = some i := by
  obtain ⟨routes, -, hroutes, hmap⟩ := h
  have hmem : i ∈ visited ↔ some i ∈ routes.map (·.find? e) := by simp [hmap]
  rw [hmem, List.mem_map]
  constructor
  · intro h
    obtain ⟨r, -, hr⟩ := h
    exact ⟨r, hr⟩
  · intro h
    obtain ⟨r, hr⟩ := h
    exact ⟨r, (hroutes r).mpr (by simp [hr]), hr⟩

end Expr

/-! ## Order -/

namespace Instruction

/-- The first instruction stands in front of the second. -/
def Before (i j : Instruction) : Prop := i.offset < j.offset

theorem FoundIn.bounds {p : Nat} {bs : Bytes} {i : Instruction} (h : FoundIn p bs i) :
    p ≤ i.offset ∧ i.offset < p + bs.length := by
  obtain ⟨hle, hbyte⟩ := h.firstByte
  have hlt := (List.getElem?_eq_some_iff.mp hbyte).1
  omega

/-- Instructions of bytes that stand behind `p` are behind the instruction at `p`. -/
theorem before_of_foundIn {p q : Nat} {bs : Bytes} {i : Instruction} {e : List Instruction}
    (hi : i.offset = p) (hpq : p < q) (he : ∀ j ∈ e, FoundIn q bs j) : ∀ j ∈ e, Before i j := by
  intro j hj
  have := (he j hj).bounds
  rw [Before]
  omega

mutual

theorem Form.ascending : ∀ {p : Nat} {bs : Bytes} {i : Instruction}, Form p bs i →
    (walk i).Pairwise Before
  | _, _, _, .plain _ _ _ => List.pairwise_singleton ..
  | p, _, _, .block hhead _ _ hbody => by
    have hlength := hhead.length_pos
    exact List.pairwise_cons.mpr
      ⟨before_of_foundIn (p := p) rfl (by omega) hbody.foundIn, hbody.ascending⟩
  | p, _, _, .ifElse hhead _ hbody halternative => by
    have hlength := hhead.length_pos
    refine List.pairwise_cons.mpr ⟨?_, List.pairwise_append.mpr
      ⟨hbody.ascending, halternative.ascending, ?_⟩⟩
    · rw [List.forall_mem_append]
      exact ⟨before_of_foundIn (p := p) rfl (by omega) hbody.foundIn,
        before_of_foundIn (p := p) rfl (by omega) halternative.foundIn⟩
    · intro i hi j hj
      have hfirst := (hbody.foundIn i hi).bounds
      have hsecond := (halternative.foundIn j hj).bounds
      rw [Before]
      omega
  | p, _, _, .tryDelegate hhead _ hbody _ => by
    have hlength := hhead.length_pos
    exact List.pairwise_cons.mpr
      ⟨before_of_foundIn (p := p) rfl (by omega) hbody.foundIn, hbody.ascending⟩

/-- Along a sequence offsets ascend, those of nested instructions included. -/
theorem SequenceForm.ascending : ∀ {p : Nat} {bs : Bytes} {e : Expr}, SequenceForm p bs e →
    (walkAll e).Pairwise Before
  | _, _, _, .nil _ => .nil
  | _, _, _, .cons first others => by
    refine List.pairwise_append.mpr ⟨first.ascending, others.ascending, fun i hi j hj => ?_⟩
    have hfirst := (first.foundIn i hi).bounds
    have hsecond := (others.foundIn j hj).bounds
    rw [Before]
    omega

end

end Instruction

theorem Expr.Form.ascending {p : Nat} {bs : Bytes} {e : Expr} (h : Expr.Form p bs e) :
    (Instruction.walkAll e).Pairwise Instruction.Before := by
  cases h with
  | closed h => exact h.ascending

/-! ## Calls -/

namespace FunctionBody

theorem mem_callsOf_iff (body : FunctionBody) (callee : Index) (p : Nat) :
    p ∈ body.callsOf callee ↔ ∃ i ∈ Instruction.walkAll body.instructions,
      (i.opcode = .call ∧ i.index? = some callee) ∧ i.offset = p := by
  simp [callsOf, List.mem_filterMap]

theorem ascending_callsOf {body : FunctionBody}
    (h : (Instruction.walkAll body.instructions).Pairwise Instruction.Before) (callee : Index) :
    (body.callsOf callee).Pairwise (· < ·) := by
  refine h.filterMap _ fun i j hij p hp q hq => ?_
  split at hp
  · split at hq
    · cases hp
      cases hq
      exact hij
    · cases hq
  · cases hp

end FunctionBody

namespace Module

/-- The walk over a body visits every instruction of the tree once, in the order of their offsets. All
offsets are in the code of the function, and there stands the first byte of the opcode. The calls of a
function that are reported are those on the walk, so their offsets ascend and at each of them stands the
byte of `call`. -/
theorem visits_of_functionBody {readCode : Bool} {file : Bytes} {m : Module}
    (hm : decode readCode file = .ok m) {i : Nat} {body : FunctionBody}
    (hbody : m.functionBody i = .ok body) :
    ∃ code, m.codes[i]? = some code ∧
      body.instructions.Visits (Instruction.walkAll body.instructions) ∧
      (Instruction.walkAll body.instructions).Pairwise (·.offset < ·.offset) ∧
      (∀ j ∈ Instruction.walkAll body.instructions, code.offset ≤ j.offset ∧
        j.offset < code.offset + code.size ∧ m.source[j.offset]? = some j.opcode.firstByte) ∧
      ∀ callee, ∃ offsets, m.functionCalls i callee = .ok offsets ∧ offsets.Pairwise (· < ·) ∧
        (∀ p, p ∈ offsets ↔ ∃ (r : Expr.Route) (j : Instruction),
          r.find? body.instructions = some j ∧ j.opcode = .call ∧ j.index? = some callee ∧
            j.offset = p) ∧
        ∀ p ∈ offsets, m.source[p]? = some 0x10 := by
  obtain ⟨code, hcode, hform⟩ := form_of_functionBody hbody
  have hstands := standsIn_of_decode hm code (List.mem_of_getElem? hcode)
  have hvisits := Expr.visits_walkAll body.instructions
  have hascending : (Instruction.walkAll body.instructions).Pairwise Instruction.Before := by
    obtain ⟨_, _, -, -, hinstructions⟩ := hform
    exact hinstructions.ascending
  have hsource : ∀ j ∈ Instruction.walkAll body.instructions,
      m.source[j.offset]? = some j.opcode.firstByte := fun j hj =>
    (hstands.foundIn (hform.foundIn j hj)).firstByte.2
  refine ⟨code, hcode, hvisits, hascending, fun j hj => ?_, fun callee => ?_⟩
  · obtain ⟨hle, hlt⟩ := (hform.foundIn j hj).bounds
    exact ⟨hle, hlt, hsource j hj⟩
  · refine ⟨body.callsOf callee, by rw [functionCalls, hbody]; rfl,
      FunctionBody.ascending_callsOf hascending callee, fun p => ?_, fun p hp => ?_⟩
    · simp only [FunctionBody.mem_callsOf_iff, hvisits.mem_iff]
      constructor
      · intro h
        obtain ⟨j, ⟨r, hr⟩, ⟨hopcode, hindex⟩, hoffset⟩ := h
        exact ⟨r, j, hr, hopcode, hindex, hoffset⟩
      · intro h
        obtain ⟨r, j, hr, hopcode, hindex, hoffset⟩ := h
        exact ⟨j, ⟨r, hr⟩, ⟨hopcode, hindex⟩, hoffset⟩
    · obtain ⟨j, hj, ⟨hopcode, -⟩, rfl⟩ := (body.mem_callsOf_iff callee p).mp hp
      rw [hsource j hj, hopcode]
      rfl

/-- A function that calls function 0 in both arms of an `if`, and function 1 behind it. -/
def bothArms : Module where
  source := [0x00, 0x61, 0x73, 0x6D, 1, 0, 0, 0, 3, 2, 1, 0, 10, 18, 1, 16,
    0, 0x41, 1, 0x04, 0x40, 0x10, 0, 0x05, 0x10, 0, 0x0B, 0x10, 1, 0xFC, 0, 0x0B]
  version := 1
  sections := [⟨.function, 2, 8, 10⟩, ⟨.code, 18, 12, 14⟩]
  functions := [0]
  codes := [⟨0, 16, [0, 0x41, 1, 0x04, 0x40, 0x10, 0, 0x05, 0x10, 0, 0x0B, 0x10, 1, 0xFC, 0, 0x0B]⟩]

def bothArmsBody : FunctionBody where
  locals := []
  instructions := [.plain .i32Const 17 (.i32 1),
    .ifElse 19 .empty [.plain .call 21 (.index 0)] [.plain .call 24 (.index 0)],
    .plain .call 27 (.index 1), .plain ⟨.misc, 0, by decide⟩ 29 .none]

/-- The call behind `else` is found behind the one in front of it, and is one of the tree. -/
theorem visits_of_functionBody_bothArms :
    decode true bothArms.source = .ok bothArms ∧ bothArms.functionBody 0 = .ok bothArmsBody ∧
      bothArms.functionCalls 0 0 = .ok [21, 24] ∧
      (∃ (r : Expr.Route) (j : Instruction), r.find? bothArmsBody.instructions = some j ∧
        j.opcode = .call ∧ j.index? = some 0 ∧ j.offset = 24) ∧
      bothArms.source[24]? = some 0x10 ∧ bothArms.source[29]? = some 0xFC := by
  have hm : decode true bothArms.source = .ok bothArms := rfl
  have hbody : bothArms.functionBody 0 = .ok bothArmsBody := rfl
  have hcalls : bothArms.functionCalls 0 0 = .ok [21, 24] := rfl
  obtain ⟨code, -, -, -, hfound, hreported⟩ := visits_of_functionBody hm hbody
  obtain ⟨offsets, hoffsets, -, hsites, hbytes⟩ := hreported 0
  rw [hcalls] at hoffsets
  cases hoffsets
  have hlast := (hfound (.plain ⟨.misc, 0, by decide⟩ 29 .none) (by
    simp [bothArmsBody, Instruction.walkAll, Instruction.walk])).2.2
  exact ⟨hm, hbody, hcalls, (hsites 24).mp (by simp), hbytes 24 (by simp), hlast⟩

end Module

end WasmBinary
