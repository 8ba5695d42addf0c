import WasmBinary.Session
import WasmBinary.Proofs.CodePlaces

/-!
# Runs of queries

A session is asked many things, in any order: for bodies, calls, listings, selections, and to be compared
with other modules. It answers each query as if it was the first. What it keeps from one query to the
next are the bodies that were requested and could be read.

* `Session.Query`, `Session.ask`, `Session.run`: queries and runs of them.
* `Session.Query.requests`: the bodies that a query requests.
* `Session.Reads`: a session after some bodies were requested; `reads_ask` for one query, `reads_run`
  for a run.
* `Session.run_start`: the answers of a run and the bodies that are kept.
-/
namespace WasmBinary

namespace Session

/-! ## Queries -/

inductive Query where
  | body (i : Nat)
  | calls (i : Nat) (callee : Index)
  | disassembly (offsets : Bool) (i : Nat)
  | selection (f : FunctionFilter)
  /-- Compares the functions with those of another module, which is in any state. -/
  | compareWith (other : Session) (f : FunctionFilter)
  /-- The same with the other module on the left. -/
  | compareTo (other : Session) (f : FunctionFilter)

inductive Answer where
  | body (result : Except BodyError FunctionBody)
  | calls (result : Except BodyError (List Nat))
  | disassembly (result : Except DisassemblyError String)
  | selection (functions : List Nat)
  | differences (result : Except DisassemblyError (List FunctionDifference))

/-- The answer to a query, and the session after it. -/
def ask (s : Session) : Query → Answer × Session
  | .body i => (.body (s.functionBody i).1, (s.functionBody i).2)
  | .calls i callee => (.calls (s.functionCalls i callee).1, (s.functionCalls i callee).2)
  | .disassembly offsets i =>
    (.disassembly (s.disassembly offsets i).1, (s.disassembly offsets i).2)
  | .selection f => (.selection (s.module.selection f), s)
  | .compareWith other f =>
    let (result, s', _) := s.functionDifferences other f
    (.differences result, s')
  | .compareTo other f =>
    let (result, _, s') := other.functionDifferences s f
    (.differences result, s')

/-- The answers to queries that come one after the other, and the session after the last. -/
def run (s : Session) : List Query → List Answer × Session
  | [] => ([], s)
  | q :: qs => ((s.ask q).1 :: ((s.ask q).2.run qs).1, ((s.ask q).2.run qs).2)

/-- The query put to modules of which no body was read. -/
def Query.fresh : Query → Query
  | .compareWith other f => .compareWith (start other.module) f
  | .compareTo other f => .compareTo (start other.module) f
  | q => q

end Session

/-! ## Requested bodies -/

/-- The bodies that comparing a pair requests. The right one is left alone if the left one cannot be
read. -/
def Pair.requests (left : Module) : Pair → List Nat × List Nat
  | both i j => ([i], if (left.functionBody i).isOk then [j] else [])
  | Pair.left _ | Pair.right _ => ([], [])

/-- The bodies that comparing pair after pair requests, up to the first pair that fails. -/
def Pair.requestsAll (left right : Module) : List (String × Pair) → List Nat × List Nat
  | [] => ([], [])
  | (_, pair) :: rest =>
    if (pair.status left right).isOk then
      ((pair.requests left).1 ++ (requestsAll left right rest).1,
        (pair.requests left).2 ++ (requestsAll left right rest).2)
    else pair.requests left

namespace Session

/-- The bodies of a module that a query requests. -/
def Query.requests (m : Module) : Query → List Nat
  | .body i | .calls i _ | .disassembly _ i => [i]
  | .selection _ => []
  | .compareWith other f => (Pair.requestsAll m other.module (m.pairs other.module f)).1
  | .compareTo other f => (Pair.requestsAll other.module m (other.module.pairs m f)).2

/-- The session `s'` is `s` after the bodies of some functions were requested: of those it has the ones
that can be read, of others what `s` has. -/
structure Reads (s : Session) (requested : List Nat) (s' : Session) : Prop where
  module_eq : s'.module = s.module
  lookup_iff (i : Nat) (body : FunctionBody) : s'.bodies.lookup i = some body ↔
    s.bodies.lookup i = some body ∨ i ∈ requested ∧ s.module.functionBody i = .ok body

namespace Reads

variable {s s' s'' : Session} {requested requested' : List Nat}

theorem nothing (s : Session) : s.Reads [] s := ⟨rfl, fun i body => by simp⟩

theorem append (h : s.Reads requested s') (h' : s'.Reads requested' s'') :
    s.Reads (requested ++ requested') s'' := by
  refine ⟨h'.module_eq.trans h.module_eq, fun i body => ?_⟩
  rw [h'.lookup_iff, h.lookup_iff, h.module_eq, List.mem_append, or_and_right, or_assoc]

theorem lookup_of_not_mem (h : s.Reads requested s') {i : Nat} (hi : i ∉ requested) :
    s'.bodies.lookup i = s.bodies.lookup i := by
  refine Option.ext fun body => ?_
  rw [h.lookup_iff]
  simp [hi]

theorem isResolved_mono (h : s.Reads requested s') {i : Nat} (hi : s.isResolved i = true) :
    s'.isResolved i = true := by
  obtain ⟨body, hbody⟩ := Option.isSome_iff_exists.mp hi
  exact Option.isSome_iff_exists.mpr ⟨body, (h.lookup_iff i body).mpr (.inl hbody)⟩

end Reads

theorem functionBody_of_lookup (s : Session) {i : Nat} {body : FunctionBody}
    (h : s.bodies.lookup i = some body) : s.module.functionBody i = .ok body :=
  s.read _ (lookup_mem h)

theorem reads_functionBody (s : Session) (i : Nat) : s.Reads [i] (s.functionBody i).2 := by
  refine ⟨s.functionBody_module i, fun j body => ?_⟩
  rw [List.mem_singleton]
  unfold functionBody
  split
  · rename_i found hfound
    refine ⟨.inl, ?_⟩
    rintro (h | ⟨rfl, h⟩)
    · exact h
    · rw [s.functionBody_of_lookup hfound] at h
      cases h
      exact hfound
  · rename_i hnone
    split
    · rename_i e he
      refine ⟨.inl, ?_⟩
      rintro (h | ⟨rfl, h⟩)
      · exact h
      · rw [he] at h
        cases h
    · rename_i found hfound
      change ((i, found) :: s.bodies).lookup j = some body ↔ _
      rw [List.lookup_cons]
      by_cases hji : j = i
      · subst hji
        simp [hnone, hfound]
      · rw [beq_false_of_ne hji]
        simp [hji]

theorem disassembly_snd (s : Session) (offsets : Bool) (i : Nat) :
    (s.disassembly offsets i).2 = (s.functionBody i).2 := by
  unfold disassembly
  split <;> rename_i h <;> rw [h]

theorem isOk_disassembly (m : Module) (offsets : Bool) (i : Nat) :
    (m.disassembly offsets i).isOk = (m.functionBody i).isOk := by
  rw [Module.disassembly]
  cases m.functionBody i <;> rfl

/-! ## Comparing functions -/

theorem reads_status (l r : Session) (p : Pair) :
    l.Reads (p.requests l.module).1 (status l r p).2.1 ∧
      r.Reads (p.requests l.module).2 (status l r p).2.2 := by
  cases p with
  | both i j =>
    have hl := l.reads_functionBody i
    have hr := r.reads_functionBody j
    have hfirst := isOk_disassembly l.module false i
    rw [← disassembly_snd l false] at hl
    rw [← disassembly_snd r false] at hr
    rw [← disassembly_fst] at hfirst
    simp only [Pair.requests, ← hfirst, status]
    split <;> rename_i h <;> rw [h] at hl ⊢
    · exact ⟨hl, .nothing r⟩
    · exact ⟨hl, hr⟩
  | left i => exact ⟨.nothing l, .nothing r⟩
  | right j => exact ⟨.nothing l, .nothing r⟩

theorem reads_statuses (pairs : List (String × Pair)) : ∀ l r : Session,
    l.Reads (Pair.requestsAll l.module r.module pairs).1 (statuses l r pairs).2.1 ∧
      r.Reads (Pair.requestsAll l.module r.module pairs).2 (statuses l r pairs).2.2 := by
  induction pairs with
  | nil => exact fun l r => ⟨.nothing l, .nothing r⟩
  | cons head rest ih =>
    intro l r
    obtain ⟨name, pair⟩ := head
    obtain ⟨hl, hr⟩ := reads_status l r pair
    have hstatus := status_fst l r pair
    simp only [Pair.requestsAll, statuses, ← hstatus]
    generalize status l r pair = found at hl hr ⊢
    obtain ⟨result, l', r'⟩ := found
    cases result with
    | error e => exact ⟨hl, hr⟩
    | ok found =>
      obtain ⟨hl', hr'⟩ := ih l' r'
      rw [hl.module_eq, hr.module_eq] at hl' hr'
      exact ⟨hl.append hl', hr.append hr'⟩

theorem reads_functionDifferences (l r : Session) (f : FunctionFilter) :
    l.Reads (Pair.requestsAll l.module r.module (l.module.pairs r.module f)).1
        (l.functionDifferences r f).2.1 ∧
      r.Reads (Pair.requestsAll l.module r.module (l.module.pairs r.module f)).2
        (l.functionDifferences r f).2.2 :=
  reads_statuses _ l r

/-! ## Runs -/

/-- After a query the session has what the query requested. -/
theorem reads_ask (s : Session) (q : Query) : s.Reads (q.requests s.module) (s.ask q).2 := by
  cases q with
  | body i | calls i callee => exact s.reads_functionBody i
  | disassembly offsets i =>
    change s.Reads [i] (s.disassembly offsets i).2
    rw [disassembly_snd]
    exact s.reads_functionBody i
  | selection f => exact .nothing s
  | compareWith other f => exact (s.reads_functionDifferences other f).1
  | compareTo other f => exact (other.reads_functionDifferences s f).2

/-- A query is answered as if it was the first. -/
theorem ask_fst (s : Session) (q : Query) : (s.ask q).1 = ((start s.module).ask q.fresh).1 := by
  cases q with
  | body i => simp only [ask, Query.fresh, functionBody_fst, start]
  | calls i callee => simp only [ask, Query.fresh, functionCalls_fst, start]
  | disassembly offsets i => simp only [ask, Query.fresh, disassembly_fst, start]
  | selection f => rfl
  | compareWith other f | compareTo other f =>
    simp only [ask, Query.fresh, functionDifferences_fst, start]

theorem reads_run (qs : List Query) : ∀ s : Session,
    s.Reads (qs.flatMap (Query.requests s.module)) (s.run qs).2 := by
  induction qs with
  | nil => exact .nothing
  | cons q qs ih =>
    intro s
    have hfirst := s.reads_ask q
    have hrest := ih (s.ask q).2
    rw [hfirst.module_eq] at hrest
    exact hfirst.append hrest

theorem run_fst (qs : List Query) : ∀ s : Session,
    (s.run qs).1 = qs.map fun q => ((start s.module).ask q.fresh).1 := by
  induction qs with
  | nil => exact fun _ => rfl
  | cons q qs ih =>
    intro s
    rw [run, ih, (s.reads_ask q).module_eq, s.ask_fst q, List.map_cons]

/-- Every query of a run is answered as if it was the first, put to modules of which no body was read.
After the run the entry of a function is resolved exactly if a query of the run requested its body
and the body can be read. One more query changes only the entries whose bodies it requests, and leaves
resolved entries resolved. -/
theorem run_start {readCode : Bool} {file : Bytes} {m : Module}
    (hm : Module.decode readCode file = .ok m) (qs : List Query) :
    ((start m).run qs).1 = qs.map (fun q => ((start m).ask q.fresh).1) ∧
      (∀ i c, m.codes[i]? = some c → (((start m).run qs).2.isResolved c.index = true ↔
        ∃ q ∈ qs, i ∈ q.requests m ∧ ∃ body, m.functionBody i = .ok body)) ∧
      ∀ (q : Query) (i : Nat),
        (i ∉ q.requests m → (((start m).run qs).2.ask q).2.bodies.lookup i =
          ((start m).run qs).2.bodies.lookup i) ∧
        (((start m).run qs).2.isResolved i = true →
          (((start m).run qs).2.ask q).2.isResolved i = true) := by
  have hrun := reads_run qs (start m)
  refine ⟨run_fst qs (start m), fun i c hc => ?_, fun q i => ?_⟩
  · rw [Module.numbered_of_decode hm i c hc, isResolved, Option.isSome_iff_exists]
    simp only [hrun.lookup_iff, List.mem_flatMap]
    constructor
    · rintro ⟨body, hnone | ⟨⟨q, hq, hi⟩, hbody⟩⟩
      · cases hnone
      · exact ⟨q, hq, hi, body, hbody⟩
    · rintro ⟨q, hq, hi, body, hbody⟩
      exact ⟨body, .inr ⟨⟨q, hq, hi⟩, hbody⟩⟩
  · have hask := ((start m).run qs).2.reads_ask q
    have hmodule : ((start m).run qs).2.module = m := hrun.module_eq
    rw [hmodule] at hask
    exact ⟨hask.lookup_of_not_mem, hask.isResolved_mono⟩

/-- A module with two functions. The code of the second ends inside a call. -/
def cutCall : Module where
  source := [0x00, 0x61, 0x73, 0x6D, 1, 0, 0, 0, 3, 3, 2, 0, 0, 10, 8, 2, 3, 0, 0x01, 0x0B, 2, 0, 0x10]
  version := 1
  sections := [⟨.function, 3, 8, 10⟩, ⟨.code, 8, 13, 15⟩]
  functions := [0, 0]
  codes := [⟨0, 17, [0, 0x01, 0x0B]⟩, ⟨1, 21, [0, 0x10]⟩]

/-- The second function cannot be read, whether its text or a comparison asks for it. The calls of the
first one can. -/
theorem run_start_cutCall :
    Module.decode true cutCall.source = .ok cutCall ∧
      let queries := [.disassembly false 1, .compareWith (start cutCall) {}, .calls 0 1]
      ((start cutCall).run queries).2.isResolved 0 = true ∧
        ((start cutCall).run queries).2.isResolved 1 = false := by
  have hm : Module.decode true cutCall.source = .ok cutCall := rfl
  obtain ⟨-, hresolved, -⟩ :=
    run_start hm [.disassembly false 1, .compareWith (start cutCall) {}, .calls 0 1]
  refine ⟨hm, (hresolved 0 _ rfl).mpr ⟨.calls 0 1, by simp, List.mem_singleton_self 0, _, rfl⟩, ?_⟩
  rw [Bool.eq_false_iff]
  intro h
  obtain ⟨q, -, -, body, hbody⟩ := (hresolved 1 _ rfl).mp h
  cases hbody

end Session

end WasmBinary
