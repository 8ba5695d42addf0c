import WasmBinary.Comparison

/-!
# Sessions

A session is a module whose bodies are read once: a body that was read is kept and serves all later
questions. `Session.bodies` can hold nothing but what reading gives, so a session answers like the
module it holds; the lemmas below say so for each question.
-/
namespace WasmBinary

structure Session where
  module : Module
  bodies : List (Nat × FunctionBody) := []
  read : ∀ entry ∈ bodies, module.functionBody entry.1 = .ok entry.2 := by simp

namespace Session

/-- A session in which no body was read yet. -/
def start (m : Module) : Session := { module := m }

def isResolved (s : Session) (i : Nat) : Bool := (s.bodies.lookup i).isSome

/-- Whether each function with code had its body read. -/
def resolved (s : Session) : List Bool := s.module.codes.map fun c => s.isResolved c.index

/-- The body of a defined function.
mirrors `function_body` -/
def functionBody (s : Session) (i : Nat) : Except BodyError FunctionBody × Session :=
  match s.bodies.lookup i with
  | some body => (.ok body, s)
  | none =>
    match h : s.module.functionBody i with
    | .error e => (.error e, s)
    | .ok body =>
      (.ok body, { s with
        bodies := (i, body) :: s.bodies
        read := by
          intro entry hentry
          rcases List.mem_cons.mp hentry with rfl | hentry
          · exact h
          · exact s.read entry hentry })

/-- The calls of a function in a defined function.
mirrors `function_calls` -/
def functionCalls (s : Session) (i : Nat) (callee : Index) : Except BodyError (List Nat) × Session :=
  let (body, s) := s.functionBody i
  ((·.callsOf callee) <$> body, s)

/-- The text of a defined function.
mirrors `function` -/
def disassembly (s : Session) (offsets : Bool) (i : Nat) :
    Except DisassemblyError String × Session :=
  match s.functionBody i with
  | (.ok body, s) => (.ok (s.module.functionText offsets i body), s)
  | (.error e, s) => (.error (.body i e), s)

/-- Whether two sessions hold the same module and have read no body. -/
def sameUnread (s t : Session) : Bool := s.module == t.module && s.bodies.isEmpty && t.bodies.isEmpty

/-! ## Comparing functions -/

/-- How the functions of a pair compare. The left one is listed first. -/
def status (l r : Session) : Pair → Except DisassemblyError FunctionStatus × Session × Session
  | .both i j =>
    match l.disassembly false i with
    | (.error e, l) => (.error e, l, r)
    | (.ok a, l) =>
      let (b, r) := r.disassembly false j
      ((fun b => if a = b then .equal else .different) <$> b, l, r)
  | .left _ => (.ok .onlyInLeft, l, r)
  | .right _ => (.ok .onlyInRight, l, r)

/-- Compares pair after pair, up to the first that fails. -/
def statuses (l r : Session) : List (String × Pair) →
    Except DisassemblyError (List FunctionDifference) × Session × Session
  | [] => (.ok [], l, r)
  | (name, pair) :: rest =>
    match status l r pair with
    | (.error e, l, r) => (.error e, l, r)
    | (.ok status, l, r) =>
      let (rest, l, r) := statuses l r rest
      ((⟨name, status⟩ :: ·) <$> rest, l, r)

/-- Compares the functions that a filter selects.
mirrors `diff_functions` -/
def functionDifferences (l r : Session) (f : FunctionFilter) :
    Except DisassemblyError (List FunctionDifference) × Session × Session :=
  statuses l r (l.module.pairs r.module f)

/-! ## Sessions answer like their module -/

theorem lookup_mem {i : Nat} {body : FunctionBody} :
    ∀ {bodies : List (Nat × FunctionBody)}, bodies.lookup i = some body → (i, body) ∈ bodies
  | (j, b) :: rest, h => by
    rw [List.lookup_cons] at h
    split at h
    · rename_i hij
      cases h
      rw [eq_of_beq hij]
      exact List.mem_cons_self
    · exact List.mem_cons_of_mem _ (lookup_mem h)

theorem functionBody_fst (s : Session) (i : Nat) :
    (s.functionBody i).1 = s.module.functionBody i := by
  unfold functionBody
  split
  · rename_i body h
    exact (s.read _ (lookup_mem h)).symm
  · split <;> simp_all

theorem functionBody_module (s : Session) (i : Nat) : (s.functionBody i).2.module = s.module := by
  unfold functionBody
  split
  · rfl
  · split <;> rfl

theorem functionCalls_fst (s : Session) (i : Nat) (callee : Index) :
    (s.functionCalls i callee).1 = s.module.functionCalls i callee := by
  simp [functionCalls, Module.functionCalls, functionBody_fst]

theorem disassembly_fst (s : Session) (offsets : Bool) (i : Nat) :
    (s.disassembly offsets i).1 = s.module.disassembly offsets i := by
  unfold disassembly Module.disassembly
  rw [← functionBody_fst]
  have := functionBody_module s i
  split <;> simp_all

theorem disassembly_module (s : Session) (offsets : Bool) (i : Nat) :
    (s.disassembly offsets i).2.module = s.module := by
  unfold disassembly
  have := functionBody_module s i
  split <;> simp_all

theorem status_fst (l r : Session) (p : Pair) :
    (status l r p).1 = p.status l.module r.module := by
  cases p with
  | both i j =>
    simp only [status, Pair.status, ← disassembly_fst]
    split <;> rename_i h <;> simp only [h, bind, Except.bind]
    cases (r.disassembly false j).1 <;> rfl
  | left i => rfl
  | right j => rfl

theorem status_modules (l r : Session) (p : Pair) :
    (status l r p).2.1.module = l.module ∧ (status l r p).2.2.module = r.module := by
  cases p with
  | both i j =>
    have hl := disassembly_module l false i
    have hr := disassembly_module r false j
    simp only [status]
    split <;> simp_all
  | left i => exact ⟨rfl, rfl⟩
  | right j => exact ⟨rfl, rfl⟩

theorem functionDifferences_fst (l r : Session) (f : FunctionFilter) :
    (l.functionDifferences r f).1 = l.module.functionDifferences r.module f := by
  unfold functionDifferences Module.functionDifferences
  generalize l.module.pairs r.module f = pairs
  induction pairs generalizing l r with
  | nil => rfl
  | cons head rest ih =>
    obtain ⟨name, pair⟩ := head
    have hstatus := status_fst l r pair
    have hmodules := status_modules l r pair
    simp only [statuses, List.mapM_cons, bind, Except.bind]
    split <;> rename_i h <;> rw [h] at hstatus hmodules <;> rw [← hstatus]
    · rename_i status l' r'
      rw [ih l' r', hmodules.1, hmodules.2]
      simp only [bind, Except.bind, pure, Except.pure]
      split <;> rename_i hrest <;> rw [hrest] <;> rfl

end Session

end WasmBinary
