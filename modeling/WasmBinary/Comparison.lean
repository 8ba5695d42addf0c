import WasmBinary.Disassembly

/-!
# Comparing modules

Two modules are compared by their section tables and by how many entities of each kind they have,
and on request function by function through their listings. Functions are matched by name; those
that share a name are paired in the order of their indices and numbered.
-/
namespace WasmBinary

/-! ## Sections and counts -/

inductive Difference where
  | sectionCount (left right : Nat)
  | sectionKind (position : Nat) (left right : SectionKind)
  | sectionSize (position : Nat) (kind : SectionKind) (left right : UInt32)
  | entityCount (entity : String) (left right : Nat)
  deriving DecidableEq

namespace Difference

/-- mirrors `fmt` of `Difference` -/
def text : Difference → String
  | sectionCount left right =>
    "section count differs: " ++ toString left ++ " vs " ++ toString right
  | sectionKind position left right =>
    "section " ++ toString position ++ " differs: " ++ left.text ++ " vs " ++ right.text
  | sectionSize position kind left right =>
    "section " ++ toString position ++ " (" ++ kind.text ++ ") size differs: " ++ toString left
      ++ " vs " ++ toString right
  | entityCount entity left right =>
    entity ++ " count differs: " ++ toString left ++ " vs " ++ toString right

/-- The differences of two section tables from a position on, as far as both go. -/
def ofSections : (position : Nat) → List Section → List Section → List Difference
  | position, l :: left, r :: right =>
    let rest := ofSections (position + 1) left right
    if l.kind ≠ r.kind then sectionKind position l.kind r.kind :: rest
    else if l.size ≠ r.size then sectionSize position l.kind l.size r.size :: rest
    else rest
  | _, _, _ => []

end Difference

namespace Module

/-- The number of entities of each kind. -/
def entityCounts (m : Module) : List (String × Nat) :=
  [("type", m.types.length), ("import", m.imports.length), ("function", m.functions.length),
    ("table", m.tables.length), ("memory", m.memories.length), ("global", m.globals.length),
    ("export", m.exports.length), ("element", m.elements.length), ("data", m.datas.length)]

/-- The differences in the section tables and the entity counts.
mirrors `summary_differences` -/
def differences (left right : Module) : List Difference :=
  (if left.sections.length ≠ right.sections.length then
      [.sectionCount left.sections.length right.sections.length]
    else [])
    ++ Difference.ofSections 0 left.sections right.sections
    ++ (left.entityCounts.zip right.entityCounts).filterMap fun ((entity, l), (_, r)) =>
      if l ≠ r then some (.entityCount entity l r) else none

end Module

/-! ## Functions -/

inductive FunctionStatus where
  | equal
  | different
  | onlyInLeft
  | onlyInRight
  deriving DecidableEq

structure FunctionDifference where
  name : String
  status : FunctionStatus
  deriving DecidableEq

/-- Functions of two modules that are compared with each other, or one that has no counterpart. -/
inductive Pair where
  | both (left right : Nat)
  | left (i : Nat)
  | right (i : Nat)
  deriving DecidableEq

namespace Pair

/-- Pairs two lists place by place; what is left of the longer one stays single. -/
def zip : List Nat → List Nat → List Pair
  | l :: ls, r :: rs => both l r :: zip ls rs
  | ls, [] => ls.map left
  | [], rs => rs.map right

/-- The pairs of functions with one name, each with the name to show. Functions that share it are
numbered. -/
def named (name : String) (ls rs : List Nat) : List (String × Pair) :=
  if 1 < ls.length ∨ 1 < rs.length then
    (zip ls rs).mapIdx fun k pair => (name ++ "#" ++ toString k, pair)
  else (zip ls rs).map ((name, ·))

/-- How the functions of a pair compare. The left one is listed first. -/
def status (left right : Module) : Pair → Except DisassemblyError FunctionStatus
  | both l r => do
    let l ← left.disassembly false l
    let r ← right.disassembly false r
    return if l = r then .equal else .different
  | Pair.left _ => return .onlyInLeft
  | Pair.right _ => return .onlyInRight

end Pair

namespace Module

/-- The pairs of the functions that a filter selects, by ascending name. -/
def pairs (left right : Module) (f : FunctionFilter) : List (String × Pair) :=
  let ls := (left.selection f).map fun i => (left.functionName i, i)
  let rs := (right.selection f).map fun i => (right.functionName i, i)
  let names := ((ls ++ rs).map Prod.fst).mergeSort (· ≤ ·) |>.eraseReps
  let indices (name : String) (functions : List (String × Nat)) : List Nat :=
    (functions.filter (·.1 = name)).map Prod.snd
  names.flatMap fun name => Pair.named name (indices name ls) (indices name rs)

/-- Compares the functions that a filter selects.
mirrors `diff_functions` -/
def functionDifferences (left right : Module) (f : FunctionFilter) :
    Except DisassemblyError (List FunctionDifference) :=
  (left.pairs right f).mapM fun (name, pair) => do
    return ⟨name, ← pair.status left right⟩

end Module

/-! ## Reports -/

/-- mirrors `DiffReport` -/
structure Comparison where
  differences : List Difference
  functions : List FunctionDifference   -- empty unless functions are compared
  deriving DecidableEq

namespace Comparison

/-- Compares two modules, and the functions that a filter selects if there is one.
mirrors `diff_modules` -/
def of (left right : Module) (functions : Option FunctionFilter) :
    Except DisassemblyError Comparison := do
  let functions ←
    match functions with
    | some f => left.functionDifferences right f
    | none => pure []
  return ⟨left.differences right, functions⟩

/-- mirrors `is_equal` -/
def isEqual (c : Comparison) : Bool := c.differences.isEmpty && c.functions.all (·.status = .equal)

/-- Zero if nothing differs.
mirrors `exit_code` -/
def exitCode (c : Comparison) : UInt8 := if c.isEqual then 0 else 1

end Comparison

end WasmBinary
