import WasmBinary.Types.Basic

/-!
# Names

What the `name` section tells about a module. A `NameMap` keeps its entries in the order in which
they arrived; an index that arrives a second time does not replace the first name, it gives a
`Warning`. `Names.functionIndex?` is the reverse of the function names: of several indices with one
name it finds the one that arrived last.
-/
namespace WasmBinary

/-- Names by index, in the order of arrival, with at most one name for an index. -/
structure NameMap where
  entries : List (Index × String)
  deriving DecidableEq

namespace NameMap

def empty : NameMap := ⟨[]⟩

def isEmpty (m : NameMap) : Bool := m.entries.isEmpty

def get? (m : NameMap) (i : Index) : Option String := m.entries.lookup i

/-- Adds a name for an index that has none. -/
def push (m : NameMap) (i : Index) (name : String) : NameMap := ⟨m.entries ++ [(i, name)]⟩

/-- The entries by ascending index. -/
def sorted (m : NameMap) : List (Index × String) := m.entries.mergeSort (·.1 ≤ ·.1)

/-- The index whose entry with this name arrived last. -/
def indexOf? (m : NameMap) (name : String) : Option Index :=
  (m.entries.reverse.find? (·.2 == name)).map Prod.fst

/-- The names, each once, by ascending code points, with the index that `indexOf?` finds. -/
def reverse (m : NameMap) : List (String × Index) :=
  let names := (m.entries.map Prod.snd).mergeSort (· ≤ ·) |>.eraseReps
  names.filterMap fun name => (m.indexOf? name).map (name, ·)

end NameMap

/-- The maps that an entry can be repeated in. -/
inductive NameKind where
  | function
  | localVariable
  | global
  | dataSegment
  deriving DecidableEq

def NameKind.text : NameKind → String
  | .function => "function"
  | .localVariable => "local"
  | .global => "global"
  | .dataSegment => "data segment"

/-- An entry of the `name` section that was not kept. -/
inductive Warning where
  | duplicateName (kind : NameKind) (index : Index) (name : String)
  | duplicateLocalMap (function : Index)
  deriving DecidableEq

/-- mirrors `fmt` of `DecodeWarning` -/
def Warning.text : Warning → String
  | .duplicateName kind index name =>
    "duplicate " ++ kind.text ++ " idx: " ++ toString index ++ " name: " ++ name ++ " ignored"
  | .duplicateLocalMap function =>
    "duplicate function idx: " ++ toString function ++ " in local names map ignored"

structure Names where
  module : Option String := none
  functions : NameMap := .empty              -- imported functions come first
  locals : List (Index × NameMap) := []      -- by function
  globals : NameMap := .empty
  dataSegments : NameMap := .empty
  deriving DecidableEq

namespace Names

/-- mirrors `is_empty` -/
def isEmpty (n : Names) : Bool :=
  n.module.isNone && n.functions.isEmpty && n.locals.isEmpty && n.globals.isEmpty
    && n.dataSegments.isEmpty

/-- mirrors `local` of `Names` -/
def local? (n : Names) (function i : Index) : Option String :=
  (n.locals.lookup function).bind (·.get? i)

/-- The maps of local names by ascending function index. -/
def sortedLocals (n : Names) : List (Index × NameMap) := n.locals.mergeSort (·.1 ≤ ·.1)

/-- The index with a function name; the last to arrive, if there are several. -/
def functionIndex? (n : Names) (name : String) : Option Index := n.functions.indexOf? name

end Names

end WasmBinary
