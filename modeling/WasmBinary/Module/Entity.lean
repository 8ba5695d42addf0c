import WasmBinary.Instruction.Basic

/-!
# Entities of a module

What the sections of a module define, import and export. Equality `==` of entities that hold
instructions compares floating-point constants as numbers.
-/
namespace WasmBinary

structure CustomSection where
  name : String
  contents : Bytes
  deriving DecidableEq

/-- What an import brings in. -/
inductive ImportItem where
  | func (type : Index)
  | table (type : TableType)
  | memory (limits : Limits)
  | global (type : GlobalType)
  | tag (type : Index)
  deriving DecidableEq

structure Import where
  module : String
  name : String
  item : ImportItem
  deriving DecidableEq

/-- The kinds of entities that cross the border of a module. -/
inductive ExternalKind where
  | func
  | table
  | memory
  | global
  | tag
  deriving DecidableEq

def ExternalKind.noun : ExternalKind → String
  | .func => "function"
  | .table => "table"
  | .memory => "memory"
  | .global => "global"
  | .tag => "tag"

structure Export where
  name : String
  kind : ExternalKind
  index : Index
  deriving DecidableEq

structure Global where
  type : GlobalType
  init : Expr
  deriving BEq

/-- When the items of an element segment reach a table. -/
inductive ElementMode where
  | active (table : Index) (offset : Expr)
  | passive
  | declarative
  deriving BEq

inductive ElementItems where
  | functions (indices : List Index)
  | expressions (items : List Expr)
  deriving BEq

/-- mirrors `len` of `ElemItems` -/
def ElementItems.length : ElementItems → Nat
  | .functions indices => indices.length
  | .expressions items => items.length

/-- An element segment. The flags say which parts were stored; parts that were not have their
default. -/
structure Element where
  flags : UInt32
  mode : ElementMode
  type : RefType
  items : ElementItems
  deriving BEq

/-- When a data segment is copied into memory, and where. -/
inductive DataMode where
  | active (offset : Expr)
  | passive
  | activeIn (memory : Index) (offset : Expr)
  deriving BEq

namespace DataMode

/-- The number that stores the mode. -/
def tag : DataMode → UInt32
  | active _ => 0
  | passive => 1
  | activeIn _ _ => 2

def isPassive : DataMode → Bool
  | passive => true
  | _ => false

/-- mirrors `offset` of `DataMode` -/
def offset? : DataMode → Option Expr
  | active offset => some offset
  | passive => none
  | activeIn _ offset => some offset

def memory? : DataMode → Option Index
  | activeIn memory _ => some memory
  | _ => none

end DataMode

structure DataSegment where
  mode : DataMode
  init : Bytes
  deriving BEq

/-- The code of a defined function: its place in the file and its bytes, not yet read. -/
structure Code where
  index : Nat      -- among the defined functions
  offset : Nat     -- of the first byte
  bytes : Bytes
  deriving DecidableEq

namespace Code

def size (c : Code) : Nat := c.bytes.length

/-- Whether a file offset lies in the code. -/
def contains (c : Code) (offset : Nat) : Bool := c.offset ≤ offset && offset < c.offset + c.size

end Code

end WasmBinary
