import WasmBinary.Module.Body
import WasmBinary.Instruction.Basic

/-!
# Listings

Texts about a module, for people and for comparison: `Module.summary` lists the sections,
`Module.details` the entities, and `Module.disassembly` a function with its instruction tree, one
instruction a line and two more columns for each level of nesting.
-/
namespace WasmBinary

/-- mirrors `DisassembleError` -/
inductive DisassemblyError where
  | body (function : Nat) (cause : BodyError)

instance : Reportable DisassemblyError where
  report
    | .body function cause =>
      .because ("failed decoding function " ++ toString function) (report cause)

namespace Listing

/-- A line, indented by two columns a level.
mirrors `write_line` -/
def line (level : Nat) (text : String) : String :=
  String.ofList (List.replicate (2 * level) ' ') ++ text ++ "\n"

/-- Instructions in brackets, each behind the given text. -/
def bracketed (before : String) (expr : Expr) : String :=
  String.join (expr.map fun i => before ++ "(" ++ i.text ++ ")")

end Listing

namespace Module

open Listing

/-! ## Sections -/

/-- Pairs each section with the custom section that it holds, if it holds one. -/
def pairCustoms : List Section → List CustomSection → List (Section × Option CustomSection)
  | [], _ => []
  | s :: rest, [] => (s, none) :: pairCustoms rest []
  | s :: rest, custom :: customs =>
    if s.kind = .custom then (s, some custom) :: pairCustoms rest customs
    else (s, none) :: pairCustoms rest (custom :: customs)

/-- The name, size, version and sections of a module; `path` says where it came from.
mirrors `summary` -/
def summary (m : Module) (path : String) : String :=
  let name :=
    match m.names.module with
    | some name => if name.isEmpty then "" else " name: " ++ name
    | none => ""
  let sectionLine : Section × Option CustomSection → String
    | (s, custom) =>
      line 2 ("id: " ++ s.kind.text
        ++ (match custom with | some custom => " name: " ++ custom.name | none => "")
        ++ " size: " ++ toString s.size)
  line 0 ("Module:" ++ name ++ " path: " ++ path)
    ++ line 1 ("size: " ++ toString m.source.length)
    ++ line 1 ("binary format version: " ++ toString m.version)
    ++ line 1 ("sections: " ++ toString m.sections.length)
    ++ String.join ((pairCustoms m.sections m.customs).map sectionLine)

/-! ## Entities -/

/-- A heading with the number of entities, and a line for each; nothing if there are none. -/
def listed {α : Type} (heading : String) (entities : List α) (row : Nat → α → String) : String :=
  if entities.isEmpty then ""
  else
    line 0 (heading ++ " section count: " ++ toString entities.length)
      ++ String.join (entities.mapIdx fun i a => line 1 (row i a))

def importText (i : Import) : String :=
  i.module ++ "." ++ i.name ++ ": "
    ++ match i.item with
      | .func type => "func (type " ++ toString type ++ ")"
      | .table type => "table " ++ type.text
      | .memory limits => "memory " ++ limits.text
      | .global type => "global " ++ type.text
      | .tag type => "tag (type " ++ toString type ++ ")"

def globalText (m : Module) (i : Nat) (g : Global) : String :=
  let i := UInt32.ofNat (m.importedGlobalCount + i)
  "global[" ++ toString i ++ "] " ++ m.globalName i ++ " " ++ g.type.text ++ bracketed " " g.init

def exportText (e : Export) : String := e.name ++ ": " ++ e.kind.noun ++ " " ++ toString e.index

def elementText (i : Nat) (e : Element) : String :=
  "element[" ++ toString i ++ "] flags: " ++ toString e.flags ++ " " ++ e.type.text
    ++ (match e.mode with
      | .active table offset => " table: " ++ toString table ++ " offset:" ++ bracketed " " offset
      | .passive => " passive"
      | .declarative => " declarative")
    ++ (match e.items with | .functions _ => " functions: " | .expressions _ => " expressions: ")
    ++ toString e.items.length

def dataText (m : Module) (i : Nat) (d : DataSegment) : String :=
  "data[" ++ toString i ++ "]"
    ++ (match m.names.dataSegments.get? (UInt32.ofNat i) with
      | some name => " " ++ name
      | none => "")
    ++ (match d.mode with
      | .active offset => bracketed " offset: " offset
      | .passive => " passive"
      | .activeIn memory offset =>
        " memory: " ++ toString memory ++ bracketed " offset: " offset)
    ++ " size: " ++ toString d.init.length

/-- The entities of a module, section by section.
mirrors `details` -/
def details (m : Module) : String :=
  listed "Type" m.types (fun i t => "type[" ++ toString i ++ "]: " ++ t.text)
    ++ listed "Import" m.imports (fun _ i => importText i)
    ++ (if m.functions.isEmpty then ""
      else line 0 ("Function section count: " ++ toString m.functions.length))
    ++ String.join (m.tables.mapIdx fun i t => line 0 ("Table " ++ toString i ++ ": " ++ t.text))
    ++ String.join
      (m.memories.mapIdx fun i l => line 0 ("Memory " ++ toString i ++ ": " ++ l.text))
    ++ listed "Global" m.globals m.globalText
    ++ listed "Export" m.exports (fun _ e => exportText e)
    ++ (match m.start with
      | some start => line 0 ("Start function: " ++ m.functionNameAbsolute start.toNat)
      | none => "")
    ++ listed "Element" m.elements elementText
    ++ (match m.dataCount with
      | some count => line 0 ("DataCount: " ++ toString count)
      | none => "")
    ++ listed "Data" m.datas m.dataText

/-! ## Functions -/

/-- The first line of a defined function: its name and its signature, with the names of its
parameters.
mirrors `signature` -/
def signature (m : Module) (i : Nat) : String :=
  let parameter (j : Nat) (type : ValueType) : String :=
    match m.names.local? (UInt32.ofNat (m.importedFunctionCount + i)) (UInt32.ofNat j) with
    | some name => " (param $" ++ name ++ " " ++ type.text ++ ")"
    | none => " (param " ++ type.text ++ ")"
  let types :=
    match m.functionType? i with
    | some type =>
      String.join (type.parameters.mapIdx parameter) ++ ValueType.group "result" type.results
    | none => ""
  "(func $" ++ m.functionName i ++ types ++ ")"

/-- The text of an instruction, with the name of the function or global that it refers to.
mirrors `render` -/
def instructionText (m : Module) (i : Instruction) : String :=
  let name? :=
    match i.index? with
    | some index =>
      if i.opcode = .call ∨ i.opcode = .refFunc then some (m.functionNameAbsolute index.toNat)
      else if i.opcode = .globalGet ∨ i.opcode = .globalSet then some (m.globalName index)
      else none
    | none => none
  match name? with
  | some name => i.text ++ " <" ++ name ++ ">"
  | none => i.text

/-- A line of the instruction tree. With `offsets`, an instruction has its offset in front, and a
line that is no instruction as many columns of space. -/
def treeLine (offsets : Bool) (offset : Option Nat) (level : Nat) (text : String) : String :=
  let margin :=
    match offsets, offset with
    | false, _ => ""
    | true, some offset => "[0x" ++ Text.Hex.lower 6 offset ++ "] "
    | true, none => "           "
  margin ++ line level text

mutual

/-- An instruction and what it nests, at a level of nesting. -/
def tree (m : Module) (offsets : Bool) (level : Nat) : Instruction → String
  | i@(.plain _ offset _) => treeLine offsets (some offset) level (m.instructionText i)
  | i@(.block _ offset _ body) =>
    treeLine offsets (some offset) level (m.instructionText i)
      ++ m.trees offsets (level + 1) body
      ++ treeLine offsets none level "end"
  | i@(.ifElse offset _ body alternative) =>
    treeLine offsets (some offset) level (m.instructionText i)
      ++ m.trees offsets (level + 1) body
      ++ treeLine offsets none level "else"
      ++ m.trees offsets (level + 1) alternative
      ++ treeLine offsets none level "end"
  | i@(.tryDelegate offset _ body label) =>
    treeLine offsets (some offset) level (m.instructionText i)
      ++ m.trees offsets (level + 1) body
      ++ treeLine offsets none level ("delegate " ++ toString label)

/-- The instructions of a sequence, one after the other.
mirrors `write_instructions` -/
def trees (m : Module) (offsets : Bool) (level : Nat) : List Instruction → String
  | [] => ""
  | i :: rest => m.tree offsets level i ++ m.trees offsets level rest

end

/-- The signature, locals and instructions of a defined function with the given body. -/
def functionText (m : Module) (offsets : Bool) (i : Nat) (body : FunctionBody) : String :=
  line 0 (m.signature i)
    ++ String.join (body.locals.map fun run =>
      line 1 ("(local " ++ toString run.count ++ " x " ++ run.type.text ++ ")"))
    ++ m.trees offsets 1 body.instructions

/-- The text of a defined function.
mirrors `function` -/
def disassembly (m : Module) (offsets : Bool) (i : Nat) : Except DisassemblyError String :=
  match m.functionBody i with
  | .ok body => .ok (m.functionText offsets i body)
  | .error cause => .error (.body i cause)

end Module

end WasmBinary
