import WasmBinary.Cli.Command
import WasmBinary.Comparison
import WasmBinary.Module.Decode
import WasmBinary.Template
import WasmBinary.Text

/-!
# Running commands

A command is a function of its `World`: the files it finds, the bytes on standard input, and what it
has printed so far. It ends with an exit code or with a report, which the outer layer prints; what
was printed or written before that stays.
-/
namespace WasmBinary.Cli

/-- What a command sees and changes. -/
structure World where
  files : List (String × Bytes)
  directories : List String := []   -- apart from the current one
  stdin : Bytes := []
  stdout : Bytes := []
  stderr : String := ""

/-! ## Paths -/

namespace Path

/-- The names along a path; the current directory adds none. -/
def names (path : String) : List String := (path.splitOn "/").filter fun n => n ≠ "" ∧ n ≠ "."

/-- Whether two paths lead to the same place. -/
def same (p q : String) : Bool := names p == names q && p.startsWith "/" == q.startsWith "/"

/-- The last name of a path. -/
def fileName? (path : String) : Option String :=
  match (names path).getLast? with
  | some ".." => none
  | name? => name?

/-- The path of the directory that holds a file. -/
def parent (path : String) : String :=
  (if path.startsWith "/" then "/" else "") ++ "/".intercalate (names path).dropLast

end Path

namespace World

def file? (w : World) (path : String) : Option Bytes :=
  (w.files.find? fun (name, _) => Path.same name path).map Prod.snd

/-- The world with a file that holds the given bytes. -/
def put (w : World) (path : String) (bytes : Bytes) : World :=
  { w with files := (path, bytes) :: w.files.filter fun (name, _) => !Path.same name path }

def hasDirectory (w : World) (path : String) : Bool :=
  path.isEmpty || w.directories.any (Path.same · path)

end World

abbrev Run := EStateM Report World

namespace Run

/-- A result whose failure is told behind a line of context. -/
def ofExcept {ε α : Type} [Reportable ε] (context : Report → Report) : Except ε α → Run α
  | .ok a => pure a
  | .error e => throw (context (report e))

def print (text : String) : Run Unit :=
  modify fun w => { w with stdout := w.stdout ++ Text.Utf8.encode text }

def printLine (text : String) : Run Unit := print (text ++ "\n")

def warn (text : String) : Run Unit := modify fun w => { w with stderr := w.stderr ++ text ++ "\n" }

def missingFile : Report := .leaf "No such file or directory (os error 2)"

/-- All bytes of an input. Standard input can be read once; after that it is empty.
mirrors `read_all` -/
def readAll (verb : String) (place : Place) : Run Bytes := do
  let w ← get
  match place with
  | .standard => do
    set { w with stdin := [] }
    return w.stdin
  | .file path =>
    match w.file? path with
    | some bytes => return bytes
    | none => throw (.because ("failed to " ++ verb ++ " `" ++ path ++ "`") missingFile)

/-- Reads a module and prints its warnings.
mirrors `read_module` -/
def readModule (place : Place) (readCode : Bool) : Run Module := do
  let bytes ← readAll "open" place
  let m ← ofExcept (.because ("failed to decode module `" ++ place.text ++ "`"))
    (Module.decode readCode bytes)
  m.warnings.forM fun warning => warn ("warning: " ++ warning.text)
  return m

/-- Runs a writer on an output. A file is created before anything is written; what was written
before a failure stays. -/
def writeTo {ε : Type} [Reportable ε] (place : Place) (context : String) (writer : Writer ε Unit) :
    Run Unit := do
  if let .file path := place then
    if !(← get).hasDirectory (Path.parent path) then
      throw (.because ("failed to create `" ++ path ++ "`") missingFile)
  let store (sink : Sink) : Run Unit :=
    modify fun w =>
      match place with
      | .standard => { w with stdout := w.stdout ++ sink.bytes }
      | .file path => w.put path sink.bytes
  match writer (.empty none) with
  | .ok () sink => store sink
  | .error e sink => do
    store sink
    throw (.because context (report e))

/-- Counts the selected functions that call a function. -/
def countCalls (m : Module) (selected : List Nat) (callee : String) : Run Unit := do
  match m.names.functionIndex? callee with
  | none =>
    throw (.leaf ("no function named `" ++ callee ++ "`; the module needs a name section"))
  | some index => do
    let sites ← selected.mapM fun i => ofExcept id (m.functionCalls i index)
    let count := sites.countP (!·.isEmpty)
    printLine (toString count ++ " function(s) call " ++ callee ++ ", "
      ++ Text.Percent.text count selected.length ++ "% of " ++ toString selected.length
      ++ " functions")

/-- mirrors `info` -/
def info (input : Place) (disassemble details offsets : Bool) (filter : FunctionFilter)
    (calls : Option String) : Run UInt8 := do
  let m ← readModule input (disassemble || calls.isSome || filter.offset.isSome)
  print (m.summary input.text)
  if details then print m.details
  let selected := m.selection filter
  if disassemble then
    selected.forM fun i => do printLine (← ofExcept id (m.disassembly offsets i))
  match calls with
  | some callee => countCalls m selected callee
  | none => pure ()
  return 0

def diff (left right : Place) (disassemble : Bool) (filter : FunctionFilter) : Run UInt8 := do
  let l ← readModule left disassemble
  let r ← readModule right disassemble
  let c ← ofExcept (.because "failed comparing modules")
    (Comparison.of l r (if disassemble then some filter else none))
  c.differences.forM fun d => printLine d.text
  c.functions.forM fun f =>
    match f.status with
    | .equal => pure ()
    | .different => printLine ("function " ++ f.name ++ " differs")
    | .onlyInLeft => printLine ("function " ++ f.name ++ " only in " ++ left.text)
    | .onlyInRight => printLine ("function " ++ f.name ++ " only in " ++ right.text)
  if c.isEqual then printLine "modules are equal"
  return c.exitCode

def edit (input output data : Place) (replacement : DataReplacement) : Run UInt8 := do
  let m ← readModule input true
  let blob ← readAll "read" data
  writeTo output ("failed rewriting the Data section of `" ++ input.text ++ "`")
    (replacement.write m blob)
  return 0

/-- The path under which a payload is embedded. -/
def payloadPath (payload : Place) : Option String → Run String
  | some path => pure path
  | none =>
    match payload with
    | .standard =>
      throw (.leaf "--path is required when the payload is read from standard input")
    | .file path =>
      match Path.fileName? path with
      | some name => pure name
      | none => throw (.leaf "payload path has no file name")

def embed (template payload output : Place) (path : Option String) : Run UInt8 := do
  let m ← readModule template true
  let content ← readAll "read" payload
  let path ← payloadPath payload path
  writeTo output ("failed embedding `" ++ payload.text ++ "` into `" ++ template.text ++ "`")
    (Template.embed m ⟨path, content⟩)
  return 0

end Run

/-- mirrors `run` -/
def Command.run : Command → Run UInt8
  | info input disassemble details offsets filter calls =>
    Run.info input disassemble details offsets filter calls
  | diff left right disassemble filter => Run.diff left right disassemble filter
  | edit input output data replacement => Run.edit input output data replacement
  | embed template payload output path => Run.embed template payload output path

/-- The text of a failure that ends a command.
mirrors `abort` -/
def failureText (r : Report) : String :=
  let causes := String.join (r.causes.mapIdx fun i cause => "    " ++ toString i ++ ": " ++ cause ++ "\n")
  "ERROR: " ++ r.message ++ "\n" ++ (if r.causes.isEmpty then "" else "\nCaused by:\n" ++ causes)

/-- The exit code of a command that fails. -/
def failureCode : UInt8 := 2

/-- Runs the command that arguments write: its exit code, and the world it leaves. -/
def run (arguments : List String) (w : World) : UInt8 × World :=
  match Command.read arguments with
  | .error e => (failureCode, { w with stderr := w.stderr ++ e.text })
  | .ok command =>
    match command.run w with
    | .ok code w => (code, w)
    | .error r w => (failureCode, { w with stderr := w.stderr ++ failureText r })

end WasmBinary.Cli
