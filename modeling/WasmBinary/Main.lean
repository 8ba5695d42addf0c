import WasmBinary.Cli.Run

/-!
# The program

Reads the files and the standard input that the arguments name, runs the command on them, and writes
out what it left.
-/
namespace WasmBinary.Cli

/-- The places that a command reads. -/
def Command.inputs : Command → List Place
  | info input .. => [input]
  | diff left right .. => [left, right]
  | edit input _ data _ => [input, data]
  | embed template payload .. => [template, payload]

/-- The place that a command writes. -/
def Command.output? : Command → Option Place
  | edit _ output .. => some output
  | embed _ _ output _ => some output
  | _ => none

/-- The world that a command finds. -/
def Command.surroundings (c : Command) : IO World := do
  let mut files : List (String × Bytes) := []
  let mut stdin : Bytes := []
  for place in c.inputs do
    match place with
    | .standard => stdin := (← (← IO.getStdin).readBinToEnd).toList
    | .file path =>
      try files := (path, (← IO.FS.readBinFile path).toList) :: files
      catch _ => pure ()
  let mut directories : List String := []
  if let some (.file path) := c.output? then
    let parent := Path.parent path
    try
      discard <| IO.FS.Handle.mk (if parent.isEmpty then "." else parent) .read
      directories := [parent]
    catch _ => pure ()
  return { files, directories, stdin }

end WasmBinary.Cli

open WasmBinary Cli

def main (arguments : List String) : IO UInt32 := do
  let command? := (Command.read arguments).toOption
  let before ←
    match command? with
    | some command => command.surroundings
    | none => pure { files := [] }
  let (code, after) := run arguments before
  if let some (.file path) := command?.bind Command.output? then
    if after.file? path != before.file? path || code == 0 then
      if let some bytes := after.file? path then
        IO.FS.writeBinFile path ⟨bytes.toArray⟩
  let stdout ← IO.getStdout
  stdout.write ⟨after.stdout.toArray⟩
  stdout.flush
  IO.eprint after.stderr
  return code.toUInt32
