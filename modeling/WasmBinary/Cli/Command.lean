import WasmBinary.DataReplacement
import WasmBinary.Module.Body
import WasmBinary.Pattern.Parse

/-!
# Commands

The four commands and how arguments write them. Options may stand anywhere behind the name of the
command; short ones can be combined, and a value follows its option after a space or `=`. A `-` in
place of a file stands for the standard streams.

Numbers are digits with an optional sign in front; a minus only where negative numbers are allowed. The first fault
in reading order is the one that is told.
-/
namespace WasmBinary.Cli

/-! ## Numbers -/

inductive NumberError where
  | empty
  | invalidDigit
  | tooLarge
  | tooSmall
  deriving DecidableEq

def NumberError.message : NumberError → String
  | .empty => "cannot parse integer from empty string"
  | .invalidDigit => "invalid digit found in string"
  | .tooLarge => "number too large to fit in target type"
  | .tooSmall => "number too small to fit in target type"

namespace Number

/-- The value of a digit in a base up to sixteen. -/
def digit? (base : Nat) (c : Char) : Option Nat :=
  let value? :=
    if '0' ≤ c ∧ c ≤ '9' then some (c.toNat - '0'.toNat)
    else if 'a' ≤ c ∧ c ≤ 'f' then some (c.toNat - 'a'.toNat + 10)
    else if 'A' ≤ c ∧ c ≤ 'F' then some (c.toNat - 'A'.toNat + 10)
    else none
  value?.filter (· < base)

/-- The number that digits write behind `before`, if no step exceeds `max`. -/
def digits (base max : Nat) (excess : NumberError) : (before : Nat) → List Char →
    Except NumberError Nat
  | n, [] => .ok n
  | n, c :: rest =>
    match digit? base c with
    | none => .error .invalidDigit
    | some d =>
      if max < base * n + d then .error excess else digits base max excess (base * n + d) rest

/-- A number from zero to `max`. -/
def natural (base max : Nat) : List Char → Except NumberError Nat
  | [] => .error .empty
  | ['+'] => .error .invalidDigit
  | '+' :: rest => digits base max .tooLarge 0 rest
  | cs => digits base max .tooLarge 0 cs

/-- A decimal number from `-(max + 1)` to `max`. -/
def integer (max : Nat) : List Char → Except NumberError Int
  | ['-'] => .error .invalidDigit
  | '-' :: rest => (fun n : Nat => -(n : Int)) <$> digits 10 (max + 1) .tooSmall 0 rest
  | cs => (fun n : Nat => (n : Int)) <$> natural 10 max cs

/-- A file offset: decimal, or hexadecimal behind `0x`.
mirrors `parse_offset` -/
def offset (text : String) : Except NumberError Nat :=
  match text.toList with
  | '0' :: 'x' :: rest => natural 16 (UInt64.size - 1) rest
  | '0' :: 'X' :: rest => natural 16 (UInt64.size - 1) rest
  | cs => natural 10 (UInt64.size - 1) cs

end Number

/-! ## Commands -/

/-- A file to read or write, or the standard stream. -/
inductive Place where
  | standard
  | file (path : String)
  deriving DecidableEq

namespace Place

def ofArgument (argument : String) : Place := if argument = "-" then standard else file argument

def text : Place → String
  | standard => "-"
  | file path => path

end Place

inductive Command where
  | info (input : Place) (disassemble details offsets : Bool) (filter : FunctionFilter)
      (calls : Option String)
  | diff (left right : Place) (disassemble : Bool) (filter : FunctionFilter)
  | edit (input output data : Place) (replacement : DataReplacement)
  | embed (template payload output : Place) (path : Option String)

inductive CommandError where
  | invalidValue (value option cause : String)
  | unknownCommand
  | unknownOption (option : String)
  | missingValue (option : String)
  | unexpectedValue (option : String)
  | positionals

/-- What is printed if the arguments are no command. -/
def CommandError.text (e : CommandError) : String :=
  let fault :=
    match e with
    | invalidValue value option cause =>
      "invalid value '" ++ value ++ "' for '" ++ option ++ "': " ++ cause
    | unknownCommand => "expected one of the commands info, diff, edit and embed"
    | unknownOption option => "unexpected argument '" ++ option ++ "' found"
    | missingValue option => "a value is required for '" ++ option ++ "' but none was supplied"
    | unexpectedValue option => "unexpected value for '" ++ option ++ "' found"
    | positionals => "the required arguments were not provided"
  "error: " ++ fault ++ "\n\nFor more information, try '--help'.\n"

/-! ## Arguments -/

/-- An option of a command. -/
structure OptionForm where
  long : String
  short : Option Char := none
  takesValue : Bool := false

/-- Arguments sorted into positionals and options. Options without a value have an empty one. -/
structure Arguments where
  positionals : List String := []
  options : List (String × String) := []

namespace Arguments

def has (a : Arguments) (option : String) : Bool := (a.options.lookup option).isSome

def value? (a : Arguments) (option : String) : Option String := a.options.lookup option

def addPositional (p : String) (a : Arguments) : Arguments :=
  { a with positionals := p :: a.positionals }

def addOption (option value : String) (a : Arguments) : Arguments :=
  { a with options := (option, value) :: a.options }

/-- The value of an option that comes as the next argument. -/
def isValue (argument : String) : Bool := !argument.startsWith "-" || argument == "-"

/-- The flags of a group of short options, and the option at its end that takes a value, with what
stands behind it in the group. -/
def shorts (forms : List OptionForm) : List Char →
    Except CommandError (List String × Option (String × List Char))
  | [] => .ok ([], none)
  | c :: rest =>
    match forms.find? (·.short == some c) with
    | none => .error (.unknownOption ("-" ++ c.toString))
    | some form =>
      if form.takesValue then .ok ([], some (form.long, rest))
      else do
        let (flags, last) ← shorts forms rest
        return (form.long :: flags, last)

/-- A long option at the front of the arguments, and how many arguments it takes up. -/
def long (forms : List OptionForm) (body : String) (next : List String) :
    Except CommandError ((String × String) × List String) :=
  let parts := body.splitOn "="
  let name := parts.headD ""
  match forms.find? (·.long == name) with
  | none => .error (.unknownOption ("--" ++ name))
  | some form =>
    match form.takesValue, parts.tail with
    | false, [] => .ok ((name, ""), next)
    | false, _ => .error (.unexpectedValue ("--" ++ name))
    | true, [] =>
      match next with
      | value :: rest =>
        if isValue value then .ok ((name, value), rest) else .error (.missingValue ("--" ++ name))
      | [] => .error (.missingValue ("--" ++ name))
    | true, values => .ok ((name, "=".intercalate values), next)

/-- Sorts arguments, of which there are at most `bound`. -/
def sort (forms : List OptionForm) : (bound : Nat) → List String → Except CommandError Arguments
  | 0, _ => .ok {}
  | _, [] => .ok {}
  | bound + 1, argument :: rest =>
    if argument = "--" then .ok { positionals := rest }
    else if argument.startsWith "--" then do
      let ((name, value), rest) ← long forms (String.ofList (argument.toList.drop 2)) rest
      return (← sort forms bound rest).addOption name value
    else if argument = "-" ∨ !argument.startsWith "-" then do
      return (← sort forms bound rest).addPositional argument
    else do
      let (flags, last) ← shorts forms (argument.toList.drop 1)
      let (valued, rest) ←
        match last, rest with
        | none, rest => pure ([], rest)
        | some (name, '=' :: value), rest => pure ([(name, String.ofList value)], rest)
        | some (name, []), value :: rest =>
          if isValue value then pure ([(name, value)], rest) else throw (.missingValue ("--" ++ name))
        | some (name, []), [] => throw (.missingValue ("--" ++ name))
        | some (name, value), rest => pure ([(name, String.ofList value)], rest)
      let a ← sort forms bound rest
      return { a with options := flags.map ((·, "")) ++ valued ++ a.options }

end Arguments

/-! ## Reading commands -/

namespace Command

def verbose : OptionForm := { long := "verbose", short := some 'v' }

def filterForms : List OptionForm :=
  [{ long := "function-filter", short := some 'f', takesValue := true },
    { long := "function-offset", takesValue := true }]

def infoForms : List OptionForm :=
  [verbose, { long := "disassemble", short := some 'd' }, { long := "details" },
    { long := "offsets", short := some 'o' }, { long := "calls", takesValue := true }]
    ++ filterForms

def diffForms : List OptionForm :=
  [verbose, { long := "disassemble", short := some 'd' }] ++ filterForms

def editForms : List OptionForm :=
  [verbose, { long := "data-section", takesValue := true },
    { long := "data-offset", takesValue := true }, { long := "auto-split" }, { long := "passive" },
    { long := "zero-run", takesValue := true }]

def embedForms : List OptionForm := [verbose, { long := "path", takesValue := true }]

/-- The filter that the options ask for. -/
def filter (a : Arguments) : Except CommandError FunctionFilter := do
  let name ←
    match a.value? "function-filter" with
    | none => pure none
    | some text =>
      match Pattern.parse? text with
      | some pattern => pure (some pattern.isFoundIn)
      | none => throw (.invalidValue text "--function-filter <REGEX>" "invalid pattern")
  let offset ←
    match a.value? "function-offset" with
    | none => pure none
    | some text =>
      match Number.offset text with
      | .ok offset => pure (some offset)
      | .error e =>
        throw (.invalidValue text "--function-offset <OFFSET>"
          ("invalid offset `" ++ text ++ "`: " ++ e.message))
  return ⟨name, offset⟩

/-- The value of an option that is a number, or what holds without it. -/
def number {α : Type} (a : Arguments) (option metavariable : String) (fallback : α)
    (read : List Char → Except NumberError α) : Except CommandError α :=
  match a.value? option with
  | none => .ok fallback
  | some text =>
    match read text.toList with
    | .ok n => .ok n
    | .error e => .error (.invalidValue text ("--" ++ option ++ " " ++ metavariable) e.message)

def readInfo (arguments : List String) : Except CommandError Command := do
  let a ← Arguments.sort infoForms arguments.length arguments
  let f ← filter a
  let input ←
    match a.positionals with
    | [] => pure Place.standard
    | [input] => pure (Place.ofArgument input)
    | _ => throw .positionals
  return .info input (a.has "disassemble") (a.has "details") (a.has "offsets") f (a.value? "calls")

def readDiff (arguments : List String) : Except CommandError Command := do
  let a ← Arguments.sort diffForms arguments.length arguments
  let f ← filter a
  match a.positionals with
  | [left, right] => return .diff (.ofArgument left) (.ofArgument right) (a.has "disassemble") f
  | _ => throw .positionals

def readEdit (arguments : List String) : Except CommandError Command := do
  let a ← Arguments.sort editForms arguments.length arguments
  let base ← number a "data-offset" "<DATA_OFFSET>" 0 (Number.integer 0x7FFFFFFF)
  let zeroRun ← number a "zero-run" "<ZERO_RUN>" 9 (Number.natural 10 (UInt64.size - 1))
  match a.positionals, a.value? "data-section" with
  | [input, output], some data =>
    return .edit (.ofArgument input) (.ofArgument output) (.ofArgument data)
      ⟨a.has "auto-split", Int32.ofInt base, a.has "passive", zeroRun⟩
  | _, _ => throw .positionals

def readEmbed (arguments : List String) : Except CommandError Command := do
  let a ← Arguments.sort embedForms arguments.length arguments
  match a.positionals with
  | [template, payload, output] =>
    return .embed (.ofArgument template) (.ofArgument payload) (.ofArgument output) (a.value? "path")
  | _ => throw .positionals

/-- Whether an argument in front of the name of the command asks for more diagnostics, which are
off. -/
def isVerbose (argument : String) : Bool :=
  argument == "--verbose" ||
    (match argument.toList with
      | '-' :: 'v' :: rest => rest.all (· == 'v')
      | _ => false)

/-- The command that arguments write. -/
def read (arguments : List String) : Except CommandError Command :=
  match arguments.dropWhile isVerbose with
  | "info" :: rest => readInfo rest
  | "diff" :: rest => readDiff rest
  | "edit" :: rest => readEdit rest
  | "embed" :: rest => readEmbed rest
  | _ => .error .unknownCommand

end Command

end WasmBinary.Cli
