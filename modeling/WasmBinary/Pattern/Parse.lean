import WasmBinary.Pattern.Automaton
import WasmBinary.Pattern.Bracket

/-!
# Reading patterns

The grammar, from loosest to tightest: alternatives separated by `|`; items in sequence; an item with
any number of the repetitions `*`, `+`, `?`, `{n}`, `{n,}` and `{n,m}`, each perhaps with a `?` that
only changes which match is preferred; and a single item, which is a group, a set in brackets, an
anchor, the dot, an escape or a literal character. From `(?i)` on to the end of the group, and in
`(?i:...)`, case is ignored.

The text is read character by character. `Reading` holds what was read of the groups that are open,
so no group has to be closed before the next one is read. A pattern in which groups, repetitions,
sequences and the like nest deeper than `nestingLimit` is none, nor is one whose automata are too large.
-/
namespace WasmBinary.Pattern

def nestingLimit : Nat := 250

/-- A part of a pattern, with how deep groups, repetitions and the like nest in it. -/
structure Part where
  pattern : Pattern
  height : Nat := 0
  isSetting : Bool := false   -- `(?i)` or `(?-i)`, which cannot be repeated

namespace Part

/-- The height of the tallest of some parts. -/
def tallest (parts : List Part) : Nat := parts.foldl (fun h p => Nat.max h p.height) 0

/-- Parts in sequence, of which the last is given first. -/
def sequence : List Part → Part
  | [] => { pattern := .empty }
  | [p] => p
  | parts => { pattern := .seq (parts.reverse.map (·.pattern)), height := tallest parts + 1 }

/-- Alternatives, of which the last is given first. -/
def choice : List Part → Part
  | [p] => p
  | parts => { pattern := .alt nestingLimit (parts.reverse.map (·.pattern)), height := tallest parts + 1 }

end Part

/-- What was read of a group. -/
structure Scope where
  number : Option Nat          -- of a group that is counted
  ignoreCase : Bool            -- whether case is ignored behind the group
  branches : List Part := []   -- the alternatives that are read, the last one first
  parts : List Part := []      -- the parts of the one that is being read, the last one first

/-- The pattern in a group. -/
def Scope.content (s : Scope) : Part := .choice (.sequence s.parts :: s.branches)

/-- What was read of a text. -/
structure Reading where
  ignoreCase : Bool := false
  groups : Nat := 0                    -- the groups counted so far
  names : List (List Char) := []       -- and those of them that have names
  scope : Scope := ⟨none, false, [], []⟩
  outer : List Scope := []             -- what the scope stands in, the innermost first

namespace Reading

/-- Puts a part behind those of the innermost group. -/
def push (r : Reading) (p : Part) : Option Reading :=
  if p.height ≤ nestingLimit then
    some { r with scope := { r.scope with parts := p :: r.scope.parts } }
  else none

/-- A character, or all that differ from it in case only. -/
def pushChar (r : Reading) (c : Char) : Option Reading :=
  r.push { pattern := .ofSet ((CharSet.ofChar c).caseless r.ignoreCase) }

/-- A `|`: what was read of the group is an alternative. -/
def branch (r : Reading) : Reading :=
  { r with scope :=
    { r.scope with branches := .sequence r.scope.parts :: r.scope.branches, parts := [] } }

/-! ## Groups -/

/-- Opens a group that is not counted. -/
def openPlain (r : Reading) (ignoreCase : Bool) : Reading :=
  { r with
    ignoreCase
    scope := { number := none, ignoreCase := r.ignoreCase }
    outer := r.scope :: r.outer }

/-- Opens a group that is counted. -/
def openCounted (r : Reading) : Reading :=
  { r.openPlain r.ignoreCase with
    groups := r.groups + 1
    scope := { number := some (r.groups + 1), ignoreCase := r.ignoreCase } }

/-- Whether a group can have this name. -/
def isName : List Char → Bool
  | [] => false
  | c :: rest =>
    (c == '_' || c.isAlpha) &&
      rest.all fun c => c == '_' || c == '.' || c == '[' || c == ']' || c.isAlphanum

/-- Opens the group whose name stands here. -/
def openNamed (r : Reading) (cs : List Char) : Option (Reading × List Char) :=
  let name := cs.takeWhile (· != '>')
  match cs.dropWhile (· != '>') with
  | '>' :: rest =>
    if isName name && !r.names.contains name then
      some ({ r.openCounted with names := name :: r.names }, rest)
    else none
  | _ => none

/-- Sets whether case is ignored from here to the end of the group. -/
def setCase (r : Reading) (ignoreCase : Bool) : Option Reading :=
  { r with ignoreCase }.push { pattern := .empty, isSetting := true }

/-- What stands behind an opening parenthesis. -/
def openGroup (r : Reading) : List Char → Option (Reading × List Char)
  | '?' :: 'P' :: '<' :: rest => r.openNamed rest
  | '?' :: '<' :: rest => r.openNamed rest
  | '?' :: ':' :: rest => some (r.openPlain r.ignoreCase, rest)
  | '?' :: 'i' :: ':' :: rest => some (r.openPlain true, rest)
  | '?' :: '-' :: 'i' :: ':' :: rest => some (r.openPlain false, rest)
  | '?' :: 'i' :: ')' :: rest => (r.setCase true).map (·, rest)
  | '?' :: '-' :: 'i' :: ')' :: rest => (r.setCase false).map (·, rest)
  | '?' :: _ => none
  | rest => some (r.openCounted, rest)

/-- Closes the innermost group. -/
def closeGroup (r : Reading) : Option Reading :=
  match r.outer with
  | [] => none
  | scope :: outer =>
    let content := r.scope.content
    let pattern :=
      match r.scope.number with
      | some n => .group n content.pattern
      | none => content.pattern
    { r with ignoreCase := r.scope.ignoreCase, scope, outer }.push
      { pattern, height := content.height + 1 }

/-! ## Repetitions -/

/-- A number, perhaps with white space around it, if it fits 32 bits. -/
def number? (cs : List Char) : Option (Nat × List Char) :=
  let cs := cs.dropWhile CharSet.blanks.contains
  let digits := cs.takeWhile Char.isDigit
  let n := digits.foldl (fun n c => 10 * n + (c.toNat - '0'.toNat)) 0
  if digits.isEmpty ∨ UInt32.size ≤ n then none
  else some (n, (cs.dropWhile Char.isDigit).dropWhile CharSet.blanks.contains)

/-- The bounds of a repetition, behind the opening brace. -/
def bounds? (cs : List Char) : Option ((Nat × Option Nat) × List Char) := do
  let (min, rest) ← number? cs
  match rest with
  | '\x7d' :: rest => some ((min, some min), rest)
  | ',' :: '\x7d' :: rest => some ((min, none), rest)
  | ',' :: rest => do
    let (max, rest) ← number? rest
    match rest with
    | '\x7d' :: rest => if min ≤ max then some ((min, some max), rest) else none
    | _ => none
  | _ => none

/-- Repeats the last part. A `?` behind the repetition belongs to it. -/
def repeatLast (r : Reading) (min : Nat) (max : Option Nat) (rest : List Char) :
    Option (Reading × List Char) :=
  match r.scope.parts with
  | [] => none
  | p :: parts => do
    guard (!p.isSetting)
    let r ← { r with scope := { r.scope with parts } }.push
      { pattern := p.pattern.repeated min max, height := p.height + 1 }
    some (r, match rest with | '?' :: rest => rest | rest => rest)

/-! ## The text -/

/-- Reads what stands at the start of a text. -/
def step (r : Reading) : List Char → Option (Reading × List Char)
  | [] => none
  | '(' :: rest => r.openGroup rest
  | ')' :: rest => r.closeGroup.map (·, rest)
  | '|' :: rest => some (r.branch, rest)
  | '*' :: rest => r.repeatLast 0 none rest
  | '+' :: rest => r.repeatLast 1 none rest
  | '?' :: rest => r.repeatLast 0 (some 1) rest
  | '\x7b' :: rest => do
    let ((min, max), rest) ← bounds? rest
    r.repeatLast min max rest
  | '[' :: rest => do
    let (operand, rest) ← readBracket r.ignoreCase rest
    (r.push { pattern := .ofSet operand.set, height := operand.height }).map (·, rest)
  | '\\' :: rest => do
    let (escape, rest) ← Escape.read rest
    let r ←
      match escape with
      | .char c => r.pushChar c
      | .set s => r.push { pattern := .ofSet s }
      | .textStart => r.push { pattern := .textStart }
      | .textEnd => r.push { pattern := .textEnd }
    some (r, rest)
  | '^' :: rest => (r.push { pattern := .textStart }).map (·, rest)
  | '$' :: rest => (r.push { pattern := .textEnd }).map (·, rest)
  | '.' :: rest => (r.push { pattern := .ofSet .dot }).map (·, rest)
  | c :: rest => (r.pushChar c).map (·, rest)

/-- Reads a text to its end. The number bounds the steps; each takes a character. -/
def readAll : (bound : Nat) → Reading → List Char → Option Reading
  | _, r, [] => some r
  | 0, _, _ => none
  | bound + 1, r, cs => do
    let (r, rest) ← r.step cs
    readAll bound r rest

end Reading

/-- The pattern that a text writes, if it writes one. -/
def parse? (text : String) : Option Pattern := do
  let cs := text.toList
  let r ← Reading.readAll cs.length {} cs
  let whole := r.scope.content
  guard (r.outer.isEmpty && whole.height ≤ nestingLimit && whole.pattern.fits)
  some whole.pattern

end WasmBinary.Pattern
