import WasmBinary.Pattern.CharSet

/-!
# Escapes and sets in brackets

A set in brackets is a union of characters, ranges, escapes, named sets such as `[:alpha:]` and further
sets in brackets; between unions stand the operators `&&`, `--` and `~~`, which are taken from left to
right. A set that starts with `^` has the characters that the rest does not have. Each reader returns
what it read and the characters behind it, or nothing if the text is no pattern.
-/
namespace WasmBinary.Pattern

/-! ## Escapes -/

/-- What a backslash and the character behind it stand for. -/
inductive Escape where
  | char (c : Char)
  | set (s : CharSet)
  | textStart
  | textEnd

/-- Characters that stand for themselves behind a backslash. -/
def isEscapable (c : Char) : Bool := c.toNat < 0x80 && !c.isAlphanum && c != '<' && c != '>'

def Escape.ofChar? : Char → Option Escape
  | 'd' => some (.set .digits)
  | 'D' => some (.set CharSet.digits.complement)
  | 's' => some (.set .blanks)
  | 'S' => some (.set CharSet.blanks.complement)
  | 'a' => some (.char '\x07')
  | 't' => some (.char '\t')
  | 'n' => some (.char '\n')
  | 'v' => some (.char '\x0B')
  | 'f' => some (.char '\x0C')
  | 'r' => some (.char '\r')
  | 'A' => some .textStart
  | 'z' => some .textEnd
  | c => if isEscapable c then some (.char c) else none

/-- The escape behind a backslash. -/
def Escape.read : List Char → Option (Escape × List Char)
  | c :: rest => (Escape.ofChar? c).map (·, rest)
  | [] => none

/-! ## Named sets -/

def CharSet.named : List (String × CharSet) := [
  ("alnum", ⟨[⟨0x30, 0x39⟩, ⟨0x41, 0x5A⟩, ⟨0x61, 0x7A⟩]⟩), ("alpha", ⟨[⟨0x41, 0x5A⟩, ⟨0x61, 0x7A⟩]⟩),
  ("ascii", ⟨[⟨0, 0x7F⟩]⟩), ("blank", ⟨[⟨0x9, 0x9⟩, ⟨0x20, 0x20⟩]⟩),
  ("cntrl", ⟨[⟨0, 0x1F⟩, ⟨0x7F, 0x7F⟩]⟩), ("digit", ⟨[⟨0x30, 0x39⟩]⟩), ("graph", ⟨[⟨0x21, 0x7E⟩]⟩),
  ("lower", ⟨[⟨0x61, 0x7A⟩]⟩), ("print", ⟨[⟨0x20, 0x7E⟩]⟩),
  ("punct", ⟨[⟨0x21, 0x2F⟩, ⟨0x3A, 0x40⟩, ⟨0x5B, 0x60⟩, ⟨0x7B, 0x7E⟩]⟩),
  ("space", ⟨[⟨0x9, 0xD⟩, ⟨0x20, 0x20⟩]⟩), ("upper", ⟨[⟨0x41, 0x5A⟩]⟩),
  ("word", ⟨[⟨0x30, 0x39⟩, ⟨0x41, 0x5A⟩, ⟨0x5F, 0x5F⟩, ⟨0x61, 0x7A⟩]⟩),
  ("xdigit", ⟨[⟨0x30, 0x39⟩, ⟨0x41, 0x46⟩, ⟨0x61, 0x66⟩]⟩)]

/-- The set without regard to case if that is asked for. -/
def CharSet.caseless (ignoreCase : Bool) (s : CharSet) : CharSet :=
  if ignoreCase then s.ignoreCase else s

/-- The set or, negated, all other characters. Case is ignored first. -/
def CharSet.close (ignoreCase negated : Bool) (s : CharSet) : CharSet :=
  let s := s.caseless ignoreCase
  if negated then s.complement else s

/-- A named set, behind its opening bracket. -/
def CharSet.readNamed? (ignoreCase : Bool) : List Char → Option (CharSet × List Char)
  | ':' :: rest =>
    let (negated, rest) := match rest with | '^' :: rest => (true, rest) | rest => (false, rest)
    match rest.dropWhile (· != ':') with
    | ':' :: ']' :: behind => do
      let s ← CharSet.named.lookup (String.ofList (rest.takeWhile (· != ':')))
      some (s.close ignoreCase negated, behind)
    | _ => none
  | _ => none

/-! ## Brackets -/

/-- A set as it was written, with how deep brackets, unions and operators nest in it. -/
structure Operand where
  set : CharSet
  height : Nat

inductive SetOperator where
  | intersection
  | difference
  | symmetricDifference

def SetOperator.apply : SetOperator → CharSet → CharSet → CharSet
  | intersection => .intersection
  | difference => .difference
  | symmetricDifference => .symmetricDifference

/-- What was read of a set in brackets that is still open. -/
structure OpenSet where
  negated : Bool
  pending : Option (SetOperator × Operand) := none   -- the operator last read, and what stands left of it
  runs : List Run := []                              -- of the union behind it
  items : Nat := 0
  height : Nat := 0                                  -- of the tallest item

namespace OpenSet

/-- Puts an item to the union. -/
def add (o : OpenSet) (runs : List Run) (height : Nat) : OpenSet :=
  { o with runs := runs ++ o.runs, items := o.items + 1, height := Nat.max o.height height }

/-- What was read, with the pending operator applied. -/
def operand (ignoreCase : Bool) (o : OpenSet) : Operand :=
  let right := CharSet.ofRuns o.runs
  let height := if o.items ≤ 1 then o.height else o.height + 1
  match o.pending with
  | none => ⟨right, height⟩
  | some (operator, left) =>
    ⟨operator.apply (left.set.caseless ignoreCase) (right.caseless ignoreCase),
      Nat.max left.height height + 1⟩

/-- An operator behind what was read. -/
def operate (ignoreCase : Bool) (o : OpenSet) (operator : SetOperator) : OpenSet :=
  { negated := o.negated, pending := some (operator, o.operand ignoreCase) }

/-- The closing bracket behind what was read. -/
def close (ignoreCase : Bool) (o : OpenSet) : Operand :=
  let inner := o.operand ignoreCase
  ⟨inner.set.close ignoreCase o.negated, inner.height + 1⟩

/-- What stands behind an opening bracket: hyphens there, or a closing bracket, stand for themselves. -/
def read (cs : List Char) : OpenSet × List Char :=
  let (negated, cs) := match cs with | '^' :: rest => (true, rest) | cs => (false, cs)
  let hyphens := cs.takeWhile (· == '-')
  match hyphens, cs.dropWhile (· == '-') with
  | [], ']' :: rest => (OpenSet.add { negated } [⟨0x5D, 0x5D⟩] 0, rest)
  | _, rest => (hyphens.foldl (fun o _ => o.add [⟨0x2D, 0x2D⟩] 0) { negated }, rest)

end OpenSet

/-- A character or an escape in brackets. -/
def readAtom : List Char → Option (Escape × List Char)
  | '\\' :: rest => Escape.read rest
  | c :: rest => some (.char c, rest)
  | [] => none

/-- A range, or a character or escape that starts none. -/
def readItem (cs : List Char) : Option (List Run × List Char) := do
  let (low, rest) ← readAtom cs
  let alone :=
    match low with
    | .char c => some ([⟨c.toNat, c.toNat⟩], rest)
    | .set s => some (s.runs, rest)
    | .textStart | .textEnd => none
  match rest with
  | '-' :: next :: behind =>
    if next = ']' ∨ next = '-' then alone
    else
      match low, readAtom (next :: behind) with
      | .char low, some (.char high, rest) =>
        if low.toNat ≤ high.toNat then some ([⟨low.toNat, high.toNat⟩], rest) else none
      | _, _ => none
  | _ => alone

/-- Reads on in a set in brackets, which stands in the sets of `outer`, the innermost first. The number
bounds the steps; each takes a character. -/
def readOn (ignoreCase : Bool) :
    (bound : Nat) → (outer : List OpenSet) → OpenSet → List Char → Option (Operand × List Char)
  | 0, _, _, _ => none
  | _, _, _, [] => none
  | bound + 1, outer, o, ']' :: rest =>
    let closed := o.close ignoreCase
    match outer with
    | [] => some (closed, rest)
    | o :: outer => readOn ignoreCase bound outer (o.add closed.set.runs closed.height) rest
  | bound + 1, outer, o, '[' :: inner =>
    match CharSet.readNamed? ignoreCase inner with
    | some (s, rest) => readOn ignoreCase bound outer (o.add s.runs 0) rest
    | none =>
      let (innermost, rest) := OpenSet.read inner
      readOn ignoreCase bound (o :: outer) innermost rest
  | bound + 1, outer, o, '&' :: '&' :: rest =>
    readOn ignoreCase bound outer (o.operate ignoreCase .intersection) rest
  | bound + 1, outer, o, '-' :: '-' :: rest =>
    readOn ignoreCase bound outer (o.operate ignoreCase .difference) rest
  | bound + 1, outer, o, '~' :: '~' :: rest =>
    readOn ignoreCase bound outer (o.operate ignoreCase .symmetricDifference) rest
  | bound + 1, outer, o, cs => do
    let (runs, rest) ← readItem cs
    readOn ignoreCase bound outer (o.add runs 0) rest

/-- A set in brackets, behind the opening bracket. -/
def readBracket (ignoreCase : Bool) (cs : List Char) : Option (Operand × List Char) :=
  let (o, rest) := OpenSet.read cs
  readOn ignoreCase (rest.length + 1) [] o rest

end WasmBinary.Pattern
