import WasmBinary.Pattern.CharSet

/-!
# Patterns

Regular expressions that are searched for in names. The functions `ofSet`, `seq`, `alt` and `repeated`
build a pattern in a plain form: literals that stand together are one literal, sequences stand in no
sequence and alternatives in no alternatives, and what the alternatives begin with in common stands
in front of them. How large a pattern may be depends on this form.

Patterns are searched for by sets of places. A set of places in a text is a number: its bit `i` says whether the
place behind `i` characters is in the set. `Pattern.ends` takes the set of places where a match may start to the set
of places where it can end; `Pattern.isFoundIn` asks whether a match that starts anywhere has an end.
-/
namespace WasmBinary

inductive Pattern where
  | empty
  | literal (chars : List Char)
  | set (s : Pattern.CharSet)
  | textStart
  | textEnd
  | group (number : Nat) (p : Pattern)
  | sequence (ps : List Pattern)
  | choice (ps : List Pattern)
  /-- At least `min` and at most `max` matches one behind the other. -/
  | times (p : Pattern) (min : Nat) (max : Option Nat)

namespace Pattern

mutual

/-- Whether two patterns are the same. -/
def same : Pattern → Pattern → Bool
  | empty, empty => true
  | literal cs, literal ds => cs == ds
  | set s, set t => s == t
  | textStart, textStart => true
  | textEnd, textEnd => true
  | group m p, group n q => m == n && p.same q
  | sequence ps, sequence qs => sameAll ps qs
  | choice ps, choice qs => sameAll ps qs
  | times p min max, times q min' max' => min == min' && max == max' && p.same q
  | _, _ => false

def sameAll : List Pattern → List Pattern → Bool
  | [], [] => true
  | p :: ps, q :: qs => p.same q && sameAll ps qs
  | _, _ => false

end

/-! ## Lengths of matches -/

mutual

/-- The least number of characters that a match can have, as far as it is known: of a set without
characters it is not. -/
def minLength : Pattern → Option Nat
  | empty => some 0
  | literal cs => some cs.length
  | set s => if s.isEmpty then none else some 1
  | textStart => some 0
  | textEnd => some 0
  | group _ p => p.minLength
  | sequence ps => minLengthOfAll ps
  | choice ps => minLengthOfAny ps
  | times p min _ => p.minLength.map (min * ·)

def minLengthOfAll : List Pattern → Option Nat
  | [] => some 0
  | p :: ps =>
    match p.minLength, minLengthOfAll ps with
    | some m, some n => some (m + n)
    | _, _ => none

def minLengthOfAny : List Pattern → Option Nat
  | [] => none
  | [p] => p.minLength
  | p :: ps =>
    match p.minLength, minLengthOfAny ps with
    | some m, some n => some (Nat.min m n)
    | _, _ => none

end

mutual

/-- Whether the pattern takes no characters. -/
def isEmptyOnly : Pattern → Bool
  | empty => true
  | literal cs => cs.isEmpty
  | set _ => false
  | textStart => true
  | textEnd => true
  | group _ p => p.isEmptyOnly
  | sequence ps => areEmptyOnly ps
  | choice ps => areEmptyOnly ps
  | times p _ max => max.isSome && p.isEmptyOnly

def areEmptyOnly : List Pattern → Bool
  | [] => true
  | p :: ps => p.isEmptyOnly && areEmptyOnly ps

end

/-! ## Building -/

/-- One character of a set. -/
def ofSet (s : CharSet) : Pattern :=
  match s.single? with
  | some c => literal [c]
  | none => set s

/-- The members of a sequence, or a pattern alone. -/
def members : Pattern → List Pattern
  | sequence ps => ps
  | p => [p]

/-- Puts a pattern in front of a sequence. -/
def prepend : Pattern → List Pattern → List Pattern
  | empty, ps => ps
  | literal cs, literal ds :: ps => literal (cs ++ ds) :: ps
  | p, ps => p :: ps

/-- One pattern behind the other. -/
def seq (ps : List Pattern) : Pattern :=
  match (ps.flatMap members).foldr prepend [] with
  | [] => empty
  | [p] => p
  | ps => sequence ps

/-- The members of a choice, or a pattern alone. -/
def alternatives : Pattern → List Pattern
  | choice ps => ps
  | p => [p]

/-- The character of a literal that has no other. -/
def char? : Pattern → Option Char
  | literal [c] => some c
  | _ => none

def set? : Pattern → Option CharSet
  | set s => some s
  | _ => none

def sequence? : Pattern → Option (List Pattern)
  | sequence ps => some ps
  | _ => none

/-- The patterns with which two sequences begin. -/
def commonPrefix : List Pattern → List Pattern → List Pattern
  | p :: ps, q :: qs => if p.same q then p :: commonPrefix ps qs else []
  | _, _ => []

/-- The patterns with which all sequences begin. -/
def sharedPrefix : List (List Pattern) → List Pattern
  | [] => []
  | [ps] => ps
  | ps :: rest => commonPrefix ps (sharedPrefix rest)

/-- One of several patterns. At most `depth` common beginnings, one behind the other, are put in
front. -/
def alt (depth : Nat) (ps : List Pattern) : Pattern :=
  match ps.flatMap alternatives with
  | [] => set .empty
  | [p] => p
  | ps =>
    match ps.mapM char?, ps.mapM set?, ps.mapM sequence?, depth with
    | some cs, _, _, _ => ofSet (.ofRuns (cs.map fun c => ⟨c.toNat, c.toNat⟩))
    | none, some sets, _, _ => ofSet (.ofRuns (sets.flatMap (·.runs)))
    | none, none, some sequences, depth + 1 =>
      match sharedPrefix sequences with
      | [] => choice ps
      | common =>
        seq (common ++ [alt depth (sequences.map fun qs => seq (qs.drop common.length))])
    | none, none, _, _ => choice ps

/-- Repetitions of a pattern. What takes no characters matches twice where it matches once. -/
def repeated (p : Pattern) (min : Nat) (max : Option Nat) : Pattern :=
  let (min, max) :=
    if p.isEmptyOnly then (Nat.min min 1, some (match max with | some n => Nat.min n 1 | none => 1))
    else (min, max)
  if max = some 0 then empty else if min = 1 ∧ max = some 1 then p else times p min max

/-! ## Searching -/

/-- The places behind which stands a character of the set. -/
def placesOf (text : List Char) (s : CharSet) : Nat :=
  text.foldr (fun c places => 2 * places + if s.contains c then 1 else 0) 0

/-- The places behind one character of the set that stands at one of the places. -/
def pass (text : List Char) (s : CharSet) (places : Nat) : Nat :=
  (places &&& placesOf text s) <<< 1

/-- The places of a set that are not in another. -/
def without (places others : Nat) : Nat := places ^^^ (places &&& others)

/-- The places `seen` and those that `step` reaches from the places `fresh` among them in at most `n`
steps. -/
def reach (step : Nat → Nat) : (n : Nat) → (seen fresh : Nat) → Nat
  | 0, seen, _ => seen
  | n + 1, seen, fresh =>
    let next := without (step fresh) seen
    if next = 0 then seen else reach step n (seen ||| next) next

mutual

/-- Where matches that start at one of the places can end. A step stays or goes on; so who makes more
steps than the text has characters has stayed at a place, where steps can be added or left out. -/
def ends (text : List Char) : Pattern → Nat → Nat
  | empty, places => places
  | literal cs, places => cs.foldl (fun places c => pass text (.ofChar c) places) places
  | set s, places => pass text s places
  | textStart, places => places &&& 1
  | textEnd, places => places &&& (1 <<< text.length)
  | group _ p, places => p.ends text places
  | sequence ps, places => endsOfAll text ps places
  | choice ps, places => endsOfAny text ps places
  | times p min max, places =>
    let step := p.ends text
    let all := text.length + 1
    let first := Nat.repeat step (Nat.min min all) places
    let more := match max with | some max => Nat.min (max - min) all | none => all
    reach step more first first

def endsOfAll (text : List Char) : List Pattern → Nat → Nat
  | [], places => places
  | p :: ps, places => endsOfAll text ps (p.ends text places)

def endsOfAny (text : List Char) : List Pattern → Nat → Nat
  | [], _ => 0
  | p :: ps, places => p.ends text places ||| endsOfAny text ps places

end

/-- Whether the pattern matches somewhere in the text. -/
def isFoundIn (p : Pattern) (text : String) : Bool :=
  let chars := text.toList
  p.ends chars ((1 <<< (chars.length + 1)) - 1) != 0

/-- A pattern stands for the texts in which it matches. -/
instance : Coe Pattern (String → Bool) := ⟨isFoundIn⟩

end Pattern

end WasmBinary
