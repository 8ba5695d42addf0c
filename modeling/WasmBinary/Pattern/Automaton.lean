import Std.Data.HashMap
import WasmBinary.Pattern.Basic

/-!
# The size of the automaton

A pattern is searched for with two automata over bytes, of which one reads forwards and one backwards.
A pattern is accepted if each of them takes at most ten mebibytes. A state takes `stateSize` bytes; on
top of that, a state that sorts bytes takes `rangeSize` for each range, and a fork `linkSize` for each
way out of it.

`Pattern.lay` lays out the automaton of a pattern behind what is laid out already. The states are
numbered in the order in which they are laid out. Only sets depend on these numbers: words of a set
share a state if the memory that is kept for the set still holds it.

A byte string encodes a character of a set if it matches one of the words of the set range by range. The words stand
in ascending order, and no two of them share an encoding.

A memory finds numbers by keys, which are lists of numbers. It has a fixed number of slots; the hash of a key tells
its slot, and a slot holds only the key that was put there last. So a key can be forgotten, but what is found was put
there under that very key.
-/
namespace WasmBinary.Pattern

/-! ## Encodings of sets -/

structure ByteRange where
  first : Nat
  last : Nat
  deriving DecidableEq

/-- What a byte behind the first one can be. -/
def ByteRange.continuation : ByteRange := ⟨0x80, 0xBF⟩

/-- The words of the numbers from `first` to `last`, written with `followers` bytes behind the first one
and `mark` added to that. Each byte behind the first one carries six bits, and is in turn marked. -/
def wordsBetween : (followers mark first last : Nat) → List (List ByteRange)
  | 0, mark, first, last => [[⟨mark + first, mark + last⟩]]
  | followers + 1, mark, first, last =>
    let unit := 1 <<< (6 * (followers + 1))
    let lead := fun n => ByteRange.mk (mark + n) (mark + n)
    let a := first / unit
    let b := last / unit
    if a = b then (wordsBetween followers 0x80 (first % unit) (last % unit)).map (lead a :: ·)
    else
      let opening :=
        if first % unit = 0 then []
        else (wordsBetween followers 0x80 (first % unit) (unit - 1)).map (lead a :: ·)
      let closing :=
        if last % unit = unit - 1 then []
        else (wordsBetween followers 0x80 0 (last % unit)).map (lead b :: ·)
      let a := if opening.isEmpty then a else a + 1
      let b := if closing.isEmpty then b else b - 1
      let whole := List.replicate (followers + 1) ByteRange.continuation
      opening ++ (if a ≤ b then [⟨mark + a, mark + b⟩ :: whole] else []) ++ closing

/-- The spans of characters that are written alike: the first and the last character, the number of
bytes behind the first one, and the mark of the first one. -/
def spans : List (Nat × Nat × Nat × Nat) := [
  (0, 0x7F, 0, 0), (0x80, 0x7FF, 1, 0xC0), (0x800, 0xD7FF, 2, 0xE0), (0xE000, 0xFFFF, 2, 0xE0),
  (0x10000, 0x10FFFF, 3, 0xF0)]

/-- The words of the characters of a run. -/
def Run.words (r : Run) : List (List ByteRange) :=
  spans.flatMap fun (low, high, followers, mark) =>
    let first := Nat.max r.first low
    let last := Nat.min r.last high
    if first ≤ last then wordsBetween followers mark first last else []

/-- The words of the characters of a set. -/
def CharSet.words (s : CharSet) : List (List ByteRange) := s.runs.flatMap Run.words

/-! ## Memories with slots -/

structure Memory where
  size : Nat
  slots : Std.HashMap Nat (List Nat × Nat) := {}

namespace Memory

/-- The hash of a key: each number is mixed into the low bits, which are then spread by a prime. -/
def hash (key : List Nat) : UInt64 :=
  key.foldl (fun h n => (h ^^^ UInt64.ofNat n) * 1099511628211) 14695981039346656037

def slot (m : Memory) (key : List Nat) : Nat := (hash key).toNat % m.size

def find? (m : Memory) (key : List Nat) : Option Nat :=
  match m.slots[m.slot key]? with
  | some (held, n) => if held = key then some n else none
  | none => none

def insert (m : Memory) (key : List Nat) (n : Nat) : Memory :=
  { m with slots := m.slots.insert (m.slot key) (key, n) }

end Memory

/-! ## Sizes -/

def stateSize : Nat := 32
def rangeSize : Nat := 8
def linkSize : Nat := 4

/-- The most bytes that an automaton may take. -/
def sizeLimit : Nat := 10 <<< 20

inductive Direction where
  | forwards
  | backwards
  deriving DecidableEq

/-! ## Layouts -/

/-- What is laid out of an automaton. -/
structure Layout where
  states : Nat := 0
  extra : Nat := 0             -- the bytes of ranges and of links out of forks
  endsInFork : Bool := false   -- whether what follows is linked to a fork

namespace Layout

def bytes (l : Layout) : Nat := stateSize * l.states + l.extra

def isTooLarge (l : Layout) : Bool := sizeLimit < l.bytes

/-- Pays for ranges or links. -/
def pay (l : Layout) (bytes : Nat) : Layout := { l with extra := l.extra + bytes }

/-- Lays out a state that is no fork. -/
def state (l : Layout) : Layout := { l with states := l.states + 1, endsInFork := false }

/-- Lays out states one behind the other. -/
def run (l : Layout) (length : Nat) : Layout :=
  { l with states := l.states + length, endsInFork := false }

/-- Lays out a fork. -/
def fork (l : Layout) : Layout := { l with states := l.states + 1, endsInFork := true }

/-- Links what was laid out last to another state. -/
def link (l : Layout) : Layout := if l.endsInFork then l.pay linkSize else l

/-- Goes on from a fork that was laid out before. -/
def endInFork (l : Layout) : Layout := { l with endsInFork := true }

/-- Goes on from a state that was laid out before and is no fork. -/
def endInState (l : Layout) : Layout := { l with endsInFork := false }

end Layout

/-- A piece of an automaton, which is laid out behind another. -/
abbrev Piece := Layout → Layout

namespace Piece

/-- Does a step `n` times; what is too large already is not laid out further. -/
def again (step : Layout → Layout) : (n : Nat) → Layout → Layout
  | 0, l => l
  | n + 1, l => if l.isTooLarge then l else again step n (step l)

/-- One piece behind the other. No pieces at all take a state that does nothing. -/
def chain : List Piece → Piece
  | [], l => l.state
  | first :: rest, l => rest.foldl (fun l piece => piece l.link) (first l)

/-- `n` times the same piece. -/
def times (piece : Piece) : Nat → Piece
  | 0, l => l.state
  | n + 1, l => again (fun l => piece l.link) n (piece l)

/-- At least `n` times the same piece, which takes characters if `advances`. -/
def atLeast (piece : Piece) (advances : Bool) : Nat → Piece
  | 0, l =>
    if advances then ((piece l.fork).link.pay linkSize).endInFork
    else (piece l).link.fork.fork.state.pay (4 * linkSize)
  | 1, l => (piece l).link.fork.pay linkSize
  | n + 2, l => (piece (piece.times (n + 1) l).link).link.fork.pay linkSize

/-- At least `min` and at most `max` times the same piece. -/
def between (piece : Piece) (min max : Nat) : Piece := fun l =>
  if min = max then piece.times min l
  else
    let optional := fun l : Layout => (piece l.fork).link.pay (2 * linkSize)
    (again optional (max - min) (piece.times min l).link.state).endInState

/-- A piece or nothing. -/
def option (piece : Piece) : Piece := fun l => (piece l.fork).link.state.pay (2 * linkSize)

/-- One of several pieces. The fork in front of them is laid out behind the second one. -/
def choice : List Piece → Piece
  | first :: second :: rest, l =>
    let two := (second (first l).link).link.fork.state.pay (2 * linkSize)
    rest.foldl (fun l piece => ((piece l).link.pay linkSize).endInState) two
  | pieces, l => chain pieces l

/-- A piece between two states that note where it starts and ends. -/
def noted (piece : Piece) : Piece := fun l => (piece l.state).link.state

end Piece

/-! ## Words with common beginnings -/

/-- Puts a word, given by its first letter and the rest, in front of the words with the same first
letter. -/
def addWord {α : Type} [DecidableEq α] (letter : α) (tail : List α) :
    List (α × List (List α)) → List (α × List (List α))
  | [] => [(letter, [tail])]
  | (other, tails) :: rest =>
    if letter = other then (letter, tail :: tails) :: rest
    else (other, tails) :: addWord letter tail rest

/-- The words that are not empty, by their first letter and otherwise in their order. -/
def branches {α : Type} [DecidableEq α] (words : List (List α)) : List (α × List (List α)) :=
  let found := words.foldl
    (fun found word => match word with | [] => found | letter :: tail => addWord letter tail found) []
  found.map fun (letter, tails) => (letter, tails.reverse)

/-! ## Sets -/

/-- A state that sorts bytes: its ranges, each with the state behind it. -/
abbrev Sorter := List (ByteRange × Nat)

/-- Finds the state that reads words of at most `depth` letters and ends in the state `target`, or lays
it out behind the states it leads to. -/
def laySorter (target : Nat) :
    (depth : Nat) → List (List ByteRange) → Layout → Memory → Nat × Layout × Memory
  | 0, _, l, m => (target, l, m)
  | depth + 1, words, l, m =>
    let (sorter, l, m) := (branches words).foldl
      (fun (sorter, l, m) (range, tails) =>
        if tails.all List.isEmpty then (sorter ++ [(range, target)], l, m)
        else
          let (next, l, m) := laySorter target depth tails l m
          (sorter ++ [(range, next)], l, m))
      (([] : Sorter), l, m)
    let key := sorter.flatMap fun (range, next) => [range.first, range.last, next]
    match m.find? key with
    | some found => (found, l, m)
    | none => (l.states, l.state.pay (rangeSize * sorter.length), m.insert key l.states)

/-- Finds the state that reads a byte in a range and leads to the state `next`, or lays it out. -/
def layByte (next : Nat) (range : ByteRange) (l : Layout) (m : Memory) : Nat × Layout × Memory :=
  let key := [next, range.first, range.last]
  match m.find? key with
  | some found => (found, l, m)
  | none => (l.states, l.state, m.insert key l.states)

/-- A set whose characters all take one byte is sorted by one state. Otherwise words share their ends
when read forwards, and their beginnings when read backwards. -/
def CharSet.lay (direction : Direction) (s : CharSet) : Piece := fun l =>
  if s.isAscii then (l.run 2).pay (rangeSize * s.runs.length)
  else
    match direction with
    | .forwards =>
      let (_, l, _) := laySorter l.states 4 s.words l.state { size := 10000 }
      l.endInState
    | .backwards =>
      let target := l.states + 1
      let (l, _) := s.words.foldl
        (fun (l, m) word =>
          let (_, l, m) := word.foldl
            (fun (next, l, m) range => layByte next range l m) (target, l, m)
          (l.pay linkSize, m))
        (l.run 2, ({ size := 1000 } : Memory))
      l.endInState

/-! ## Literals to choose from -/

/-- Cuts a list of words at its empty words. -/
def cutAtEmpty {α : Type} : List (List α) → List (List (List α))
  | [] => [[]]
  | word :: rest =>
    match word, cutAtEmpty rest with
    | [], parts => [] :: parts
    | word, part :: parts => (word :: part) :: parts
    | word, [] => [[word]]

/-- Lays out the states that read one of several words of at most `depth` letters, some of them not
empty. Words in front of an empty word are preferred to it, and those behind it are not; between them,
the fork has a way out. -/
def layWords : (depth : Nat) → List (List UInt8) → Layout → Layout
  | 0, _, l => l
  | depth + 1, words, l =>
    let words := match words with | [] :: rest => [] :: rest.dropWhile List.isEmpty | words => words
    let parts := (cutAtEmpty words).map branches
    let links := parts.length - 1 + (parts.filter fun part => !part.isEmpty).length
    parts.foldl
      (fun l part =>
        let l :=
          match part with
          | [] => l
          | [_] => l.state
          | _ => l.state.pay (rangeSize * part.length)
        part.foldl
          (fun l (_, tails) => if tails.all List.isEmpty then l else layWords depth tails l) l)
      (l.fork.pay (linkSize * links))

def literal? : Pattern → Option (List Char)
  | literal cs => some cs
  | _ => none

/-- The bytes that write some characters. -/
def encodeAll (cs : List Char) : List UInt8 := cs.flatMap String.utf8EncodeChar

/-- Lays out a choice between literals: words with a common beginning share its states. -/
def layLiterals (direction : Direction) (literals : List (List Char)) : Piece := fun l =>
  let words := literals.map encodeAll
  let words := match direction with | .forwards => words | .backwards => words.map List.reverse
  (layWords ((words.map List.length).foldl Nat.max 0) words l.state).endInState

/-! ## Patterns -/

mutual

/-- Lays out the automaton that reads a pattern in a direction. Only forwards are groups noted. -/
def lay (direction : Direction) : Pattern → Layout → Layout
  | empty, l => l.state
  | literal cs, l => l.run (encodeAll cs).length
  | set s, l => s.lay direction l
  | textStart, l => l.state
  | textEnd, l => l.state
  | group _ p, l =>
    match direction with
    | .forwards => Piece.noted (p.lay direction) l
    | .backwards => p.lay direction l
  | sequence ps, l =>
    let pieces := pieces direction ps
    Piece.chain (match direction with | .forwards => pieces | .backwards => pieces.reverse) l
  | choice ps, l =>
    match ps.mapM literal? with
    | some literals => layLiterals direction literals l
    | none => Piece.choice (pieces direction ps) l
  | times p min max, l =>
    let piece := p.lay direction
    match max with
    | none => Piece.atLeast piece (match p.minLength with | some n => 0 < n | none => false) min l
    | some max => if min = 0 ∧ max = 1 then Piece.option piece l else Piece.between piece min max l

def pieces (direction : Direction) : List Pattern → List Piece
  | [] => []
  | p :: ps => p.lay direction :: pieces direction ps

end

mutual

/-- Whether every match starts at the start of the text, as far as the form of the pattern tells. -/
def startsText : Pattern → Bool
  | textStart => true
  | group _ p => p.startsText
  | sequence ps => firstStartsText ps
  | choice ps => allStartText ps
  | times p min _ => 0 < min && p.startsText
  | empty | literal _ | set _ | textEnd => false

def firstStartsText : List Pattern → Bool
  | [] => false
  | p :: ps => p.startsText || (p.isEmptyOnly && firstStartsText ps)

def allStartText : List Pattern → Bool
  | [] => true
  | p :: ps => p.startsText && allStartText ps

end

mutual

/-- Whether every match ends at the end of the text, as far as the form of the pattern tells. -/
def endsText : Pattern → Bool
  | textEnd => true
  | group _ p => p.endsText
  | sequence ps => lastEndsText false ps
  | choice ps => allEndText ps
  | times p min _ => 0 < min && p.endsText
  | empty | literal _ | set _ | textStart => false

/-- The same for a sequence of which `before` says it of what stands in front. -/
def lastEndsText : (before : Bool) → List Pattern → Bool
  | before, [] => before
  | before, p :: ps => lastEndsText (p.endsText || (p.isEmptyOnly && before)) ps

def allEndText : List Pattern → Bool
  | [] => true
  | p :: ps => p.endsText && allEndText ps

end

/-- The whole automaton. It reads past any bytes to where a match can begin, unless that can only be at
the end of the text that is read first. Forwards the match is noted like a group, and at the end stands
a state that accepts. -/
def automaton (direction : Direction) (p : Pattern) : Layout :=
  let anchored := match direction with | .forwards => p.startsText | .backwards => p.endsText
  let anyByte : Piece := fun l => (l.run 2).pay rangeSize
  let skip : Piece := if anchored then Layout.state else anyByte.atLeast true 0
  ((group 0 p).lay direction (skip {}).link).link.state

/-- Whether the automata of a pattern are small enough. -/
def fits (p : Pattern) : Bool :=
  !(p.automaton .forwards).isTooLarge && !(p.automaton .backwards).isTooLarge

end WasmBinary.Pattern
