import SafeCalls.Yaml.Stream

namespace SafeCalls.Yaml

/-!
# Block scalars

A block scalar consists of the lines below its header that are indented as far as its first line.
A literal one keeps its line breaks and a folded one joins lines of text. The header says how many
of the line breaks at the end are kept.
-/

namespace Block

/-- Which of the line breaks at the end are kept: none, the first, or all. -/
inductive Chomping where
  | strip
  | clip
  | keep
  deriving DecidableEq, Repr

structure Header where
  chomping : Chomping
  /-- By how much the lines are indented, if that is said. -/
  increment : Option Nat

def chomping? (s : Stream) : Option Chomping :=
  if s.has 0 '+' then some .keep else if s.has 0 '-' then some .strip else none

/-- A digit other than zero, no digit, or the fault of a zero. -/
def increment? (s : Stream) : Option (Option Nat × Stream) :=
  match s with
  | .next c _ rest =>
      if c.isDigit then
        if c = '0' then none else some (some (c.toNat - '0'.toNat), rest)
      else some (none, s)
  | .finish _ => some (none, s)

/-- The header after its indicator, up to the start of the next line. The two marks may stand in
either order. -/
def header? (s : Stream) : Option (Header × Stream) := do
  match chomping? s with
  | some chomping =>
      let (increment, s) ← increment? s.tail
      pure (⟨chomping, increment⟩, ← s.afterLine?)
  | none =>
      let (increment, s) ← increment? s
      match increment, chomping? s with
      | some _, some chomping => pure (⟨chomping, increment⟩, ← s.tail.afterLine?)
      | _, _ => pure (⟨.clip, increment⟩, ← s.afterLine?)

/-- Whether a column belongs to the indentation, of which no end may be known yet. -/
def isInMargin (indent : Option Nat) (column : Nat) : Bool :=
  match indent with
  | none => true
  | some n => column < n

/-- The breaks of empty lines, the widest indentation among them and the line after them, and that
line from the end of its indentation on. -/
def emptyLines? (indent : Option Nat) : Nat → Stream → Option (List Char × Nat × Stream)
  | widest, .finish p => some ([], max widest p.column, .finish p)
  | widest, .next c p rest =>
      if c == ' ' && isInMargin indent p.column then emptyLines? indent widest rest
      else if c == '\t' && isInMargin indent p.column then none
      else if isBreak c then
        (emptyLines? indent (max widest p.column) rest).map fun (cs, after) => (c :: cs, after)
      else some ([], max widest p.column, .next c p rest)

/-- What has been read since the last character of a line, or since the start. -/
structure Pause where
  /-- Whether the line before started with a blank. -/
  isBlankBefore : Bool
  /-- The break of that line. -/
  first : List Char
  /-- The breaks after that. -/
  others : List Char

/-- What the pause becomes before a line. -/
def Pause.text (pause : Pause) (isFolded isBlankAfter : Bool) : List Char :=
  if isFolded && pause.first == ['\n'] && !pause.isBlankBefore && !isBlankAfter then
    (if pause.others.isEmpty then [' '] else []) ++ pause.others
  else pause.first ++ pause.others

/-- What the pause becomes at the end of the scalar. -/
def Pause.tail (pause : Pause) : Chomping → List Char
  | .strip => []
  | .clip => pause.first
  | .keep => pause.first ++ pause.others

/-- How far a block scalar has been read: into a line, of which it is known whether it started with
a blank, or into the breaks and the indentation before one. -/
inductive Mode where
  | inside (isBlankLine : Bool)
  | between (pause : Pause)

/-- The lines of a block scalar, and what comes after them. -/
def lines? (isFolded : Bool) (chomping : Chomping) (indent : Nat) :
    Mode → Stream → Option (List Char × Stream)
  | .inside _, .finish p => some ([], .finish p)
  | .between pause, .finish p => some (pause.tail chomping, .finish p)
  | .inside isBlankLine, .next c _ rest =>
      if isBreak c then lines? isFolded chomping indent (.between ⟨isBlankLine, [c], []⟩) rest
      else
        (lines? isFolded chomping indent (.inside isBlankLine) rest).map fun (cs, after) =>
          (c :: cs, after)
  | .between pause, .next c p rest =>
      if c == ' ' && p.column < indent then
        lines? isFolded chomping indent (.between pause) rest
      else if c == '\t' && p.column < indent then none
      else if isBreak c then
        lines? isFolded chomping indent (.between { pause with others := pause.others ++ [c] })
          rest
      else if p.column = indent then
        (lines? isFolded chomping indent (.inside (isBlank c)) rest).map fun (cs, after) =>
          (pause.text isFolded (isBlank c) ++ c :: cs, after)
      else some (pause.tail chomping, .next c p rest)

/-- The text of a block scalar after its indicator, and what comes after it. Its lines are indented
from the margin on. -/
def read? (isFolded : Bool) (margin : Nat) (s : Stream) : Option (List Char × Stream) := do
  let (header, s) ← header? s
  let asked := header.increment.map fun n => margin - 1 + n
  let (breaks, widest, s) ← emptyLines? asked 0 s
  let indent := asked.getD (max (max widest margin) 1)
  lines? isFolded header.chomping indent (.between ⟨false, [], breaks⟩) s

end Block

end SafeCalls.Yaml
