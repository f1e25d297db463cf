namespace SafeCalls.Yaml

/-!
# Character streams

A text as the characters from a place on, each with its position. A line break is one character,
however it is spelled: all spellings but the line and the paragraph separator are read as a line
feed. A byte order mark at the start is not part of the text, and others are characters like any
other. A text is taken in blocks, so that a character that may not stand in a text spoils all of the
block it is in, and nothing of the blocks before that one.
-/

/-- A position. The line and the column are counted in characters. -/
structure Position where
  /-- The number of bytes before it. -/
  offset : Nat
  line : Nat
  column : Nat
  deriving DecidableEq, Repr

namespace Position

def start : Position := ⟨0, 0, 0⟩

def afterChar (p : Position) (c : Char) : Position :=
  ⟨p.offset + c.utf8Size, p.line, p.column + 1⟩

/-- The position after a line break that is spelled with the given number of bytes. -/
def afterBreak (p : Position) (length : Nat) : Position := ⟨p.offset + length, p.line + 1, 0⟩

end Position

/-- The two separators that stay themselves when they are read. -/
def isSeparator (c : Char) : Bool := c == '\u2028' || c == '\u2029'

def isBreak (c : Char) : Bool := c == '\n' || c == '\r' || c == '\u0085' || isSeparator c

def isBlank (c : Char) : Bool := c == ' ' || c == '\t'

/-- Whether a character may stand in a text at all. -/
def isReadable (c : Char) : Bool :=
  c == '\t' || c == '\n' || c == '\r' || (' ' ≤ c && c ≤ '~') || c == '\u0085' ||
    ('\u00a0' ≤ c && c != '\ufffe' && c != '\uffff')

/-- The characters of directive names, anchors and tag handles. -/
def isWordChar (c : Char) : Bool := c.isAlphanum || c == '-' || c == '_'

def byteOrderMark : Char := '\ufeff'

/-- The rest of a text. -/
inductive Stream where
  | finish (position : Position)
  | next (c : Char) (position : Position) (rest : Stream)
  deriving Repr

namespace Stream

/-- The characters from a position on. -/
def ofChars : Position → List Char → Stream
  | p, [] => finish p
  | p, '\r' :: '\n' :: rest => next '\n' p (ofChars (p.afterBreak 2) rest)
  | p, c :: rest =>
      if isBreak c then
        next (if isSeparator c then c else '\n') p (ofChars (p.afterBreak c.utf8Size) rest)
      else next c p (ofChars (p.afterChar c) rest)

/-- A text without the mark that may stand in front of it. -/
def withoutMark : List Char → List Char
  | [] => []
  | c :: rest => if c = byteOrderMark then rest else c :: rest

/-- The number of bytes that are taken from a text at a time. -/
def blockSize : Nat := 16384

/-- The blocks of a text, when the first of them has room for the given number of bytes. Each but
the last has as many characters as there is room for. -/
def blocks : Nat → List Char → List (List Char)
  | _, [] => [[]]
  | room, c :: rest =>
      if c.utf8Size ≤ room then
        match blocks (room - c.utf8Size) rest with
        | [] => [[c]]
        | block :: more => (c :: block) :: more
      else
        match blocks (blockSize - c.utf8Size) rest with
        | [] => [[], [c]]
        | block :: more => [] :: (c :: block) :: more

/-- The stream of a text up to its first unreadable block, and whether there is one. -/
def ofText (text : List Char) : Stream × Bool :=
  let blocks := blocks blockSize text
  let readable := blocks.takeWhile (·.all isReadable)
  (ofChars .start (withoutMark readable.flatten), readable.length < blocks.length)

def position : Stream → Position
  | finish p => p
  | next _ p _ => p

def column (s : Stream) : Nat := s.position.column

def length : Stream → Nat
  | finish _ => 0
  | next _ _ rest => rest.length + 1

def tail : Stream → Stream
  | finish p => finish p
  | next _ _ rest => rest

/-- The character at the given distance. -/
def char? : Stream → Nat → Option Char
  | finish _, _ => none
  | next c _ _, 0 => some c
  | next _ _ rest, n + 1 => rest.char? n

/-- Whether the character at the given distance is this one. -/
def has (s : Stream) (distance : Nat) (c : Char) : Bool := s.char? distance == some c

/-- Whether a word ends before the given distance: a blank, a break or the end is there. -/
def isGap (s : Stream) (distance : Nat) : Bool :=
  match s.char? distance with
  | none => true
  | some c => isBlank c || isBreak c

/-- Whether a line ends here. -/
def isLineEnd (s : Stream) : Bool :=
  match s.char? 0 with
  | none => true
  | some c => isBreak c

/-- The longest run of characters of a class, and what comes after it. -/
def span (isIn : Char → Bool) : Stream → List Char × Stream
  | finish p => ([], finish p)
  | next c p rest =>
      if isIn c then
        let (cs, rest) := rest.span isIn
        (c :: cs, rest)
      else ([], next c p rest)

def skip (isIn : Char → Bool) (s : Stream) : Stream := (s.span isIn).2

/-- Three times the same character, and the end of a word after it. -/
def isTriple (s : Stream) (c : Char) : Bool :=
  s.has 0 c && s.has 1 c && s.has 2 c && s.isGap 3

/-- Whether a line starts here with the mark for the start or the end of a document. -/
def isDocumentMark (s : Stream) : Bool :=
  s.column == 0 && (s.isTriple '-' || s.isTriple '.')

/-- What comes after blanks and a comment, if the line ends there. -/
def afterLine? (s : Stream) : Option Stream :=
  let s := s.skip isBlank
  let s := if s.has 0 '#' then s.skip fun c => !isBreak c else s
  if s.isLineEnd then some s.tail else none

end Stream

end SafeCalls.Yaml
