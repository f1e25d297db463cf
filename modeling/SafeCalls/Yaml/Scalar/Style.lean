import SafeCalls.Yaml.Schema
import SafeCalls.Yaml.Stream
import SafeCalls.Yaml.Token

namespace SafeCalls.Yaml

/-!
# The style of a text

A text is written plain where it is read back as the same text. Apostrophes around it keep what a
plain scalar would turn into something else, text of several lines is written as a literal block,
and escapes between double quotes keep what the other styles cannot.
-/

/-- The styles that texts are written in. -/
inductive TextStyle where
  | plain
  | apostrophes
  | literal
  | escaped
  deriving DecidableEq, Repr

namespace TextStyle

/-- Whether a character stands for itself outside of escapes. -/
def isPrintable (c : Char) : Bool :=
  c == '\n' || (' ' ≤ c && c ≤ '~') ||
    ('\u00a0' ≤ c && c != byteOrderMark && c != '\ufffe' && c != '\uffff')

/-- Whether two characters next to each other are of the given classes. -/
def hasPair (isFirst isSecond : Char → Bool) : List Char → Bool
  | a :: b :: rest => (isFirst a && isSecond b) || hasPair isFirst isSecond (b :: rest)
  | _ => false

def isSpace (c : Char) : Bool := c == ' '

def isGapChar (c : Char) : Bool := isBlank c || isBreak c

/-- Whether a word ends in front of what follows. -/
def isAtGap : List Char → Bool
  | [] => true
  | c :: _ => isGapChar c

/-- Whether a first character has another meaning than to stand for itself. -/
def isIndicator (c : Char) (rest : List Char) : Bool :=
  "#,[]\x7b\x7d&*!|>'\"%@\x60".toList.contains c || ("?:-".toList.contains c && isAtGap rest)

/-- Whether a colon ends a word or a number sign starts one, after a character. -/
def hasMark : Char → List Char → Bool
  | _, [] => false
  | before, c :: rest =>
      (c == ':' && isAtGap rest) || (c == '#' && isGapChar before) || hasMark c rest

/-- Whether a text looks like the start or the end of a document. -/
def startsDocument : List Char → Bool
  | '-' :: '-' :: '-' :: _ => true
  | '.' :: '.' :: '.' :: _ => true
  | _ => false

/-- Whether a text has an indicator that a plain scalar may not have. -/
def hasIndicator : List Char → Bool
  | [] => false
  | c :: rest => startsDocument (c :: rest) || isIndicator c rest || hasMark c rest

def hasGapAtEnds (cs : List Char) : Bool :=
  let isOuter (c : Char) := c == ' ' || isBreak c
  (cs.head?.map isOuter).getD false || (cs.getLast?.map isOuter).getD false

/-- Whether only escapes keep a text: a character has no other form, or a space ends a line. -/
def needsEscapes (cs : List Char) : Bool :=
  cs.any (!isPrintable ·) || hasPair isSpace isBreak cs

def allowsPlain (cs : List Char) : Bool :=
  !(needsEscapes cs || cs.any isBreak || hasGapAtEnds cs || hasIndicator cs)

def allowsApostrophes (cs : List Char) : Bool :=
  !(needsEscapes cs || hasPair isBreak isSpace cs)

def allowsLiteral (cs : List Char) : Bool :=
  !(needsEscapes cs || cs.getLast? == some ' ')

/-- Whether a plain scalar of the text would be read as a text. -/
def readsAsText (s : String) : Bool :=
  match Schema.found s with
  | .text _ => !Schema.isPaddedNumber s.toList
  | _ => false

/-- The style that suits a text, whether or not it is allowed. -/
def preferred (s : String) : TextStyle :=
  if s.toList.contains '\n' then .literal
  else if readsAsText s then .plain
  else .apostrophes

/-- The style of a text, which for a key is one without line breaks. -/
def choose (isKey : Bool) (s : String) : TextStyle :=
  let cs := s.toList
  let fallback := if allowsApostrophes cs then TextStyle.apostrophes else .escaped
  if isKey && cs.any isBreak then .escaped
  else
    match preferred s with
    | .literal => if allowsLiteral cs then .literal else .escaped
    | .plain => if allowsPlain cs then .plain else fallback
    | _ => fallback

end TextStyle

end SafeCalls.Yaml
