namespace SafeCalls.Yaml

/-!
# Tokens

The tokens of a YAML text. Indentation shows in them as the starts and ends of block collections.
-/

/-- How a scalar is written. -/
inductive ScalarStyle where
  | plain
  | quoted
  | literal
  | folded
  deriving DecidableEq, Repr

/-- A tag as octets, because an escape in it may spell any of them. -/
structure Tag where
  octets : List UInt8
  deriving DecidableEq, Repr

namespace Tag

/-- The octets before the first zero, which ends a tag wherever it stands. -/
def cut (tag : Tag) : Tag := ⟨tag.octets.takeWhile (· != 0)⟩

def append (a b : Tag) : Tag := ⟨a.octets ++ b.octets⟩

def ofString (s : String) : Tag := ⟨s.toUTF8.toList⟩

/-- The text of a tag, if its octets are one. -/
def text? (tag : Tag) : Option String := String.fromUTF8? tag.octets.toByteArray

/-- The tag that consists of the indicator alone. -/
def nonSpecific : Tag := ofString "!"

/-- The tag of a type of the core schema. -/
def core (name : String) : Tag := ofString ("tag:yaml.org,2002:" ++ name)

end Tag

inductive Token where
  | version (major minor : Nat)
  /-- A handle and what it stands for. -/
  | handle (name : String) (meaning : Tag)
  | documentStart
  | documentEnd
  | streamEnd
  | blockListStart
  | blockMappingStart
  | blockEnd
  | flowListStart
  | flowListEnd
  | flowMappingStart
  | flowMappingEnd
  | blockItem
  | flowSeparator
  | key
  | value
  | alias (name : String)
  | anchor (name : String)
  | tag (handle : String) (rest : Tag)
  | scalar (text : String) (style : ScalarStyle)
  deriving DecidableEq, Repr

end SafeCalls.Yaml
