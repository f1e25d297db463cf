import SafeCalls.Yaml.Scalar.Quoted
import SafeCalls.Yaml.Token

namespace SafeCalls.Yaml

/-!
# Anchors, tags and directives

The tokens that say something about a node or about a document, each read from its indicator on.
-/

namespace Property

/-- Whether a name may end here. -/
def isNameEnd (s : Stream) : Bool :=
  s.isGap 0 ||
    match s.char? 0 with
    | none => true
    | some c =>
        c == '?' || c == ':' || c == ',' || c == ']' || c == '\x7d' || c == '%' || c == '@' ||
          c == '\x60'

/-- The name of an anchor after its indicator. -/
def name? (s : Stream) : Option (String × Stream) :=
  let (name, rest) := s.span isWordChar
  if name.isEmpty || !isNameEnd rest then none else some (String.ofList name, rest)

/-- The characters of a tag. Flow indicators may only stand where the tag has an end mark of its
own. -/
def isTagChar (isDelimited : Bool) (c : Char) : Bool :=
  isWordChar c || ";/?:@&=+$.%!~*'()".toList.contains c ||
    (isDelimited && (c == ',' || c == '[' || c == ']'))

/-- The number of octets that follow an octet which starts a character. -/
def trailingOctets? (octet : Nat) : Option Nat :=
  if octet < 0x80 then some 0
  else if 0xC0 ≤ octet ∧ octet < 0xE0 then some 1
  else if 0xE0 ≤ octet ∧ octet < 0xF0 then some 2
  else if 0xF0 ≤ octet ∧ octet < 0xF8 then some 3
  else none

/-- How many octets follow, after an octet where the given number was awaited. -/
def awaited? (waiting octet : Nat) : Option Nat :=
  match waiting with
  | 0 => trailingOctets? octet
  | waiting + 1 => if 0x80 ≤ octet ∧ octet < 0xC0 then some waiting else none

/-- The octets of a tag. A percent sign and two hexadecimal digits stand for an octet, and escaped
octets have to follow each other like those of characters. -/
def octets? (isDelimited : Bool) : Nat → Stream → Option ((List UInt8) × Stream)
  | 0, .finish p => some ([], .finish p)
  | _ + 1, .finish _ => none
  | waiting, .next c p rest =>
      if c = '%' then
        match rest with
        | .next a _ (.next b _ rest) => do
            let octet := (← Quoted.hexValue? a) * 16 + (← Quoted.hexValue? b)
            let (octets, after) ← octets? isDelimited (← awaited? waiting octet) rest
            pure (octet.toUInt8 :: octets, after)
        | _ => none
      else if waiting ≠ 0 then none
      else if isTagChar isDelimited c then
        (octets? isDelimited 0 rest).map fun (octets, after) => (c.toNat.toUInt8 :: octets, after)
      else some ([], .next c p rest)

/-- A handle, or what looks like the start of one: an exclamation mark, a word, and perhaps another
exclamation mark. -/
def handleText? (s : Stream) : Option ((List Char) × Stream) :=
  if s.has 0 '!' then
    let (word, rest) := s.tail.span isWordChar
    if rest.has 0 '!' then some ('!' :: word ++ ['!'], rest.tail) else some ('!' :: word, rest)
  else none

def isHandle (cs : List Char) : Bool := 2 ≤ cs.length && cs.getLast? == some '!'

/-- A tag after its indicator, as a handle and the rest. -/
def tagText? (s : Stream) : Option ((String × Tag) × Stream) :=
  if s.has 1 '<' then do
    let (octets, rest) ← octets? true 0 s.tail.tail
    if octets.isEmpty || !rest.has 0 '>' then none else pure (("", ⟨octets⟩), rest.tail)
  else do
    let (handle, rest) ← handleText? s
    if isHandle handle then
      let (octets, rest) ← octets? false 0 rest
      if octets.isEmpty then none else pure ((String.ofList handle, ⟨octets⟩), rest)
    else
      let (octets, rest) ← octets? false 0 rest
      let tag : Tag := .append (.ofString (String.ofList (handle.drop 1))) ⟨octets⟩
      if tag.cut.octets.isEmpty then pure (("", Tag.nonSpecific), rest)
      else pure (("!", tag), rest)

/-- A tag, after which a blank has to come, or in a flow collection a comma. -/
def tag? (inFlow : Bool) (s : Stream) : Option (Token × Stream) := do
  let ((handle, rest), after) ← tagText? s
  if after.isGap 0 || (inFlow && after.has 0 ',') then pure (.tag handle rest, after) else none

/-- A number of at most nine digits. -/
def number? (s : Stream) : Option (Nat × Stream) :=
  let (digits, rest) := s.span Char.isDigit
  if digits.isEmpty || 9 < digits.length then none
  else some (digits.foldl (fun n c => n * 10 + (c.toNat - '0'.toNat)) 0, rest)

/-- The two numbers of a version. -/
def version? (s : Stream) : Option (Token × Stream) := do
  let (major, s) ← number? (s.skip isBlank)
  if s.has 0 '.' then
    let (minor, s) ← number? s.tail
    pure (.version major minor, s)
  else none

/-- A handle and what it stands for. -/
def handle? (s : Stream) : Option (Token × Stream) := do
  let (handle, s) ← handleText? (s.skip isBlank)
  if (handle = ['!'] || isHandle handle) && s.isGap 0 && !s.isLineEnd then
    let (octets, s) ← octets? true 0 (s.skip isBlank)
    if octets.isEmpty || !s.isGap 0 then none
    else pure (.handle (String.ofList handle) ⟨octets⟩, s)
  else none

/-- A directive after its indicator, with the rest of its line. -/
def directive? (s : Stream) : Option (Token × Stream) := do
  let (name, rest) := s.span isWordChar
  if !rest.isGap 0 then none
  else
    let (token, rest) ←
      if name = "YAML".toList then version? rest
      else if name = "TAG".toList then handle? rest
      else none
    pure (token, ← rest.afterLine?)

end Property

end SafeCalls.Yaml
