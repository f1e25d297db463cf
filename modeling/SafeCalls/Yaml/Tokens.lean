import SafeCalls.Yaml.Property
import SafeCalls.Yaml.Scalar.Block
import SafeCalls.Yaml.Scalar.Plain

namespace SafeCalls.Yaml

/-!
# The tokens of a stream

Tokens are read one after another, except that a key is only recognised by the colon after it: what
may be a key is kept in mind, and the tokens that show that it is one are put before it later. A
key is written on one line and has at most 1024 bytes. Indentation opens and closes the block
collections, and none of it counts inside flow collections.
-/

/-- Something that may turn out to be a key. -/
structure Candidate where
  /-- The number of tokens before it. -/
  number : Nat
  position : Position
  /-- Whether nothing but a key is allowed there. -/
  isRequired : Bool

/-- How far the tokens of a stream have been read. -/
structure Progress where
  ahead : Stream
  /-- The tokens so far, the latest first. -/
  tokens : List Token
  /-- The columns of the open block collections, the innermost first. -/
  indents : List Nat
  /-- What may be a key of the innermost collection. -/
  candidate : Option Candidate
  /-- The same for each of the collections around an open flow collection. -/
  outer : List (Option Candidate)
  /-- Whether a key may start here. -/
  isKeyAllowed : Bool
  /-- Whether the stream ends because what comes after it cannot be read. -/
  isCut : Bool

namespace Progress

def start (s : Stream) (isCut : Bool) : Progress := ⟨s, [], [], none, [], true, isCut⟩

def inFlow (p : Progress) : Bool := !p.outer.isEmpty

def column (p : Progress) : Nat := p.ahead.column

/-- The column that is too little for the innermost block collection by one. -/
def margin (p : Progress) : Nat :=
  match p.indents with
  | [] => 0
  | indent :: _ => indent + 1

def count (p : Progress) : Nat := p.tokens.length

def emit (p : Progress) (token : Token) : Progress := { p with tokens := token :: p.tokens }

/-- Puts a token behind the given number of tokens. -/
def insert (p : Progress) (number : Nat) (token : Token) : Progress :=
  let later := p.count - number
  { p with tokens := p.tokens.take later ++ token :: p.tokens.drop later }

def moveTo (p : Progress) (ahead : Stream) : Progress := { p with ahead := ahead }

def allowKey (p : Progress) (isAllowed : Bool) : Progress := { p with isKeyAllowed := isAllowed }

/-- Blanks, comments and line breaks before a token. A line break lets a key start, and only where
no key may start are tabs blanks. -/
def skipGap (inFlow : Bool) : Bool → Bool → Stream → Stream × Bool
  | isKeyAllowed, _, .finish p => (.finish p, isKeyAllowed)
  | isKeyAllowed, isComment, .next c p rest =>
      if isBreak c then skipGap inFlow (isKeyAllowed || !inFlow) false rest
      else if isComment then skipGap inFlow isKeyAllowed true rest
      else if c = byteOrderMark ∧ p.column = 0 then skipGap inFlow isKeyAllowed false rest
      else if c = ' ' ∨ (c = '\t' ∧ (inFlow || !isKeyAllowed)) then
        skipGap inFlow isKeyAllowed false rest
      else if c = '#' then skipGap inFlow isKeyAllowed true rest
      else (.next c p rest, isKeyAllowed)

def toToken (p : Progress) : Progress :=
  let (ahead, isKeyAllowed) := skipGap p.inFlow p.isKeyAllowed false p.ahead
  { p with ahead := ahead, isKeyAllowed := isKeyAllowed }

/-- Whether a candidate is too far behind a position to be a key. -/
def isStale (position : Position) (c : Candidate) : Bool :=
  c.position.line < position.line || c.position.offset + 1024 < position.offset

/-- The candidate, unless it is too far behind. -/
def current? (position : Position) : Option Candidate → Option (Option Candidate)
  | none => some none
  | some c =>
      if isStale position c then
        if c.isRequired then none else some none
      else some (some c)

/-- Forgets the candidates that are too far behind. -/
def expire? (p : Progress) : Option Progress := do
  let candidate ← current? p.ahead.position p.candidate
  let outer ← p.outer.mapM (current? p.ahead.position)
  pure { p with candidate := candidate, outer := outer }

/-- Forgets the innermost candidate. -/
def dropKey? (p : Progress) : Option Progress :=
  match p.candidate with
  | none => some p
  | some c => if c.isRequired then none else some { p with candidate := none }

/-- Keeps in mind that a key may start here, if one may. -/
def saveKey? (p : Progress) : Option Progress :=
  if p.isKeyAllowed then do
    let p ← p.dropKey?
    let isRequired := !p.inFlow && p.indents.head? == some p.column
    pure { p with candidate := some ⟨p.count, p.ahead.position, isRequired⟩ }
  else some p

/-- Closes the block collections that start at a column from the given one on. -/
def close (p : Progress) (floor : Nat) : Progress :=
  if p.inFlow then p
  else
    let closed := p.indents.takeWhile (floor ≤ ·)
    { p with
      indents := p.indents.drop closed.length
      tokens := closed.map (fun _ => Token.blockEnd) ++ p.tokens }

/-- Opens a block collection at a column behind the given number of tokens, unless one is open
there. -/
def openAt (p : Progress) (column number : Nat) (token : Token) : Progress :=
  if !p.inFlow && p.margin ≤ column then
    { p.insert number token with indents := column :: p.indents }
  else p

/-- Opens a block collection here, where only a key or an item may start. -/
def openHere? (p : Progress) (token : Token) : Option Progress :=
  if p.inFlow then some p
  else if p.isKeyAllowed then some (p.openAt p.column p.count token)
  else none

/-- A token of the given number of characters. -/
def take (p : Progress) (length : Nat) (token : Token) : Progress :=
  (p.moveTo (Nat.repeat Stream.tail length p.ahead)).emit token

/-- The end of the stream, which also ends a line that has been started. -/
def finish? (p : Progress) : Option Progress := do
  let p ← (p.close 0).dropKey?
  let position := p.ahead.position
  let position := if position.column = 0 then position else position.afterBreak 0
  pure (((p.allowKey false).moveTo (.finish position)).emit .streamEnd)

def directive? (p : Progress) : Option Progress := do
  let p ← (p.close 0).dropKey?
  let (token, rest) ← Property.directive? p.ahead.tail
  pure (((p.allowKey false).moveTo rest).emit token)

def documentMark? (p : Progress) (token : Token) : Option Progress := do
  let p ← (p.close 0).dropKey?
  pure ((p.allowKey false).take 3 token)

def openFlow? (p : Progress) (token : Token) : Option Progress := do
  let p ← p.saveKey?
  let p := { p with candidate := none, outer := p.candidate :: p.outer }
  pure ((p.allowKey true).take 1 token)

def closeFlow? (p : Progress) (token : Token) : Option Progress := do
  let p ← p.dropKey?
  let p :=
    match p.outer with
    | [] => p
    | candidate :: outer => { p with candidate := candidate, outer := outer }
  pure ((p.allowKey false).take 1 token)

def separator? (p : Progress) : Option Progress := do
  let p ← p.dropKey?
  pure ((p.allowKey true).take 1 .flowSeparator)

def item? (p : Progress) : Option Progress := do
  let p ← (← p.openHere? .blockListStart).dropKey?
  pure ((p.allowKey true).take 1 .blockItem)

def key? (p : Progress) : Option Progress := do
  let p ← (← p.openHere? .blockMappingStart).dropKey?
  pure ((p.allowKey (!p.inFlow)).take 1 .key)

def value? (p : Progress) : Option Progress :=
  match p.candidate with
  | some c =>
      let p := (p.insert c.number .key).openAt c.position.column c.number .blockMappingStart
      some (({ p with candidate := none }.allowKey false).take 1 .value)
  | none => do
      let p ← p.openHere? .blockMappingStart
      pure ((p.allowKey (!p.inFlow)).take 1 .value)

/-- A token that may start a key, as read from the stream. -/
def part? (p : Progress) (read? : Stream → Option (Token × Stream)) : Option Progress := do
  let p ← p.saveKey?
  let (token, rest) ← read? p.ahead
  pure (((p.allowKey false).moveTo rest).emit token)

def blockScalar? (p : Progress) (style : ScalarStyle) : Option Progress := do
  let p ← p.dropKey?
  let (cs, rest) ← Block.read? (style == .folded) p.margin p.ahead.tail
  pure (((p.allowKey true).moveTo rest).emit (.scalar (String.ofList cs) style))

def quotedScalar? (p : Progress) (quote : Char) : Option Progress :=
  p.part? fun s => do
    let (cs, rest) ← Quoted.read? quote .inside s.tail
    pure (.scalar (String.ofList cs) .quoted, rest)

def plainScalar? (p : Progress) : Option Progress := do
  let p ← p.saveKey?
  let (cs, isBroken, rest) ← Plain.read? ⟨p.inFlow, p.margin⟩ .inside p.ahead
  pure (((p.allowKey isBroken).moveTo rest).emit (.scalar (String.ofList cs) .plain))

/-- Whether a plain scalar may start with a character, whatever comes after it. -/
def startsPlain (c : Char) : Bool :=
  !(isBlank c || isBreak c || "-?:,[]\x7b\x7d#&*!|>'\"%@\x60".toList.contains c)

/-- Whether a plain scalar starts here. -/
def isPlainStart (p : Progress) : Bool :=
  let s := p.ahead
  match s.char? 0 with
  | none => false
  | some c =>
      startsPlain c ||
        (c == '-' && !((s.char? 1).map isBlank).getD false) ||
        (!p.inFlow && (c == '?' || c == ':') && !s.isGap 1)

/-- What starts with an indicator. -/
def indicated? (p : Progress) (c : Char) : Option (Option Progress) :=
  let s := p.ahead
  match c with
  | '[' => some (p.openFlow? .flowListStart)
  | '\x7b' => some (p.openFlow? .flowMappingStart)
  | ']' => some (p.closeFlow? .flowListEnd)
  | '\x7d' => some (p.closeFlow? .flowMappingEnd)
  | ',' => some p.separator?
  | '-' => if s.isGap 1 then some p.item? else none
  | '?' => if p.inFlow || s.isGap 1 then some p.key? else none
  | ':' => if p.inFlow || s.isGap 1 then some p.value? else none
  | '*' => some (p.part? fun s => (Property.name? s.tail).map fun (n, rest) => (.alias n, rest))
  | '&' => some (p.part? fun s => (Property.name? s.tail).map fun (n, rest) => (.anchor n, rest))
  | '!' => some (p.part? (Property.tag? p.inFlow))
  | '|' => if p.inFlow then none else some (p.blockScalar? .literal)
  | '>' => if p.inFlow then none else some (p.blockScalar? .folded)
  | '\'' => some (p.quotedScalar? '\'')
  | '"' => some (p.quotedScalar? '"')
  | _ => none

/-- The next token, and the ends of collections before it. -/
def token? (p : Progress) : Option Progress :=
  let s := p.ahead
  match s.char? 0 with
  | none => p.finish?
  | some c =>
      if c = '%' ∧ s.column = 0 then p.directive?
      else if s.column = 0 ∧ s.isTriple '-' then p.documentMark? .documentStart
      else if s.column = 0 ∧ s.isTriple '.' then p.documentMark? .documentEnd
      else
        match p.indicated? c with
        | some next => next
        | none => if p.isPlainStart then p.plainScalar? else none

/-- Whether the given number of characters can be looked at. Beyond the end of a text there are as
many as one likes, but none where the text is cut. -/
def canSee (p : Progress) (length : Nat) : Bool := !p.isCut || (p.ahead.char? (length - 1)).isSome

/-- One token more. Four characters are looked at to tell what it is, and one to tell that it is
over. -/
def step? (p : Progress) : Option Progress := do
  let p ← p.toToken.expire?
  if p.canSee 4 then
    let p ← (p.close (p.column + 1)).token?
    if p.canSee 1 then p.expire? else none
  else none

/-- The tokens that are certain: those before anything that may still be a key. -/
def certain (p : Progress) : List Token :=
  let candidates := (p.candidate :: p.outer).filterMap id
  p.tokens.reverse.take (candidates.foldl (fun n c => min n c.number) p.count)

/-- The tokens up to the end of the stream or up to a fault. -/
def run : Nat → Progress → List Token
  | 0, p => p.certain
  | fuel + 1, p =>
      if p.tokens.head? = some .streamEnd then p.tokens.reverse
      else
        match p.step? with
        | none => p.certain
        | some p => run fuel p

end Progress

/-- The tokens of a stream. Only if it is without fault they end with the end of the stream. -/
def Stream.tokens (s : Stream) (isCut : Bool) : List Token :=
  (Progress.start s isCut).run (s.length + 2)

end SafeCalls.Yaml
