import SafeCalls.Yaml.Node
import SafeCalls.Yaml.Tokens

namespace SafeCalls.Yaml

/-!
# Documents

A document is the node that the tokens of a stream spell. Indentation and brackets have become
tokens already, so that what is left is to put keys and values together and to give each anchor and
each tag its meaning.
-/

/-- What is still to be read of a document: the tokens and the meanings of names. -/
structure Pending where
  tokens : List Token
  handles : List (String × Tag)
  anchors : List (String × Nat)

/-- Reading a part of a document. -/
abbrev Building := StateM Pending

namespace Building

/-- The next token, unless there is a fault. -/
def peek : Building (Option Token) := do
  pure (← get).tokens.head?

def advance : Building Unit := modify fun s => { s with tokens := s.tokens.drop 1 }

/-- Nothing can be read any more. -/
def stop : Building Unit := modify fun s => { s with tokens := [] }

def fault : Building Node := do
  stop
  pure .broken

/-- Gives a number to a node with an anchor: the number of names that are in use by then. A name
that is used again does not add to them, so that its number is given once more to the next name. -/
def register : Option String → Building (Node → Node)
  | none => pure id
  | some name => do
      let s ← get
      let number := s.anchors.length
      set { s with anchors := (name, number) :: s.anchors.filter (·.1 != name) }
      pure (Node.anchored number)

/-- The tag that a handle and the rest of it spell, unless the handle is unknown. -/
def resolve? (handle : String) (rest : Tag) : Building (Option Tag) := do
  if handle.isEmpty then pure (some rest.cut)
  else pure (((← get).handles.lookup handle).map fun meaning => meaning.cut.append rest.cut)

structure Properties where
  anchor : Option String
  tag : Option Tag

/-- The anchor and the tag of a node, in either order. -/
def properties : Building (Option Properties) := do
  let anchorThere : Building (Option String) := do
    match ← peek with
    | some (.anchor name) =>
        advance
        pure (some name)
    | _ => pure none
  let before ← anchorThere
  match ← peek with
  | some (.tag handle rest) => do
      advance
      let after ← if before.isNone then anchorThere else pure none
      match ← peek with
      | none => pure none
      | some _ => do
          match ← resolve? handle rest with
          | none => pure none
          | some tag => pure (some ⟨before.or after, some tag⟩)
  | _ => pure (some ⟨before, none⟩)

/-- Which collections may start here. -/
structure Position where
  /-- Block collections. -/
  isBlock : Bool
  /-- The items of a list that is not indented. -/
  isItem : Bool

/-- Whether a key or a value is left out before the token. -/
def isLeftOut (inFlow : Bool) (token : Token) : Bool :=
  if inFlow then token == .flowSeparator || token == .flowMappingEnd
  else token == .key || token == .value || token == .blockEnd

mutual

def node : Nat → Position → Building Node
  | 0, _ => fault
  | fuel + 1, position => do
      match ← peek with
      | some (.alias name) =>
          advance
          match (← get).anchors.lookup name with
          | some anchor => pure (.alias anchor)
          | none => fault
      | _ =>
          match ← properties with
          | none => fault
          | some p => content fuel position p

/-- A node after its anchor and its tag. -/
def content : Nat → Position → Properties → Building Node
  | 0, _, _ => fault
  | fuel + 1, position, p => do
      match ← peek with
      | none => fault
      | some (.scalar text style) =>
          let anchored ← register p.anchor
          advance
          pure (anchored (.scalar ⟨text, style, p.tag⟩))
      | some .flowMappingStart =>
          let anchored ← register p.anchor
          advance
          let (entries, isCut) ← flowEntries fuel true
          pure (anchored (.mapping p.tag entries isCut))
      | some token =>
          if token == .flowListStart then
            let anchored ← register p.anchor
            advance
            pure (anchored (.list p.tag (← flowItems fuel true)))
          else if position.isBlock && token == .blockListStart then
            let anchored ← register p.anchor
            advance
            pure (anchored (.list p.tag (← blockItems fuel)))
          else if position.isItem && token == .blockItem then
            let anchored ← register p.anchor
            pure (anchored (.list p.tag (← looseItems fuel)))
          else if position.isBlock && token == .blockMappingStart then
            let anchored ← register p.anchor
            advance
            let (entries, isCut) ← blockEntries fuel
            pure (anchored (.mapping p.tag entries isCut))
          else if p.anchor.isSome || p.tag.isSome then
            let anchored ← register p.anchor
            pure (anchored (.scalar ⟨"", .plain, p.tag⟩))
          else fault

/-- The items of a block list up to its end. -/
def blockItems : Nat → Building (List Node)
  | 0 => do
      stop
      pure []
  | fuel + 1 => do
      match ← peek with
      | some .blockItem =>
          advance
          let item ←
            match ← peek with
            | none => fault
            | some token =>
                if token == .blockItem || token == .blockEnd then pure .empty
                else node fuel ⟨true, false⟩
          pure (item :: (← blockItems fuel))
      | some .blockEnd =>
          advance
          pure []
      | _ =>
          stop
          pure []

/-- The items of a block list that is not indented, which has no end of its own. -/
def looseItems : Nat → Building (List Node)
  | 0 => do
      stop
      pure []
  | fuel + 1 => do
      match ← peek with
      | some .blockItem =>
          advance
          let item ←
            match ← peek with
            | none => fault
            | some token =>
                if token == .blockItem || isLeftOut false token then pure .empty
                else node fuel ⟨true, false⟩
          pure (item :: (← looseItems fuel))
      | _ => pure []

/-- The items of a flow list up to its end. Between two of them is a separator. -/
def flowItems : Nat → Bool → Building (List Node)
  | 0, _ => do
      stop
      pure []
  | fuel + 1, isFirst => do
      let isSeparated ←
        match ← peek with
        | some .flowSeparator => if isFirst then pure true else do
            advance
            pure true
        | _ => pure isFirst
      match ← peek with
      | none => pure []
      | some .flowListEnd =>
          advance
          pure []
      | some token =>
          if !isSeparated then
            stop
            pure []
          else
            let item ←
              if token == .key then do
                advance
                pair fuel
              else node fuel ⟨false, false⟩
            pure (item :: (← flowItems fuel false))

/-- A key and its value as an item of a flow list. The token before which the key is left out goes
unread. -/
def pair : Nat → Building Node
  | 0 => fault
  | fuel + 1 => do
      let endsItem (token : Token) : Bool := token == .flowSeparator || token == .flowListEnd
      let key ←
        match ← peek with
        | none => fault
        | some token =>
            if token == .value || endsItem token then do
              advance
              pure .empty
            else node fuel ⟨false, false⟩
      let value ←
        match ← peek with
        | none => fault
        | some .value =>
            advance
            match ← peek with
            | none => fault
            | some token => if endsItem token then pure .empty else node fuel ⟨false, false⟩
        | some _ => pure .empty
      pure (.mapping none [(key, value)] false)

/-- The value after a key of a block mapping. -/
def blockValue : Nat → Building Node
  | 0 => fault
  | fuel + 1 => do
      match ← peek with
      | none => fault
      | some .value =>
          advance
          match ← peek with
          | none => fault
          | some token => if isLeftOut false token then pure .empty else node fuel ⟨true, true⟩
      | some _ => pure .empty

/-- The entries of a block mapping up to its end, and whether a fault cuts them off. -/
def blockEntries : Nat → Building (List (Node × Node) × Bool)
  | 0 => do
      stop
      pure ([], true)
  | fuel + 1 => do
      match ← peek with
      | some .key =>
          advance
          let key ←
            match ← peek with
            | none => fault
            | some token => if isLeftOut false token then pure .empty else node fuel ⟨true, true⟩
          let value ← blockValue fuel
          let (entries, isCut) ← blockEntries fuel
          pure ((key, value) :: entries, isCut)
      | some .blockEnd =>
          advance
          pure ([], false)
      | _ =>
          stop
          pure ([], true)

/-- The value after a key of a flow mapping. -/
def flowValue : Nat → Building Node
  | 0 => fault
  | fuel + 1 => do
      match ← peek with
      | none => fault
      | some .value =>
          advance
          match ← peek with
          | none => fault
          | some token => if isLeftOut true token then pure .empty else node fuel ⟨false, false⟩
      | some _ => pure .empty

/-- The entries of a flow mapping up to its end, and whether a fault cuts them off. Between two of
them is a separator. -/
def flowEntries : Nat → Bool → Building (List (Node × Node) × Bool)
  | 0, _ => do
      stop
      pure ([], true)
  | fuel + 1, isFirst => do
      let isSeparated ←
        match ← peek with
        | some .flowSeparator => if isFirst then pure true else do
            advance
            pure true
        | some .flowMappingEnd => pure true
        | _ => pure isFirst
      match ← peek with
      | none =>
          pure ([], true)
      | some .flowMappingEnd =>
          advance
          pure ([], false)
      | some token =>
          if !isSeparated then
            stop
            pure ([], true)
          else
            let (key, value) ←
              if token == .key then do
                advance
                let key ←
                  match ← peek with
                  | none => fault
                  | some token =>
                      if token == .value || isLeftOut true token then pure .empty
                      else node fuel ⟨false, false⟩
                let value ← flowValue fuel
                pure (key, value)
              else do
                let key ← node fuel ⟨false, false⟩
                match ← peek with
                | none => pure (key, .broken)
                | some _ => pure (key, .empty)
            let (entries, isCut) ← flowEntries fuel false
            pure ((key, value) :: entries, isCut)

end

end Building

/-- The handles that are known without a directive. -/
def knownHandles : List (String × Tag) :=
  [("!", Tag.nonSpecific), ("!!", Tag.ofString "tag:yaml.org,2002:")]

/-- The handles that the directives before a document define, and the tokens after them. There may
be one version, and each handle is defined once. -/
def directives? :
    Bool → List (String × Tag) → List Token → Option (List (String × Tag) × List Token)
  | hasVersion, handles, .version major minor :: more =>
      if hasVersion || major != 1 || !(minor == 1 || minor == 2) then none
      else directives? true handles more
  | hasVersion, handles, .handle name meaning :: more =>
      if (handles.lookup name).isSome then none
      else directives? hasVersion ((name, meaning) :: handles) more
  | _, handles, tokens => some (handles, tokens)

/-- The only document of a stream. -/
structure Document where
  root : Node
  /-- Whether the stream ends after it without any fault. -/
  isComplete : Bool

namespace Document

def broken : Document := ⟨.broken, false⟩

/-- The document whose root starts with the first of the tokens. -/
def ofRoot (handles : List (String × Tag)) (tokens : List Token) : Document :=
  let (root, rest) := (Building.node (4 * tokens.length + 4) ⟨true, false⟩).run
    ⟨tokens, handles ++ knownHandles, []⟩
  ⟨root, rest.tokens.dropWhile (· == .documentEnd) == [.streamEnd]⟩

/-- Whether a document that has a start mark is empty before the token. -/
def endsBefore : Token → Bool
  | .version _ _ => true
  | .handle _ _ => true
  | .documentStart => true
  | .documentEnd => true
  | .streamEnd => true
  | _ => false

/-- The document after its directives. -/
def ofMarked (tokens : List Token) : Document :=
  match directives? false [] tokens with
  | some (handles, .documentStart :: first :: more) =>
      if endsBefore first then
        ⟨.empty, (first :: more).dropWhile (· == .documentEnd) == [.streamEnd]⟩
      else ofRoot handles (first :: more)
  | _ => broken

def ofTokens (tokens : List Token) : Document :=
  match tokens with
  | [] => broken
  | .streamEnd :: _ => ⟨.empty, true⟩
  | .version _ _ :: _ => ofMarked tokens
  | .handle _ _ :: _ => ofMarked tokens
  | .documentStart :: _ => ofMarked tokens
  | _ => ofRoot [] tokens

def ofText (text : String) : Document :=
  let (s, isCut) := Stream.ofText text.toList
  ofTokens (s.tokens isCut)

end Document

end SafeCalls.Yaml
