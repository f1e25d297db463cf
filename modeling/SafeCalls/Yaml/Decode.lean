import SafeCalls.Record
import SafeCalls.Sorted.Map
import SafeCalls.Yaml.Document
import SafeCalls.Yaml.Error
import SafeCalls.Yaml.Schema

namespace SafeCalls.Yaml

/-!
# Decoding YAML

A node is decoded at its place, and an error tells that place. What is asked for decides how a plain
scalar is read: as a text it is taken literally. Records and maps may be left empty.
-/

/-- A node at its place in a document. -/
structure Located where
  /-- The root of the document, which holds the nodes that aliases stand for. -/
  root : Node
  /-- The keys on the way to the node. -/
  path : List String
  node : Node

namespace Node

/-- A node without its anchor. -/
def bare : Node → Node
  | anchored _ node => node.bare
  | node => node

end Node

namespace Scalar

/-- Whether a scalar stands for an empty record or map. -/
def isLeftOut (s : Scalar) : Bool := s.style == .plain && s.text.isEmpty

/-- What a scalar stands for. A tag of the core schema asks for a value of its type, and other
scalars than plain ones are texts. -/
def found (s : Scalar) : Except Problem Found :=
  let typed (value : Option Found) (expected : String) : Except Problem Found :=
    match value with
    | some value => .ok value
    | none => .error (.wrongValue (.text s.text) expected)
  match s.tag with
  | none => .ok (if s.style = .plain then Schema.found s.text else .text s.text)
  | some tag =>
      if tag = .core "bool" then typed ((Schema.boolean? s.text).map .bool) "a boolean"
      else if tag = .core "int" then typed (Schema.integer? s.text.toList) "an integer"
      else if tag = .core "float" then typed (Schema.real? s.text.toList) "a float"
      else if tag = .core "null" then
        typed (if Schema.isNothing s.text then some .nothing else none) "null"
      else if tag.octets.head? = some '!'.toNat.toUInt8 ∧ s.style = .plain then
        .ok (Schema.found s.text)
      else .ok (.text s.text)

/-- Whether a scalar may be read as a value of a type of the core schema. -/
def isTypeable (s : Scalar) (type : String) : Bool :=
  s.style == .plain || (s.style == .literal && s.tag == some (.core type))

def mismatch (s : Scalar) (expected : String) : Problem :=
  match s.found with
  | .ok found => .wrongType found expected
  | .error problem => problem

end Scalar

namespace Located

variable {α : Type}

def isAlias (l : Located) : Bool :=
  match l.node with
  | .alias _ => true
  | _ => false

/-- The node itself, which an alias stands for and an anchor is put before. -/
def content (l : Located) : Node :=
  match l.node with
  | .alias anchor => ((l.root.target? anchor).getD .broken).bare
  | node => node.bare

def refuse (l : Located) (problem : Problem) : Except Error α := .error (.refused l.path problem)

/-- Refuses a node for a problem that is reported of the node around it. -/
def refuseAround (l : Located) (problem : Problem) : Except Error α :=
  .error (.refused l.path.dropLast problem)

/-- Refuses a node that is of another kind than what is expected. -/
def refuseKind (l : Located) (expected : String) : Except Error α :=
  match l.content with
  | .scalar s => l.refuse (s.mismatch expected)
  | .list .. => l.refuse (.wrongType .list expected)
  | .mapping .. => l.refuse (.wrongType .map expected)
  | _ => .error .malformed

/-- The literal text of a scalar. -/
def textAs (l : Located) (expected : String) : Except Error String :=
  match l.content with
  | .scalar s => .ok s.text
  | _ => l.refuseKind expected

def text (l : Located) : Except Error String := l.textAs "a string"

def boolean (l : Located) : Except Error Bool :=
  match l.content with
  | .scalar s =>
      match Schema.boolean? s.text with
      | some b => if s.isTypeable "bool" then .ok b else l.refuseKind "a boolean"
      | none => l.refuseKind "a boolean"
  | _ => l.refuseKind "a boolean"

def naturalAs (l : Located) (expected : String) : Except Error Nat :=
  match l.content with
  | .scalar s =>
      match Schema.natural? s.text.toList with
      | some n => if s.isTypeable "int" && n < UInt64.size then .ok n else l.refuseKind expected
      | none => l.refuseKind expected
  | _ => l.refuseKind expected

def count (l : Located) : Except Error UInt64 := (l.naturalAs "usize").map Nat.toUInt64

def word (l : Located) : Except Error UInt32 := do
  let n ← l.naturalAs "u32"
  if n < UInt32.size then pure n.toUInt32 else l.refuse (.wrongValue (.natural n) "u32")

/-- Null stands for no value, and so does a scalar that is left out. -/
def optional (decode : Located → Except Error α) (l : Located) : Except Error (Option α) :=
  match l.content with
  | .scalar s =>
      if s.style ≠ .plain then (decode l).map some
      else
        match s.tag with
        | none =>
            if s.text.isEmpty || Schema.isNothing s.text then .ok none else (decode l).map some
        | some tag =>
            if tag = .core "null" then
              if Schema.isNothing s.text then .ok none
              else l.refuseAround (.wrongValue (.text s.text) "null")
            else (decode l).map some
  | _ => (decode l).map some

/-- The part of a path that stands for a key. -/
def keyPath (key : Located) : String :=
  match key.node.bare with
  | .scalar s => s.text
  | _ => "?"

/-- The key of an entry, at the place of its mapping. -/
def key (l : Located) (entry : Node × Node) : Located := { l with node := entry.1 }

/-- The value of an entry, at the place of its key. -/
def value (l : Located) (entry : Node × Node) : Located :=
  { l with path := l.path ++ [keyPath (l.key entry)], node := entry.2 }

/-- The entries of a mapping and whether a fault cuts them off. -/
def entries (l : Located) (expected : String) : Except Error (List (Node × Node) × Bool) :=
  match l.content with
  | .mapping _ entries isCut => .ok (entries, isCut)
  | .scalar s => if s.isLeftOut then .ok ([], false) else l.refuseKind expected
  | _ => l.refuseKind expected

/-- The first entry with the given key, by its place. -/
def find? (l : Located) (field : String) : List (Node × Node) → Option (Nat × Located)
  | [] => none
  | entry :: more =>
      if (l.key entry).text.toOption = some field then some (0, l.value entry)
      else (l.find? field more).map fun (place, value) => (place + 1, value)

/-- What is wrong with the key of an entry, after entries with the given keys. -/
def keyError? (l : Located) (layout : Layout) (seen : List String) (entry : Node × Node) :
    Option Error :=
  match (l.key entry).textAs "field identifier" with
  | .error e => some e
  | .ok name =>
      if layout.fields.contains name then
        if seen.contains name then some (.refused l.path (.duplicateField name)) else none
      else some (.refused l.path (.unknownField name layout.fields))

/-- The first error of the entries from a place on, apart from those in the values. -/
def stopFrom? (l : Located) (layout : Layout) (isCut : Bool) (place : Nat) (seen : List String) :
    List (Node × Node) → Option (Nat × Error)
  | [] => if isCut then some (place, .malformed) else none
  | entry :: more =>
      match l.keyError? layout seen entry with
      | some e => some (place, e)
      | none =>
          let name := (l.key entry).text.toOption.getD ""
          stopFrom? l layout isCut (place + 1) (name :: seen) more

/-- The slots of a record. No other entries than its fields are allowed. -/
def slots (l : Located) (layout : Layout) : Except Error (Slots Error Located) := do
  let (entries, isCut) ← l.entries ("struct " ++ layout.name)
  pure {
    slot := fun field =>
      match l.find? field entries with
      | some (place, value) => .filled place value
      | none =>
          .empty (entries.length + 1 + layout.fields.idxOf field)
            (.refused l.path (.missingField field))
    stop? := l.stopFrom? layout isCut 0 [] entries }

/-- The keys and values of a map of texts, the last of several values for a key. -/
def textMap (l : Located) : Except Error (SortedMap String String) := do
  let (entries, isCut) ← l.entries "a map"
  let map ← entries.foldlM (fun map entry => do
    pure (map.insert (← (l.key entry).text) (← (l.value entry).text))) SortedMap.empty
  if isCut then .error .malformed else pure map

/-- The problem of a payload where there should be none. -/
def unit (l : Located) : Except Error Unit :=
  match l.content with
  | .scalar s =>
      if s.style = .plain ∧ (s.text.isEmpty ∨ Schema.isNothing s.text) then .ok ()
      else l.refuse (.wrongValue (.text s.text) "null")
  | _ => l.refuseKind "unit"

/-- The name of an alternative in the tag of a node. -/
def tagName? (tag : Option Tag) : Option String :=
  match tag with
  | none => none
  | some tag =>
      match tag.octets with
      | [] => none
      | first :: rest =>
          if first = '!'.toNat.toUInt8 then
            (if rest.isEmpty then tag else ⟨rest⟩).text?
          else none

/-- A choice between alternatives without data: a scalar with the name of one, or a node that has
the name in its tag and is null. -/
def named {κ : Type} (names : Names κ) (l : Located) : Except Error κ :=
  let find (name : String) (path : List String) : Except Error κ :=
    match names.lookup name with
    | some k => .ok k
    | none => .error (.refused path (.unknownVariant name names.spelled))
  let tagged (name : String) : Except Error κ := do
    let k ← find name (if l.isAlias then l.path else l.path.dropLast)
    l.unit
    pure k
  let untagged := l.refuseKind "a YAML tag starting with '!'"
  match l.content with
  | .scalar s =>
      match tagName? s.tag with
      | some name => tagged name
      | none => find s.text l.path
  | .list tag _ => ((tagName? tag).map tagged).getD untagged
  | .mapping tag _ _ => ((tagName? tag).map tagged).getD untagged
  | _ => .error .malformed

end Located

/-- Decodes the only document of a text. -/
def decode {α : Type} (read : Located → Except Error α) (text : String) : Except Error α := do
  let document := Document.ofText text
  let value ← read ⟨document.root, [], document.root⟩
  if document.isComplete then pure value else .error .malformed

end SafeCalls.Yaml
