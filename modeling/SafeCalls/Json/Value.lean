namespace SafeCalls

/-!
# JSON values and their texts

The values that this library writes: every number is a natural, and the members of an object
keep the order in which they are given. There are two texts of a value, a compact one without
blanks and an indented one with two spaces a level, in which an empty list or object stays on
one line.
-/

inductive Json where
  | null
  | bool (value : Bool)
  | number (value : Nat)
  | text (value : String)
  | list (items : List Json)
  | object (members : List (String × Json))

namespace Json

def ofBool (b : Bool) : Json := .bool b

def texts (values : List String) : Json := .list (values.map .text)

/-- The member is left null where there is no value. -/
def optional {α : Type} (write : α → Json) : Option α → Json
  | none => .null
  | some value => write value

def hexDigit (n : Nat) : Char := (Nat.digitChar n)

/-- One character between the quotes: the quote, the backslash and the controls have escapes,
every other character stands for itself. -/
def escaped (c : Char) : List Char :=
  if c = '"' then ['\\', '"']
  else if c = '\\' then ['\\', '\\']
  else if c = '\x08' then ['\\', 'b']
  else if c = '\x0c' then ['\\', 'f']
  else if c = '\n' then ['\\', 'n']
  else if c = '\r' then ['\\', 'r']
  else if c = '\t' then ['\\', 't']
  else if c.toNat < 0x20 then
    ['\\', 'u', '0', '0', hexDigit (c.toNat / 16), hexDigit (c.toNat % 16)]
  else [c]

def quote (s : String) : List Char := '"' :: (s.toList.flatMap escaped ++ ['"'])

/-- The parts with the given text between each two neighbours. -/
def separated (between : List Char) : List (List Char) → List Char
  | [] => []
  | [part] => part
  | part :: more => part ++ (between ++ separated between more)

mutual

/-- The text of a value without any blank. -/
def compactChars : Json → List Char
  | .null => "null".toList
  | .bool true => "true".toList
  | .bool false => "false".toList
  | .number n => Nat.toDigits 10 n
  | .text s => quote s
  | .list items => '[' :: (separated [','] (compactItems items) ++ [']'])
  | .object members => '\x7b' :: (separated [','] (compactMembers members) ++ ['\x7d'])

def compactItems : List Json → List (List Char)
  | [] => []
  | item :: more => compactChars item :: compactItems more

def compactMembers : List (String × Json) → List (List Char)
  | [] => []
  | (name, value) :: more =>
      (quote name ++ ':' :: compactChars value) :: compactMembers more

end

/-- A new line, indented to the given level. -/
def newline (level : Nat) : List Char := '\n' :: List.replicate (2 * level) ' '

/-- Parts on lines of their own between an opening and a closing mark; without any part the
marks stay together. -/
def bracketed (opening closing : Char) (level : Nat) : List (List Char) → List Char
  | [] => [opening, closing]
  | part :: more =>
      opening :: (newline (level + 1) ++
        (separated (',' :: newline (level + 1)) (part :: more) ++ (newline level ++ [closing])))

mutual

/-- The indented text of a value that starts at the given level. -/
def prettyChars (level : Nat) : Json → List Char
  | .null => "null".toList
  | .bool true => "true".toList
  | .bool false => "false".toList
  | .number n => Nat.toDigits 10 n
  | .text s => quote s
  | .list items => bracketed '[' ']' level (prettyItems (level + 1) items)
  | .object members => bracketed '\x7b' '\x7d' level (prettyMembers (level + 1) members)

def prettyItems (level : Nat) : List Json → List (List Char)
  | [] => []
  | item :: more => prettyChars level item :: prettyItems level more

def prettyMembers (level : Nat) : List (String × Json) → List (List Char)
  | [] => []
  | (name, value) :: more =>
      (quote name ++ ':' :: ' ' :: prettyChars level value) :: prettyMembers level more

end

def compact (value : Json) : String := String.ofList value.compactChars

def pretty (value : Json) : String := String.ofList (value.prettyChars 0)

mutual

/-- How many lists and objects stand inside one another. -/
def nesting : Json → Nat
  | .list items => nestingItems items + 1
  | .object members => nestingMembers members + 1
  | _ => 0

def nestingItems : List Json → Nat
  | [] => 0
  | item :: more => max (nesting item) (nestingItems more)

def nestingMembers : List (String × Json) → Nat
  | [] => 0
  | (_, value) :: more => max (nesting value) (nestingMembers more)

end

end Json

end SafeCalls
