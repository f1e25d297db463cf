import SafeCalls.Yaml.Scalar.Writing

namespace SafeCalls.Yaml

/-!
# Writing documents

Documents are written in block style, two columns deeper for each level. A key that is long or has
line breaks is written on a line of its own.
-/

/-- What can be written. -/
inductive Value where
  /-- A number or a truth value. -/
  | word (spelling : String)
  | text (value : String)
  /-- A record with short plain names. -/
  | record (fields : List (String × Value))
  /-- A map of texts, whose keys are texts as well. -/
  | map (entries : List (String × String))

namespace Value

open Writing (spaces)

/-- The end of a line, unless it has ended already. -/
def endLine (cs : List Char) : List Char :=
  match cs.getLast? with
  | some c => if isBreak c then cs else cs ++ ['\n']
  | none => cs

def isShortKey (key : String) : Bool := !key.toList.any isBreak && key.utf8ByteSize ≤ 128

/-- A text in the style that is chosen for it. -/
def scalar (isKey : Bool) (indent : Nat) (s : String) : List Char :=
  Writing.text (TextStyle.choose isKey s) indent s.toList

/-- One entry of a map of texts. -/
def entry (indent : Nat) (key value : String) : List Char :=
  let text := ':' :: ' ' :: scalar false (indent + 2) value
  if isShortKey key then
    endLine (spaces indent ++ scalar true (indent + 2) key ++ text)
  else
    endLine (spaces indent ++ '?' :: ' ' :: scalar false (indent + 2) key) ++
      endLine (spaces indent ++ text)

mutual

/-- A value after its name and a colon, up to the end of its last line. -/
def lines (indent : Nat) : Value → List Char
  | word spelling => endLine (' ' :: spelling.toList)
  | text value => endLine (' ' :: scalar false (indent + 2) value)
  | record [] => " \x7b\x7d\n".toList
  | record (field :: more) => '\n' :: fieldLines (indent + 2) (field :: more)
  | map [] => " \x7b\x7d\n".toList
  | map (first :: more) =>
      '\n' :: (first :: more).flatMap fun (key, value) => entry (indent + 2) key value

/-- The fields of a record. -/
def fieldLines (indent : Nat) : List (String × Value) → List Char
  | [] => []
  | (name, value) :: more =>
      spaces indent ++ name.toList ++ ':' :: lines indent value ++ fieldLines indent more

end

/-- A document with the given fields. -/
def document (fields : List (String × Value)) : String := String.ofList (fieldLines 0 fields)

end Value

end SafeCalls.Yaml
