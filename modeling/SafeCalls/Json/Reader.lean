import SafeCalls.Json.Numeral
import SafeCalls.Json.Quoted

namespace SafeCalls.Json

/-!
# Reading a JSON text

Every step consumes at least one character or goes one bracket deeper, so twice the length of the
text bounds the number of steps one after another.
-/

/-- A part of a text together with the text after it, if reading can go on. -/
structure Read (α : Type) where
  part : α
  rest : Option (List Char)

/-- Blanks between the tokens of a text. -/
def isSpace (c : Char) : Bool := c == ' ' || c == '\n' || c == '\t' || c == '\r'

def skipSpace (cs : List Char) : List Char := cs.dropWhile isSpace

/-- A word whose first character has been seen. -/
def readWord (word : List Char) (meaning : Reading) (cs : List Char) : Read Reading :=
  match word, cs with
  | [], rest => ⟨meaning, some rest⟩
  | _ :: _, [] => ⟨.garbled .truncated, none⟩
  | w :: word, c :: rest =>
      if c = w then readWord word meaning rest else ⟨.garbled .malformed, none⟩

/-- The text between a name and its value: a colon, or the fault that stands in its place. -/
def readColon (cs : List Char) : Except Fault (List Char) :=
  match skipSpace cs with
  | [] => .error .truncated
  | ':' :: rest => .ok rest
  | _ :: _ => .error .malformed

def Read.ofNumber (cs : List Char) : Read Reading :=
  let (token, rest) := Numeral.read cs
  ⟨.number token, rest⟩

def Read.ofString (cs : List Char) : Read Reading :=
  let (name, rest) := readString cs
  ⟨.text name.token, rest⟩

mutual

/-- The value in front of a text. -/
def readValue : Nat → List Char → Read Reading
  | 0, _ => ⟨.absent .malformed, none⟩
  | fuel + 1, cs =>
      match skipSpace cs with
      | [] => ⟨.absent .truncated, none⟩
      | 'n' :: rest => readWord ['u', 'l', 'l'] .null rest
      | 't' :: rest => readWord ['r', 'u', 'e'] (.bool true) rest
      | 'f' :: rest => readWord ['a', 'l', 's', 'e'] (.bool false) rest
      | '"' :: rest => Read.ofString rest
      | '[' :: rest =>
          match skipSpace rest with
          | [] => ⟨.list [] (.cut .truncated), none⟩
          | ']' :: rest => ⟨.list [] .closed, some rest⟩
          | rest =>
              let read := readItems fuel rest
              ⟨.list read.part.1 read.part.2, read.rest⟩
      | '\x7b' :: rest =>
          match skipSpace rest with
          | [] => ⟨.object [] (.nameless (.absent .truncated)), none⟩
          | '\x7d' :: rest => ⟨.object [] .closed, some rest⟩
          | rest =>
              let read := readMembers fuel rest
              ⟨.object read.part.1 read.part.2, read.rest⟩
      | c :: rest =>
          if c = '-' || c.isDigit then Read.ofNumber (c :: rest)
          else ⟨.absent .malformed, none⟩

/-- The items of a list that has a first one. -/
def readItems : Nat → List Char → Read (List Reading × ListEnd)
  | 0, _ => ⟨([], .cut .malformed), none⟩
  | fuel + 1, cs =>
      let item := readValue fuel cs
      match item.rest with
      | none => ⟨([item.part], .closed), none⟩
      | some rest =>
          match skipSpace rest with
          | [] => ⟨([item.part], .cut .truncated), none⟩
          | ']' :: rest => ⟨([item.part], .closed), some rest⟩
          | ',' :: rest =>
              let more := readItems fuel rest
              ⟨(item.part :: more.part.1, more.part.2), more.rest⟩
          | _ :: _ => ⟨([item.part], .cut .malformed), none⟩

/-- The members of an object that has a first one. -/
def readMembers : Nat → List Char → Read (List Member × ObjectEnd)
  | 0, _ => ⟨([], .cut .malformed), none⟩
  | fuel + 1, cs =>
      match skipSpace cs with
      | '"' :: rest =>
          let name := readString rest
          match name.2 with
          | none => ⟨([⟨name.1, .absent .truncated⟩], .closed), none⟩
          | some rest =>
              match readColon rest with
              | .error fault => ⟨([⟨name.1, .absent fault⟩], .closed), none⟩
              | .ok rest =>
                  let value := readValue fuel rest
                  match value.rest with
                  | none => ⟨([⟨name.1, value.part⟩], .closed), none⟩
                  | some rest =>
                      match skipSpace rest with
                      | [] => ⟨([⟨name.1, value.part⟩], .cut .truncated), none⟩
                      | '\x7d' :: rest => ⟨([⟨name.1, value.part⟩], .closed), some rest⟩
                      | ',' :: rest =>
                          let more := readMembers fuel rest
                          ⟨(⟨name.1, value.part⟩ :: more.part.1, more.part.2), more.rest⟩
                      | _ :: _ => ⟨([⟨name.1, value.part⟩], .cut .malformed), none⟩
      | rest => ⟨([], .nameless (readValue fuel rest).part), none⟩

end

/-- What a whole text spells, and what is wrong after its value if nothing is wrong in it. -/
structure Document where
  content : Reading
  trailing : Option Fault

/-- Reads a whole text: after its value only blanks may follow. -/
def readText (text : String) : Document :=
  let cs := text.toList
  let read := readValue (2 * cs.length + 2) cs
  match read.rest with
  | none => ⟨read.part, none⟩
  | some rest => ⟨read.part, if (skipSpace rest).isEmpty then none else some .malformed⟩

end SafeCalls.Json
