import SafeCalls.Json.Value
import SafeCalls.Number.Binary64

namespace SafeCalls.Json

/-!
# What a JSON text spells

A reading is the value that a text spells, as far as the text is JSON: where it stops being JSON
the reading holds a fault, and nothing of the text after it. Whoever decodes a reading in its own
order therefore meets a fault exactly when it would have met it in the text.

Scalars carry two results, because a text may be read in full or only be passed over. A number
beyond the range of doubles and an escape for half a surrogate pair can be passed over but not
read in full.
-/

/-- Why a text is no JSON: it is malformed, or it ended too early. -/
inductive Fault where
  | malformed
  | truncated
  deriving DecidableEq, Repr

/-- A scalar of the text. -/
structure Token (α : Type) where
  /-- What it stands for, read in full. -/
  value : Except Fault α
  /-- What is wrong with it when it is only passed over. -/
  passing : Option Fault

/-- A number as its spelling classifies it: integers are those without fraction and exponent
that fit into 64 bits, and all others are doubles, minus zero among them. -/
inductive Numeral where
  | natural (n : Nat)
  | negative (n : Nat)
  | real (isNegative : Bool) (magnitude : Number.Binary64)
  deriving DecidableEq

/-- The name of a member. -/
structure Name where
  /-- The characters after the opening quote as they are spelled, up to the closing quote, or
  up to the end of the text when the name is not a well-formed string. -/
  spelling : List Char
  token : Token String

/-- How a list ends after its last item. -/
inductive ListEnd where
  | closed
  | cut (fault : Fault)

mutual

inductive Reading where
  | null
  | bool (value : Bool)
  | number (token : Token Numeral)
  | text (token : Token String)
  | list (items : List Reading) (ending : ListEnd)
  | object (members : List Member) (ending : ObjectEnd)
  /-- A word that starts like null, true or false and is none of them. -/
  | garbled (fault : Fault)
  /-- No value starts here: the text ended, or it goes on otherwise. -/
  | absent (fault : Fault)

structure Member where
  name : Name
  value : Reading

/-- How an object ends after its last member. -/
inductive ObjectEnd where
  | closed
  | cut (fault : Fault)
  /-- A member should follow, and this stands where its name should. -/
  | nameless (found : Reading)

end

/-- A scalar that is spelled without any fault. -/
def Token.of {α : Type} (value : α) : Token α := ⟨.ok value, none⟩

def Token.fault? {α : Type} (token : Token α) : Option Fault :=
  match token.value with
  | .ok _ => none
  | .error fault => some fault

namespace ListEnd

def fault? : ListEnd → Option Fault
  | .closed => none
  | .cut fault => some fault

end ListEnd

namespace ObjectEnd

/-- Only names in quotes are names. -/
def fault? : ObjectEnd → Option Fault
  | .closed => none
  | .cut fault => some fault
  | .nameless (.absent fault) => some fault
  | .nameless _ => some .malformed

end ObjectEnd

namespace Reading

mutual

/-- The first fault met when a value is only passed over. -/
def passingFault? : Reading → Option Fault
  | .null => none
  | .bool _ => none
  | .number token => token.passing
  | .text token => token.passing
  | .list items ending => (itemsPassingFault? items).or ending.fault?
  | .object members ending => (membersPassingFault? members).or ending.fault?
  | .garbled fault => some fault
  | .absent fault => some fault

def itemsPassingFault? : List Reading → Option Fault
  | [] => none
  | item :: more => (passingFault? item).or (itemsPassingFault? more)

def membersPassingFault? : List Member → Option Fault
  | [] => none
  | ⟨name, value⟩ :: more =>
      (name.token.passing.or (passingFault? value)).or (membersPassingFault? more)

end

/-- The first fault met when a value is read in full and may nest at most `room` lists and
objects inside one another. -/
def loadingFault? : Nat → Reading → Option Fault
  | _, .null => none
  | _, .bool _ => none
  | _, .number token => token.fault?
  | _, .text token => token.fault?
  | 0, .list _ _ => some .malformed
  | 0, .object _ _ => some .malformed
  | room + 1, .list items ending =>
      (items.findSome? (loadingFault? room)).or ending.fault?
  | room + 1, .object members ending =>
      (members.findSome? fun member =>
        member.name.token.fault?.or (loadingFault? room member.value)).or ending.fault?
  | _, .garbled fault => some fault
  | _, .absent fault => some fault

end Reading

/-- How many lists and objects a text may nest inside one another when it is read in full. -/
def nestingLimit : Nat := 127

namespace Name

def ofString (s : String) : Name := ⟨s.toList.flatMap escaped, Token.of s⟩

end Name

mutual

/-- The reading of a text of the given value. -/
def reading : Json → Reading
  | .null => .null
  | .bool b => .bool b
  | .number n => .number (Token.of (.natural n))
  | .text s => .text (Token.of s)
  | .list items => .list (readingItems items) .closed
  | .object members => .object (readingMembers members) .closed

def readingItems : List Json → List Reading
  | [] => []
  | item :: more => reading item :: readingItems more

def readingMembers : List (String × Json) → List Member
  | [] => []
  | (name, value) :: more => ⟨Name.ofString name, reading value⟩ :: readingMembers more

end

end SafeCalls.Json
