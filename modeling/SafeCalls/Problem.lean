import SafeCalls.Number.Shortest
import SafeCalls.Text.Quoted

namespace SafeCalls

/-!
# Problems of data

What can be wrong with well-formed data that is to become a value of some type, and the wording
of it. The wording differs between formats only in the name of the empty value and in the text
of a floating point number.
-/

/-- A value where another one was expected. -/
inductive Found where
  | nothing
  | bool (value : Bool)
  | natural (value : Nat)
  | negative (value : Nat)
  /-- An integer that only fits into 128 bits. -/
  | wide (value : Int)
  | real (isNegative : Bool) (magnitude : Number.Binary64)
  | infinity (isNegative : Bool)
  | notANumber
  | text (value : String)
  | list
  | map
  /-- The name of an alternative without the value that belongs to it. -/
  | bareAlternative
  deriving DecidableEq

inductive Problem where
  | wrongType (found : Found) (expected : String)
  | wrongValue (found : Found) (expected : String)
  | wrongLength (length : Nat) (expected : String)
  | missingField (name : String)
  | duplicateField (name : String)
  | unknownField (name : String) (known : List String)
  | unknownVariant (name : String) (known : List String)
  /-- A text that its own format refuses, in the words of that format. -/
  | refused (reason : String)
  deriving DecidableEq

/-- What a format decides of the wording. -/
structure Wording where
  nothing : String
  real : Number.Binary64 → String

/-- Data in JSON call the empty value null and write large and small numbers with a power of
ten. -/
def Wording.json : Wording := ⟨"null", Number.Binary64.compact⟩

/-- Data in YAML call the empty value a unit value and write every digit of a number. -/
def Wording.yaml : Wording := ⟨"unit value", Number.Binary64.positional⟩

def backticked (s : String) : String := "\x60" ++ s ++ "\x60"

def signed (isNegative : Bool) (s : String) : String := if isNegative then "-" ++ s else s

namespace Found

def describe (wording : Wording) : Found → String
  | .nothing => wording.nothing
  | .bool b => "boolean " ++ backticked (if b then "true" else "false")
  | .natural n => "integer " ++ backticked (toString n)
  | .negative n => "integer " ++ backticked (signed true (toString n))
  | .wide n =>
      "integer " ++ backticked (toString n) ++ (if n < 0 then " as i128" else " as u128")
  | .real sign x => "floating point " ++ backticked (signed sign (wording.real x))
  | .infinity sign => "floating point " ++ backticked (signed sign "inf")
  | .notANumber => "floating point " ++ backticked "NaN"
  | .text s => "string " ++ Text.quoted s
  | .list => "sequence"
  | .map => "map"
  | .bareAlternative => "unit variant"

end Found

/-- One name, two names joined by "or", or a list of more. -/
def oneOf : List String → String
  | [] => ""
  | [a] => backticked a
  | [a, b] => backticked a ++ " or " ++ backticked b
  | names => "one of " ++ ", ".intercalate (names.map backticked)

/-- "1 element", and the plural for every other count. -/
def elements (n : Nat) : String := if n = 1 then "1 element" else toString n ++ " elements"

namespace Problem

def message (wording : Wording) : Problem → String
  | .wrongType found expected =>
      "invalid type: " ++ found.describe wording ++ ", expected " ++ expected
  | .wrongValue found expected =>
      "invalid value: " ++ found.describe wording ++ ", expected " ++ expected
  | .wrongLength length expected =>
      "invalid length " ++ toString length ++ ", expected " ++ expected
  | .missingField name => "missing field " ++ backticked name
  | .duplicateField name => "duplicate field " ++ backticked name
  | .unknownField name known =>
      "unknown field " ++ backticked name ++ ", expected " ++ oneOf known
  | .unknownVariant name known =>
      "unknown variant " ++ backticked name ++ ", expected " ++ oneOf known
  | .refused reason => reason

end Problem

end SafeCalls
