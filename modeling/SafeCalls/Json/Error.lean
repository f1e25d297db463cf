import SafeCalls.Json.Reading
import SafeCalls.Problem

namespace SafeCalls.Json

/-!
# Errors of decoding

Decoding a text fails because the text is no JSON, or because well-formed data are not what is
asked for. A value is decoded directly while the text is read, except inside tagged unions: those
are loaded in full before their data are looked at, so that inside them a fault of the text
precedes every problem of the data.
-/

inductive Error where
  | malformed
  | truncated
  | refused (problem : Problem)
  deriving DecidableEq

/-- Whether a value is decoded while its text is read, or after it has been loaded. -/
inductive Manner where
  | direct
  | loaded
  deriving DecidableEq, Repr

namespace Error

def ofFault : Fault → Error
  | .malformed => .malformed
  | .truncated => .truncated

def wording? : Error → Option String
  | .malformed => none
  | .truncated => none
  | .refused problem => some (problem.message .json)

end Error

namespace Numeral

/-- A number as messages speak of it. -/
def found : Numeral → Found
  | .natural n => .natural n
  | .negative n => .negative n
  | .real sign magnitude => .real sign magnitude

end Numeral

/-- What a token stands for, or its fault. -/
def Token.decode {α : Type} (token : Token α) : Except Error α := token.value.mapError Error.ofFault

namespace Reading

/-- The error of finding this value where another kind of value is expected. A scalar is read in
full to be named in the message. -/
def mismatch (expected : String) : Reading → Error
  | .null => .refused (.wrongType .nothing expected)
  | .bool b => .refused (.wrongType (.bool b) expected)
  | .number token =>
      match token.decode with
      | .ok n => .refused (.wrongType n.found expected)
      | .error e => e
  | .text token =>
      match token.decode with
      | .ok s => .refused (.wrongType (.text s) expected)
      | .error e => e
  | .list _ _ => .refused (.wrongType .list expected)
  | .object _ _ => .refused (.wrongType .map expected)
  | .garbled fault => Error.ofFault fault
  | .absent fault => Error.ofFault fault

/-- The error of finding this value where no list or object may be opened any more. -/
def overflow (expected : String) : Reading → Error
  | .list _ _ => .malformed
  | .object _ _ => .malformed
  | other => other.mismatch expected

/-- What is wrong with a value that is passed over; a loaded value has no faults. -/
def skipError? (manner : Manner) (reading : Reading) : Option Error :=
  match manner with
  | .direct => reading.passingFault?.map Error.ofFault
  | .loaded => none

end Reading

end SafeCalls.Json
