import SafeCalls.Json.Error
import SafeCalls.Json.Reader

namespace SafeCalls.Json

/-!
# Decoding whole texts

A text is decoded as a whole: its value is decoded directly, and after it only blanks may follow.
-/

def decode {α : Type} (read : Nat → Manner → Reading → Except Error α) (text : String) :
    Except Error α := do
  let document := readText text
  let value ← read nestingLimit .direct document.content
  match document.trailing with
  | some fault => .error (Error.ofFault fault)
  | none => .ok value

end SafeCalls.Json
