import SafeCalls.Json.Error

namespace SafeCalls.Json

/-!
# Decoding plain values

Strings, booleans, bounded naturals, optional values and lists.
-/

namespace Reading

def string : Reading → Except Error String
  | .text token => token.decode
  | other => .error (other.mismatch "a string")

def boolean : Reading → Except Error Bool
  | .bool b => .ok b
  | other => .error (other.mismatch "a boolean")

/-- A natural below the bound. Integers out of range are wrong values, numbers with a fraction or
an exponent are values of a wrong type. -/
def naturalBelow (bound : Nat) (expected : String) : Reading → Except Error Nat
  | .number token => do
      match ← token.decode with
      | .natural n =>
          if n < bound then .ok n else .error (.refused (.wrongValue (.natural n) expected))
      | .negative n => .error (.refused (.wrongValue (.negative n) expected))
      | .real sign x => .error (.refused (.wrongType (.real sign x) expected))
  | other => .error (other.mismatch expected)

def word (reading : Reading) : Except Error UInt32 :=
  (reading.naturalBelow UInt32.size "u32").map Nat.toUInt32

def count (reading : Reading) : Except Error UInt64 :=
  (reading.naturalBelow UInt64.size "usize").map Nat.toUInt64

/-- Null stands for no value. -/
def optional {α : Type} (decode : Reading → Except Error α) : Reading → Except Error (Option α)
  | .null => .ok none
  | other => (decode other).map some

/-- The items of a list in turn, and then its end. -/
def items {α : Type} (decode : Reading → Except Error α) : Reading → Except Error (List α)
  | .list readings ending =>
      match readings.mapM decode with
      | .error e => .error e
      | .ok values =>
          match ending.fault? with
          | some fault => .error (Error.ofFault fault)
          | none => .ok values
  | other => .error (other.mismatch "a sequence")

/-- A list of values, where `room` lists and objects may still be opened inside one another. -/
def listOf {α : Type} (decode : Nat → Reading → Except Error α) (room : Nat) (reading : Reading) :
    Except Error (List α) :=
  match room with
  | 0 => .error (reading.overflow "a sequence")
  | room + 1 => reading.items (decode room)

def strings (room : Nat) (reading : Reading) : Except Error (List String) :=
  reading.listOf (fun _ => string) room

end Reading

end SafeCalls.Json
