import SafeCalls.Json.Numeral
import SafeCalls.Sorted.Map
import SafeCalls.Source.Json
import SafeCalls.Symbol.Json

namespace SafeCalls

/-!
# Symbol tables

A symbol table is a semantic model that has been written down: which symbol each expression is
bound to, and which symbol each declaration declares. In JSON the ids of the nodes are names that
spell a number.
-/

open Json (Manner Error Reading Member Name)

structure SymbolTable where
  bindings : SortedMap NodeId Symbol
  declarations : SortedMap NodeId Symbol

namespace Json

namespace Name

/-- Whether the name ends with its quote. -/
def isClosed (name : Name) : Bool := name.token.passing.isNone

/-- The text that the digits of a numeric name are read from. -/
def remainder (name : Name) : List Char :=
  if name.isClosed then name.spelling ++ ['"'] else name.spelling

/-- The id that a name spells. Its first character has to be a digit or a minus, and nothing but
the closing quote may follow the number. -/
def nodeId (name : Name) : Except Error NodeId :=
  match name.remainder with
  | [] => .error .malformed
  | c :: cs =>
      if c = '-' || c.isDigit then do
        let (token, rest) := Numeral.read (c :: cs)
        let id ← (Reading.number token).word
        match rest with
        | some ('"' :: _) => .ok id
        | _ => .error .malformed
      else .error .malformed

end Name

namespace Reading

/-- The entries of an object in which every name is a key. -/
def entries {κ α : Type} (key : Name → Except Error κ) (value : Reading → Except Error α) :
    List Member → Except Error (List (κ × α))
  | [] => .ok []
  | member :: more => do
      let k ← key member.name
      let v ← value member.value
      let others ← entries key value more
      pure ((k, v) :: others)

/-- A map, spelled as an object. Of several entries with one key the last one counts. -/
def map {κ α : Type} [KeyOrder κ] (key : Name → Except Error κ)
    (value : Nat → Reading → Except Error α) (room : Nat) (reading : Reading) :
    Except Error (SortedMap κ α) :=
  match room, reading with
  | 0, reading => .error (reading.overflow "a map")
  | room + 1, .object members ending => do
      let entries ← entries key (value room) members
      match ending.fault? with
      | some fault => .error (Error.ofFault fault)
      | none => .ok (SortedMap.ofList entries)
  | _ + 1, other => .error (other.mismatch "a map")

end Reading

end Json

namespace SymbolTable

def empty : SymbolTable := ⟨SortedMap.empty, SortedMap.empty⟩

def layout : Layout := ⟨"SymbolTable", ["bindings", "declarations"], false⟩

def mapToJson (m : SortedMap NodeId Symbol) : Json :=
  .object (m.entries.map fun (id, symbol) => (toString id.toNat, symbol.toJson))

def toJson (t : SymbolTable) : Json :=
  .object [("bindings", mapToJson t.bindings), ("declarations", mapToJson t.declarations)]

def readMap (manner : Manner) (room : Nat) (reading : Reading) :
    Except Error (SortedMap NodeId Symbol) :=
  reading.map Name.nodeId (fun room => Symbol.read room manner) room

def read (room : Nat) (manner : Manner) (reading : Reading) : Except Error SymbolTable :=
  match room with
  | 0 => .error (layout.overflow reading)
  | room + 1 => do
      let slots ← layout.slots manner reading
      slots.fill SymbolTable.mk
        |>.part (slots.defaulted "bindings" SortedMap.empty (readMap manner room))
        |>.part (slots.defaulted "declarations" SortedMap.empty (readMap manner room))
        |>.result

end SymbolTable

end SafeCalls
