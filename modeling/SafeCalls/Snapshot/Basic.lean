import SafeCalls.Json.Decode
import SafeCalls.Symbol.Table

namespace SafeCalls

/-!
# Snapshots of configuration units

A front-end exports one snapshot for each source document: its path, its tree and its symbols. The
tree or the symbols are missing when the front-end failed on the document.
-/

open Json (Manner Error Reading)

structure UnitSnapshot where
  path : String
  tree : Option SyntaxTree
  model : Option SymbolTable

namespace UnitSnapshot

def layout : Layout := ⟨"UnitSnapshot", ["path", "tree", "model"], false⟩

def toJson (s : UnitSnapshot) : Json :=
  .object [("path", .text s.path), ("tree", Json.optional SyntaxTree.toJson s.tree),
    ("model", Json.optional SymbolTable.toJson s.model)]

def read (room : Nat) (manner : Manner) (reading : Reading) : Except Error UnitSnapshot :=
  match room with
  | 0 => .error (layout.overflow reading)
  | room + 1 => do
      let slots ← layout.slots manner reading
      slots.fill UnitSnapshot.mk
        |>.part (slots.required "path" Reading.string)
        |>.part (slots.optional "tree" (SyntaxTree.read room manner))
        |>.part (slots.optional "model" (SymbolTable.read room manner))
        |>.result

def parse (text : String) : Except Error UnitSnapshot := Json.decode read text

/-- The text of a snapshot, with every field and on indented lines. -/
def render (s : UnitSnapshot) : String := s.toJson.pretty

end UnitSnapshot

end SafeCalls
