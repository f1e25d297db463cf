import SafeCalls.Json.Decode
import SafeCalls.Source.Json
import SafeCalls.Time.Timestamp
import SafeCalls.Whitelist.Basic

namespace SafeCalls

/-!
# Whitelist documents

A whitelist as it is kept: together with the version of the form, the project that it was extracted
from and the moment of that. The JSON form keeps all of this. The text form keeps the keys alone,
one a line below a comment that names the project, so that the same whitelist always has the same
text.
-/

open Json (Manner Error Reading)
open Time (Timestamp)

structure WhitelistDocument where
  version : UInt32
  project : String
  generatedAt : Timestamp
  keys : List CanonicalKey
  deriving DecidableEq

namespace WhitelistDocument

/-- The version of the form that is written here. -/
def currentVersion : UInt32 := 1

def ofWhitelist (project : String) (generatedAt : Timestamp) (w : Whitelist) :
    WhitelistDocument :=
  ⟨currentVersion, project, generatedAt, w.toList⟩

def whitelist (d : WhitelistDocument) : Whitelist := SortedSet.ofList d.keys

def layout : Layout :=
  ⟨"WhitelistDocument", ["version", "project", "generated_at", "keys"], false⟩

def toJson (d : WhitelistDocument) : Json :=
  .object [("version", .number d.version.toNat), ("project", .text d.project),
    ("generated_at", .text d.generatedAt.render), ("keys", Json.texts (d.keys.map (·.text)))]

/-- A moment in the form of an Internet timestamp. -/
def readTimestamp : Reading → Except Error Timestamp
  | .text token => do
      match Timestamp.parse (← token.decode) with
      | .ok t => .ok t
      | .error e => .error (.refused (.refused e.message))
  | other => .error (other.mismatch "an RFC 3339 formatted date and time string")

def read (room : Nat) (manner : Manner) (reading : Reading) : Except Error WhitelistDocument :=
  match room with
  | 0 => .error (layout.overflow reading)
  | room + 1 => do
      let slots ← layout.slots manner reading
      slots.fill (fun version project generatedAt keys =>
          WhitelistDocument.mk version project generatedAt (keys.map CanonicalKey.mk))
        |>.part (slots.required "version" Reading.word)
        |>.part (slots.required "project" Reading.string)
        |>.part (slots.required "generated_at" readTimestamp)
        |>.part (slots.required "keys" (Reading.strings room))
        |>.result

/-- The JSON form, with a line feed at its end. -/
def renderJson (d : WhitelistDocument) : String := d.toJson.pretty ++ "\n"

/-- The comment above the keys of a text form. -/
def header (project : String) : String := "# hot-path allocation whitelist: " ++ project ++ "\n"

def renderText (d : WhitelistDocument) : String :=
  header d.project ++ String.join (d.keys.map fun key => key.text ++ "\n")

end WhitelistDocument

namespace Whitelist

/-- Whether a trimmed line holds a key, and is neither empty nor a comment. -/
def isKeyLine : List Char → Bool
  | [] => false
  | c :: _ => c != '#'

/-- The keys of a text form. -/
def parseText (text : String) : Whitelist :=
  ofTexts ((((Text.lines text.toList).map Text.trim).filter isKeyLine).map String.ofList)

end Whitelist

end SafeCalls
