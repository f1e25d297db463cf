import SafeCalls.Json.Scalar
import SafeCalls.Json.Value
import SafeCalls.Sorted.Set
import SafeCalls.Symbol.Key

namespace SafeCalls

/-!
# Whitelists

A whitelist is a finite set of canonical keys. Its keys are always listed in ascending order, and
in JSON it is that list.
-/

abbrev Whitelist := SortedSet CanonicalKey

namespace Whitelist

def ofTexts (texts : List String) : Whitelist := SortedSet.ofList (texts.map CanonicalKey.mk)

/-- The keys in ascending order. -/
def texts (w : Whitelist) : List String := w.toList.map CanonicalKey.text

def toJson (w : Whitelist) : Json := Json.texts w.texts

/-- A list of keys in any order and with repeats. -/
def read (room : Nat) (_ : Json.Manner) (reading : Json.Reading) :
    Except Json.Error Whitelist :=
  (reading.strings room).map ofTexts

end Whitelist

/-- A whitelist in the making, which only grows. -/
structure Aggregator where
  keys : Whitelist

namespace Aggregator

def empty : Aggregator := ⟨SortedSet.empty⟩

/-- Adds a key, and tells whether it is new. -/
def insert (a : Aggregator) (key : CanonicalKey) : Bool × Aggregator :=
  (!a.keys.contains key, ⟨a.keys.insert key⟩)

def union (a : Aggregator) (keys : List CanonicalKey) : Aggregator := ⟨a.keys.insertAll keys⟩

def finish (a : Aggregator) : Whitelist := a.keys

end Aggregator

end SafeCalls
