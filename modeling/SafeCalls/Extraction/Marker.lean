import SafeCalls.Symbol.Basic

namespace SafeCalls

/-!
# The trust-all marker

An attribute marks a method whose calls are all to be trusted. A marker is configured by the full
name of its class; an attribute whose namespace was not resolved is recognised by the last segment
of that name, with or without its ending.
-/

structure Marker where
  fullName : String
  deriving DecidableEq

namespace Marker

/-- The ending that may be left out where an attribute is written. -/
def ending : String := "Attribute"

/-- What follows the last dot. -/
def lastSegment (name : List Char) : List Char :=
  (name.reverse.takeWhile (· != '.')).reverse

def simpleName (m : Marker) : String := String.ofList (lastSegment m.fullName.toList)

/-- A name without the ending, unless nothing else would be left. -/
def withoutEnding (name : String) : String :=
  let cs := name.toList
  let short := cs.take (cs.length - ending.length)
  if short ++ ending.toList = cs ∧ short ≠ [] then String.ofList short else name

def shortName (m : Marker) : String := withoutEnding m.simpleName

/-- Whether an attribute is the marker. A qualified name has to be the full name. -/
def recognises (m : Marker) (a : Attribute) : Bool :=
  a.className == m.fullName ||
    (!a.className.toList.contains '.' &&
      (a.className == m.simpleName || a.className == m.shortName))

end Marker

end SafeCalls
