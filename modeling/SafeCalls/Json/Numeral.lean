import SafeCalls.Json.Reading

namespace SafeCalls.Json

/-!
# Numbers in a JSON text

A number is an optional minus, an integer part without needless zeros, and optionally a fraction
and an exponent, each with at least one digit. Its digits are taken into a significand of 64
bits for as long as they fit; further digits before the point only scale it and further digits
after the point are dropped.
-/

/-- The greatest natural of 64 bits. -/
def maxNatural : Nat := UInt64.size - 1

def digitValue (c : Char) : Nat := c.toNat - '0'.toNat

namespace Numeral

/-- A significand and the power of ten that scales it. -/
structure Scaled where
  significand : Nat
  exponent : Int
  deriving DecidableEq, Repr

/-- Takes digits before the point: once one does not fit, it and all after it scale by ten. -/
def takeInteger : Nat → List Char → Scaled
  | s, [] => ⟨s, 0⟩
  | s, c :: more =>
      if s * 10 + digitValue c ≤ maxNatural then takeInteger (s * 10 + digitValue c) more
      else ⟨s, (more.length : Int) + 1⟩

/-- Takes digits after the point for as long as they fit. -/
def takeFraction : Scaled → List Char → Scaled
  | x, [] => x
  | x, c :: more =>
      if x.significand * 10 + digitValue c ≤ maxNatural then
        takeFraction ⟨x.significand * 10 + digitValue c, x.exponent - 1⟩ more
      else x

def natValue (digits : List Char) : Nat :=
  digits.foldl (fun n c => n * 10 + digitValue c) 0

structure Parts where
  isNegative : Bool
  integer : List Char
  /-- The digits after the point, if there is a point. -/
  fraction : Option (List Char)
  /-- Whether the exponent is negative, and its digits, if there is an exponent. -/
  power : Option (Bool × List Char)

namespace Parts

def scaled (parts : Parts) : Scaled :=
  let whole := takeInteger 0 parts.integer
  let fine := takeFraction whole (parts.fraction.getD [])
  match parts.power with
  | none => fine
  | some (true, digits) => ⟨fine.significand, fine.exponent - (natValue digits : Int)⟩
  | some (false, digits) => ⟨fine.significand, fine.exponent + (natValue digits : Int)⟩

/-- The number as a double, unless it is beyond their range. -/
def real? (parts : Parts) : Option Numeral :=
  let x := parts.scaled
  (Number.Binary64.ofScaled x.significand x.exponent).map (.real parts.isNegative ·)

def numeral? (parts : Parts) : Option Numeral :=
  match parts.fraction, parts.power with
  | none, none =>
      let n := natValue parts.integer
      if parts.isNegative then
        if 0 < n && 2 * n ≤ UInt64.size then some (.negative n) else parts.real?
      else if n ≤ maxNatural then some (.natural n)
      else parts.real?
  | _, _ => parts.real?

def token (parts : Parts) : Token Numeral :=
  match parts.numeral? with
  | some n => Token.of n
  | none => ⟨.error .malformed, none⟩

end Parts

/-- What is wrong where a digit should stand: reading in full tells a text that ended from one
that goes on otherwise, passing over does not. -/
def missingDigit : List Char → Token Numeral
  | [] => ⟨.error .truncated, some .malformed⟩
  | _ :: _ => ⟨.error .malformed, some .malformed⟩

/-- Splits off the digits in front. -/
def spanDigits (cs : List Char) : List Char × List Char :=
  (cs.takeWhile Char.isDigit, cs.dropWhile Char.isDigit)

/-- The exponent after its mark, or what is left where its digits should stand. -/
def readPower (cs : List Char) : Except (List Char) ((Bool × List Char) × List Char) :=
  let (isNegative, body) : Bool × List Char :=
    match cs with
    | '-' :: body => (true, body)
    | '+' :: body => (false, body)
    | body => (false, body)
  let (digits, rest) := spanDigits body
  if digits.isEmpty then .error rest else .ok ((isNegative, digits), rest)

/-- The digits after the point, if a point follows, or what is left where they should stand. -/
def readFraction : List Char → Except (List Char) (Option (List Char) × List Char)
  | '.' :: body =>
      let (digits, rest) := spanDigits body
      if digits.isEmpty then .error rest else .ok (some digits, rest)
  | cs => .ok (none, cs)

def readExponent : List Char → Except (List Char) (Option (Bool × List Char) × List Char)
  | 'e' :: body => (readPower body).map fun (power, rest) => (some power, rest)
  | 'E' :: body => (readPower body).map fun (power, rest) => (some power, rest)
  | cs => .ok (none, cs)

/-- The parts of the number in front and what follows it, or what is left where a digit should
stand. -/
def readUnsigned (isNegative : Bool) (cs : List Char) :
    Except (List Char) (Parts × List Char) := do
  let (integer, afterInteger) := spanDigits cs
  if integer.isEmpty then .error afterInteger
  else if integer.head? = some '0' && 1 < integer.length then .error integer
  else
    let (fraction, afterFraction) ← readFraction afterInteger
    let (power, rest) ← readExponent afterFraction
    pure (⟨isNegative, integer, fraction, power⟩, rest)

/-- The number in front of a text that starts with a minus or a digit, and the text after it. -/
def read (cs : List Char) : Token Numeral × Option (List Char) :=
  let parts := match cs with
    | '-' :: body => readUnsigned true body
    | body => readUnsigned false body
  match parts with
  | .ok (parts, rest) => (parts.token, some rest)
  | .error left => (missingDigit left, none)

end Numeral

end SafeCalls.Json
