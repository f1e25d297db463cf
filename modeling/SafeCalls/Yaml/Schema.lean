import SafeCalls.Problem

namespace SafeCalls.Yaml

/-!
# What plain scalars stand for

A plain scalar without a tag is nothing, a boolean, an integer, a floating point number, or else a
text. Digits after a leading zero are a text.
-/

namespace Schema

def isNothing (s : String) : Bool := ["~", "null", "Null", "NULL"].contains s

def boolean? (s : String) : Option Bool :=
  if ["true", "True", "TRUE"].contains s then some true
  else if ["false", "False", "FALSE"].contains s then some false
  else none

/-- The value of a digit in bases up to sixteen. -/
def digit? (c : Char) : Option Nat :=
  if '0' ≤ c ∧ c ≤ '9' then some (c.toNat - '0'.toNat)
  else if 'a' ≤ c ∧ c ≤ 'f' then some (c.toNat - 'a'.toNat + 10)
  else if 'A' ≤ c ∧ c ≤ 'F' then some (c.toNat - 'A'.toNat + 10)
  else none

/-- The value of digits that go on after a number. -/
def digitsFrom? (base : Nat) : Nat → List Char → Option Nat
  | n, [] => some n
  | n, c :: rest =>
      match digit? c with
      | some d => if d < base then digitsFrom? base (n * base + d) rest else none
      | none => none

/-- The value of at least one digit. -/
def digits? (base : Nat) (cs : List Char) : Option Nat :=
  if cs.isEmpty then none else digitsFrom? base 0 cs

/-- Whether a text consists of digits with a zero in front. -/
def isZeroLed : List Char → Bool
  | '0' :: c :: rest => (c :: rest).all Char.isDigit
  | _ => false

/-- The value of an integer without its sign. -/
def magnitude? : List Char → Option Nat
  | '0' :: 'x' :: digits => digits? 16 digits
  | '0' :: 'o' :: digits => digits? 8 digits
  | '0' :: 'b' :: digits => digits? 2 digits
  | digits => if isZeroLed digits then none else digits? 10 digits

/-- The value of an integer that has no minus. -/
def natural? : List Char → Option Nat
  | '+' :: digits => magnitude? digits
  | digits => magnitude? digits

/-- The magnitude of an integer with a minus. -/
def negative? : List Char → Option Nat
  | '-' :: digits => magnitude? digits
  | _ => none

/-- The exponent after its mark. -/
def exponent? : List Char → Option Int
  | [] => some 0
  | mark :: rest =>
      if mark = 'e' ∨ mark = 'E' then
        match rest with
        | '-' :: digits => (digits? 10 digits).map fun n => -(n : Int)
        | '+' :: digits => (digits? 10 digits).map fun n => (n : Int)
        | digits => (digits? 10 digits).map fun n => (n : Int)
      else none

/-- The double that a decimal without sign is nearest to. Digits may be missing before or after the
point, but not both. -/
def decimal? (cs : List Char) : Option Number.Binary64 := do
  let integer := cs.takeWhile Char.isDigit
  let rest := cs.dropWhile Char.isDigit
  let (fraction, rest) :=
    match rest with
    | '.' :: rest => (rest.takeWhile Char.isDigit, rest.dropWhile Char.isDigit)
    | _ => ([], rest)
  let significand ← digits? 10 (integer ++ fraction)
  let exponent ← exponent? rest
  Number.Binary64.ofDecimal significand (exponent - fraction.length)

/-- A floating point number without its sign. -/
def unsignedReal? (isNegative : Bool) (cs : List Char) : Option Found :=
  if [".inf", ".Inf", ".INF"].contains (String.ofList cs) then some (.infinity isNegative)
  else (decimal? cs).map (.real isNegative)

def real? : List Char → Option Found
  | '+' :: cs => unsignedReal? false cs
  | '-' :: cs => unsignedReal? true cs
  | cs =>
      if [".nan", ".NaN", ".NAN"].contains (String.ofList cs) then some .notANumber
      else unsignedReal? false cs

/-- An integer, as far as 128 bits hold it. -/
def integer? (cs : List Char) : Option Found :=
  match natural? cs, negative? cs with
  | some n, _ =>
      if n < UInt64.size then some (.natural n)
      else if n < UInt64.size * UInt64.size then some (.wide n)
      else none
  | none, some n =>
      if n = 0 then some (.natural 0)
      else if 2 * n ≤ UInt64.size then some (.negative n)
      else if 2 * n ≤ UInt64.size * UInt64.size then some (.wide (-n))
      else none
  | none, none => none

/-- Whether a text is digits with a zero in front, apart from a sign. -/
def isPaddedNumber : List Char → Bool
  | '+' :: cs => isZeroLed cs
  | '-' :: cs => isZeroLed cs
  | cs => isZeroLed cs

/-- What a plain scalar stands for. -/
def found (s : String) : Found :=
  if s.isEmpty || isNothing s then .nothing
  else
    match boolean? s, integer? s.toList with
    | some b, _ => .bool b
    | none, some n => n
    | none, none =>
        if isPaddedNumber s.toList then .text s else (real? s.toList).getD (.text s)

end Schema

end SafeCalls.Yaml
