import SafeCalls.Number.Binary64

namespace SafeCalls.Number

/-!
# Shortest decimals

The fewest decimal digits that read back as a given double, and of the decimals with that many
digits the one nearest to it. A decimal is tried on ever finer grids of powers of ten; on each
grid only the two neighbours of the value can lie in the interval of reals that round to it.
-/

/-- The decimal `digits * 10 ^ exponent`. -/
structure Decimal where
  digits : Nat
  exponent : Int
  deriving DecidableEq, Repr

/-- The exponent of the greatest power of ten that is at most `n / d`, for positive `n`, `d`. -/
def decade (n d : Nat) : Int :=
  if d ≤ n then ((Nat.toDigits 10 (n / d)).length : Int) - 1
  else -((Nat.toDigits 10 ((d + n - 1) / n - 1)).length : Int)

/-- Drops the trailing zeros of a positive decimal. -/
def Decimal.trimmed : Nat → Decimal → Decimal
  | 0, x => x
  | fuel + 1, x => if x.digits % 10 = 0 then trimmed fuel ⟨x.digits / 10, x.exponent + 1⟩ else x

namespace Binary64

/-- Whether `a / b` rounds to `x`: it lies between the midpoints to the neighbours of `x`, which
themselves count when the significand is even. The lower neighbour of a power of two is twice
as near. -/
def covers (x : Binary64) (a b : Nat) : Bool :=
  let below := if x.significand = leadingBit && -1074 < x.exponent then 1 else 2
  let unit : Binary64 := ⟨1, x.exponent - 2⟩
  let value := a * unit.denominator
  let low := (4 * x.significand - below) * unit.numerator * b
  let high := (4 * x.significand + 2) * unit.numerator * b
  if x.significand % 2 = 0 then low ≤ value && value ≤ high else low < value && value < high

/-- The neighbour of `x` on the grid of multiples of `10 ^ k` that rounds to `x`; of two the
nearer one, and of two equally near ones the even one. -/
def onGrid? (x : Binary64) (k : Int) : Option Decimal :=
  let n := x.numerator * Nat.pow 10 (-k).toNat
  let d := x.denominator * Nat.pow 10 k.toNat
  let nearest := roundHalfEven n d
  let other := if nearest = n / d then nearest + 1 else n / d
  let fits := fun g => x.covers (g * Nat.pow 10 k.toNat) (Nat.pow 10 (-k).toNat)
  if fits nearest then some ⟨nearest, k⟩
  else if fits other then some ⟨other, k⟩
  else none

/-- The shortest decimal that reads back as `x`, for a positive `x`. -/
def shortest (x : Binary64) : Decimal :=
  let top := decade x.numerator x.denominator
  let found := (List.range 17).findSome? fun (n : Nat) => x.onGrid? (top - (n : Int))
  (found.getD ⟨x.significand, 0⟩).trimmed 20

end Binary64

/-- Digits and zeros around the decimal point, at least one digit on either side. -/
def Decimal.positional (x : Decimal) : String :=
  let digits := Nat.toDigits 10 x.digits
  let point : Int := digits.length + x.exponent
  if 0 ≤ x.exponent then
    String.ofList (digits ++ List.replicate x.exponent.toNat '0') ++ ".0"
  else if 0 < point then
    String.ofList (digits.take point.toNat ++ '.' :: digits.drop point.toNat)
  else
    String.ofList ('0' :: '.' :: List.replicate (-point).toNat '0' ++ digits)

/-- One digit, the others after a point if there are any, and the power of ten with its sign
after an `e`. -/
def Decimal.scientific (x : Decimal) : String :=
  let digits := Nat.toDigits 10 x.digits
  let point : Int := x.exponent + (digits.length : Int) - 1
  let power := if 0 ≤ point then "+" ++ toString point else toString point
  match digits with
  | [] => "0"
  | [d] => String.ofList [d, 'e'] ++ power
  | d :: more => String.ofList (d :: '.' :: more) ++ "e" ++ power

/-- The text of a double, always with a point and never with a power of ten. -/
def Binary64.positional (x : Binary64) : String :=
  if x.significand = 0 then "0.0" else x.shortest.positional

/-- The text of a double, with a power of ten from `1e+16` on and below `1e-5`. -/
def Binary64.compact (x : Binary64) : String :=
  if x.significand = 0 then "0.0"
  else
    let d := x.shortest
    let point : Int := (Nat.toDigits 10 d.digits).length + d.exponent
    if -5 < point && point ≤ 16 then d.positional else d.scientific

end SafeCalls.Number
