namespace SafeCalls.Number

/-!
# Binary floating point

A finite, non-negative double is an integer significand below 2 ^ 53 times a power of two. A
ratio of naturals is rounded to the nearest double, an exact half to the even neighbour, and a
ratio that rounds past the largest double has none.
-/

/-- The natural nearest to `n / d`; of two equally near ones the even one. -/
def roundHalfEven (n d : Nat) : Nat :=
  let q := n / d
  let r := n % d
  if 2 * r < d then q
  else if d < 2 * r then q + 1
  else if q % 2 = 0 then q
  else q + 1

/-- The double `significand * 2 ^ exponent`. -/
structure Binary64 where
  significand : Nat
  exponent : Int
  deriving DecidableEq, Repr

namespace Binary64

def zero : Binary64 := ⟨0, 0⟩

/-- The significand of a power of two, `2 ^ 52`. -/
def leadingBit : Nat := 4503599627370496

/-- Numerator of the value as a ratio of naturals. -/
def numerator (x : Binary64) : Nat := x.significand <<< x.exponent.toNat

/-- Denominator of the value as a ratio of naturals. -/
def denominator (x : Binary64) : Nat := 1 <<< (-x.exponent).toNat

/-- The greatest power of two that is at most `n / d`, by its exponent, for positive `n` and
`d`. -/
def binade (n d : Nat) : Int :=
  let e : Int := (Nat.log2 n : Int) - (Nat.log2 d : Int)
  if d <<< e.toNat ≤ n <<< (-e).toNat then e else e - 1

/-- The double nearest to `n / d`. -/
def ofRatio (n d : Nat) : Option Binary64 :=
  if n = 0 then some zero
  else
    let q := max (binade n d - 52) (-1074)
    let m := roundHalfEven (n <<< (-q).toNat) (d <<< q.toNat)
    let x : Binary64 := if m = 2 * leadingBit then ⟨leadingBit, q + 1⟩ else ⟨m, q⟩
    if 971 < x.exponent then none else some x

/-- The rounded product with a power of ten that is itself rounded first. -/
def timesTenPow (x : Binary64) (k : Nat) : Option Binary64 := do
  let p ← ofRatio (Nat.pow 10 k) 1
  ofRatio (x.numerator * p.numerator) (x.denominator * p.denominator)

/-- The rounded quotient by a power of ten that is itself rounded first. -/
def overTenPow (x : Binary64) (k : Nat) : Option Binary64 := do
  let p ← ofRatio (Nat.pow 10 k) 1
  ofRatio (x.numerator * p.denominator) (x.denominator * p.numerator)

/-- Scaling by `10 ^ k` for the exponents of which a power of ten is a double, and in steps of
308 below them; three steps down leave zero of any 64-bit integer. -/
def scale : Nat → Binary64 → Int → Option Binary64
  | 0, _, _ => some zero
  | steps + 1, x, k =>
      if x.significand = 0 then some zero
      else if 308 < k then none
      else if 0 ≤ k then x.timesTenPow k.toNat
      else if -308 ≤ k then x.overTenPow (-k).toNat
      else (x.overTenPow 308).bind fun y => scale steps y (k + 308)

/-- The double read from the decimal `significand * 10 ^ k`: the significand is rounded to a
double, and then the scaled value is. -/
def ofScaled (significand : Nat) (k : Int) : Option Binary64 :=
  (ofRatio significand 1).bind fun x => scale 4 x k

/-- The double nearest to the decimal `significand * 10 ^ k`. -/
def ofDecimal (significand : Nat) (k : Int) : Option Binary64 :=
  let size : Int := (Nat.toDigits 10 significand).length
  if significand = 0 || size + k < -400 then some zero
  else if 400 < size + k then none
  else ofRatio (significand * Nat.pow 10 k.toNat) (Nat.pow 10 (-k).toNat)

end Binary64

end SafeCalls.Number
