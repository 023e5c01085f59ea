/-! Binary floating-point numbers of 64 bits, kept exactly: a finite one is `mantissa * 2 ^ exponent`
with a sign. Decimal and binary texts are related by `ofDecimal`, which rounds to the nearest number
and a tie to the even mantissa. -/
namespace EventCodegen

/-- A binary floating-point number. A finite one has a mantissa below 2^53 and an exponent of at
least -1074; the mantissa is at least 2^52 unless the exponent is -1074. -/
inductive Binary64
  | nan
  | infinite (negative : Bool)
  | finite (negative : Bool) (mantissa : Nat) (exponent : Int)
deriving DecidableEq, Repr

namespace Binary64

/-- The nearest whole number to `num / den`, the even one of two. -/
def roundRatio (num den : Nat) : Nat :=
  let q := num / den
  let r := num % den
  if 2 * r > den ∨ (2 * r = den ∧ q % 2 = 1) then q + 1 else q

/-- `num / den` divided by `base ^ e`, as numerator and denominator. -/
def descale (base num den : Nat) (e : Int) : Nat × Nat :=
  if 0 ≤ e then (num, den * Nat.pow base e.toNat) else (num * Nat.pow base (-e).toNat, den)

/-- The least mantissa of full length, `2 ^ 52`. -/
def fullMantissa : Nat := 4503599627370496

/-- The exponent at which `num / den` has a mantissa of 53 bits, or -1074 if that is higher. -/
def exponentOf (num den : Nat) : Int :=
  let guess : Int := (num.log2 : Int) - den.log2 - 52
  let (n, d) := descale 2 num den guess
  max (-1074) (if n < fullMantissa * d then guess - 1 else guess)

/-- The number nearest to `num / den`. -/
def ofRatio (negative : Bool) (num den : Nat) : Binary64 :=
  if num = 0 then finite negative 0 (-1074)
  else
    let e := exponentOf num den
    let (n, d) := descale 2 num den e
    let m := roundRatio n d
    let (m, e) := if m = 2 * fullMantissa then (fullMantissa, e + 1) else (m, e)
    if e > 971 then infinite negative else finite negative m e

/-- The number nearest to `digits * 10 ^ exponent`. An exponent far outside the range needs no
arithmetic: the result is zero or infinite. -/
def ofDecimal (negative : Bool) (digits : Nat) (exponent : Int) : Binary64 :=
  let places : Int := (Nat.toDigits 10 digits).length + exponent
  if digits = 0 ∨ places < -400 then finite negative 0 (-1074)
  else if places > 400 then infinite negative
  else
    let (num, den) := descale 10 digits 1 (-exponent)
    ofRatio negative num den

/-- The size of a finite number as numerator and denominator. -/
def ratio (mantissa : Nat) (exponent : Int) : Nat × Nat := descale 2 mantissa 1 (-exponent)

/-- Whether the number is a zero of either sign. -/
def isZero : Binary64 → Bool
  | finite _ m _ => m == 0
  | _ => false

/-- Whether the number equals the natural number `n`. -/
def equalsNat (n : Nat) : Binary64 → Bool
  | finite negative m e =>
    let (num, den) := ratio m e
    num == n * den && (!negative || n == 0)
  | _ => false

/-- Whether the number is below one. -/
def belowOne : Binary64 → Bool
  | nan => false
  | infinite negative => negative
  | finite negative m e => negative || (let (num, den) := ratio m e; num < den)

end Binary64
end EventCodegen
