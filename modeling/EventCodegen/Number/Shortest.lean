import EventCodegen.Number.Binary64

/-! The decimal text of a floating-point number: the fewest digits that read back as the same
number, of those the nearest to it, and of two that are equally near the one that ends in an even
digit. -/
namespace EventCodegen.Binary64

/-- `digits * 10 ^ exponent`. -/
structure Decimal where
  digits : Nat
  exponent : Int
deriving DecidableEq, Repr

/-- The power of ten below `num / den`: the `k` with `10 ^ k ≤ num / den < 10 ^ (k + 1)`, found by
going up from an estimate that is never too high. -/
def leadingPower (num den : Nat) : Int :=
  climb 4 (((num.log2 : Int) - den.log2 - 1) * 30103 / 100000 - 1)
where
  climb : Nat → Int → Int
    | 0, k => k
    | fuel + 1, k => if reaches (k + 1) then climb fuel (k + 1) else k
  reaches (k : Int) : Bool :=
    let (n, d) := descale 10 num den k
    d ≤ n

/-- Whether `num / den`, whose whole part is `low`, goes down to it in rounding: to the nearer of
`low` and `low + 1`, and from the middle to the even one. -/
def goesDown (num den low : Nat) : Bool :=
  let rest := num % den
  2 * rest < den || (2 * rest == den && low % 2 == 0)

/-- The decimal of `count` digits that reads back as the number `x`, which is `num / den` and has
the leading power `k`: one of the two neighbours on that grid, the nearer if both read back. -/
def ofDigitCount (x : Binary64) (num den : Nat) (k : Int) (count : Nat) : Option Decimal :=
  let e := k + 1 - count
  let (n, d) := descale 10 num den e
  let low := n / d
  let reads (v : Nat) : Bool := decide (ofDecimal false v e = x)
  match reads low, reads (low + 1) with
  | true, true => some ⟨if goesDown n d low then low else low + 1, e⟩
  | true, false => some ⟨low, e⟩
  | false, true => some ⟨low + 1, e⟩
  | false, false => none

/-- The decimal with the fewest digits that reads back as the positive number
`mantissa * 2 ^ exponent`; seventeen digits always do. -/
def shortest (mantissa : Nat) (exponent : Int) : Decimal :=
  let (num, den) := ratio mantissa exponent
  let k := leadingPower num den
  ((List.range 17).findSome? fun n =>
    ofDigitCount (finite false mantissa exponent) num den k (n + 1)).getD ⟨0, 0⟩

/-- Digits without the zeros at their end, whose number is added to the exponent. -/
def Decimal.trimmed (d : Decimal) : List Char × Int :=
  let digits := Nat.toDigits 10 d.digits
  let kept := (digits.reverse.dropWhile (· == '0')).reverse
  (kept, d.exponent + ((digits.length : Int) - kept.length))

/-- How a decimal is laid out: with a point among the digits and at least one digit after it while
the point stands within four places before or sixteen after the first digit, else with an exponent
of a sign and at least two digits. -/
def Decimal.layout (d : Decimal) : List Char :=
  let (digits, e) := d.trimmed
  let point : Int := digits.length + e
  let zeros (n : Int) := List.replicate n.toNat '0'
  if -4 < point ∧ point ≤ 16 then
    if point ≤ 0 then '0' :: '.' :: zeros (-point) ++ digits
    else if (digits.length : Int) ≤ point then digits ++ zeros (point - digits.length) ++ ['.', '0']
    else digits.take point.toNat ++ '.' :: digits.drop point.toNat
  else
    let power := point - 1
    let shown := Nat.toDigits 10 power.natAbs
    let mantissa := match digits with
      | first :: (next :: rest) => first :: '.' :: next :: rest
      | short => short
    mantissa ++ 'e' :: (if power < 0 then '-' else '+') :: zeros (2 - shown.length) ++ shown

/-- The text of a number. -/
def text : Binary64 → String
  | nan => "nan"
  | infinite negative => if negative then "-inf" else "inf"
  | finite negative m e =>
    let size := if m = 0 then ['0', '.', '0'] else (shortest m e).layout
    String.ofList (if negative then '-' :: size else size)

end EventCodegen.Binary64
