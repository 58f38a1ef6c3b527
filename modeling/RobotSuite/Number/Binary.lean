/-
# Numbers of double precision

Numbers in configurations are rational numbers that binary64 can hold: `m · 2^e` with
`m < 2^53` and `-1074 ≤ e`.  `toBinary?` rounds a rational number to the nearest of
them, ties to the even one, and fails when the number is too large.
-/

namespace RobotSuite
namespace Number

/-- The integer nearest to `n / d`; of two the even one. -/
def roundHalfEven (n d : Nat) : Nat :=
  let q := n / d
  let r := n % d
  if 2 * r < d || (2 * r = d && q % 2 = 0) then q else q + 1

/-- The power of two as a rational number. -/
def twoPow (e : Int) : Rat :=
  if 0 ≤ e then (Nat.pow 2 e.toNat : Rat) else 1 / (Nat.pow 2 (-e).toNat : Rat)

/-- The power of ten as a rational number. -/
def tenPow (e : Int) : Rat :=
  if 0 ≤ e then (Nat.pow 10 e.toNat : Rat) else 1 / (Nat.pow 10 (-e).toNat : Rat)

/-- The exponent of the last of 53 binary digits of a positive number, but at least
-1074. -/
def lastPlace (q : Rat) : Int :=
  let guess : Int := (Nat.log2 q.num.natAbs : Int) - (Nat.log2 q.den : Int)
  let lead := if q < twoPow guess then guess - 1 else guess
  max (lead - 52) (-1074)

/-- How many units of its last place a positive number has, rounded. -/
def mantissa (q : Rat) (e : Int) : Nat :=
  let scaled := q / twoPow e
  roundHalfEven scaled.num.natAbs scaled.den

/-- The nearest number of double precision; none when it would be too large. -/
def toBinary? (q : Rat) : Option Rat :=
  if q = 0 then some 0
  else
    let size := if q < 0 then -q else q
    let e := lastPlace size
    let r := (mantissa size e : Rat) * twoPow e
    if twoPow 1024 ≤ r then none else some (if q < 0 then -r else r)

/-- The nearest number of double precision, or the number itself when that is too
large. -/
def toBinary (q : Rat) : Rat := (toBinary? q).getD q

/-- Sum of two numbers of double precision. -/
def add (a b : Rat) : Rat := toBinary (a + b)

/-- Product of two numbers of double precision. -/
def mul (a b : Rat) : Rat := toBinary (a * b)

/-- Whether a number is an integer. -/
def isInteger (q : Rat) : Bool := q.den = 1

end Number
end RobotSuite
