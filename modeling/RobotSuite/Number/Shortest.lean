/-
# The text of a number

A number of double precision is written with the fewest decimal digits that read back
as the same number; of several such decimals the nearest is taken.  Numbers from
`10^-6` up to `10^21` are written positionally, all others with an exponent.
-/

import RobotSuite.Number.Binary

namespace RobotSuite
namespace Number

/-- How the digits of a number are laid out. -/
structure Layout where
  /-- Most digits in front of the point. -/
  maxWhole : Nat
  /-- Most zeros between the point and the first other digit. -/
  maxZeros : Nat

/-- Up to 21 digits in front of the point, and up to five zeros behind it. -/
def layout : Layout := ⟨21, 5⟩

/-- Zeros between the point and the first digit of a number below one. -/
def zerosBehindPoint : Nat → Rat → Nat
  | 0, _ => 0
  | fuel + 1, q => if 1 ≤ q * 10 then 0 else zerosBehindPoint fuel (q * 10) + 1

/-- Position of the point relative to the first digit of a positive number. -/
def pointOf (q : Rat) : Int :=
  if 1 ≤ q then (Nat.toDigits 10 q.floor.toNat).length
  else -(zerosBehindPoint 400 q : Int)

/-- The decimals that read back as `q`: a positive number whose last place is `e`. -/
def readsBack (q : Rat) (e : Int) (candidate : Rat) : Bool :=
  let m := mantissa q e
  let low := q - (if m = Nat.pow 2 52 && -1074 < e then twoPow (e - 2) else twoPow (e - 1))
  let high := q + twoPow (e - 1)
  if m % 2 = 0 then low ≤ candidate && candidate ≤ high else low < candidate && candidate < high

/-- The fewest digits of a positive number and the power of ten of the last one; `k` is
the number of digits that is tried first. -/
def shortestFrom (q : Rat) (e point : Int) : Nat → Nat → Nat × Int
  | 0, k => ((q / tenPow (point - k)).floor.toNat, point - k)
  | fuel + 1, k =>
    let grid := tenPow (point - k)
    let below := (q / grid).floor.toNat
    let down : Rat := below * grid
    let up : Rat := (below + 1 : Nat) * grid
    let fitsDown := readsBack q e down && below ≠ 0
    let fitsUp := readsBack q e up
    if fitsDown && (!fitsUp || q - down ≤ up - q) then (below, point - k)
    else if fitsUp then (below + 1, point - k)
    else shortestFrom q e point fuel (k + 1)

/-- Digits without zeros at the end, and the power of ten of the last one. -/
def stripZeros : Nat → Nat → Int → Nat × Int
  | 0, digits, e => (digits, e)
  | fuel + 1, digits, e =>
    if digits % 10 = 0 then stripZeros fuel (digits / 10) (e + 1) else (digits, e)

/-- Lay out the digits of a number whose point stands `point` places behind the first
digit. -/
def layOutDigits (digits : List Char) (point : Int) : List Char :=
  let count : Int := digits.length
  if count ≤ point && point ≤ layout.maxWhole then
    digits ++ List.replicate (point - count).toNat '0'
  else if 0 < point && point ≤ layout.maxWhole then
    digits.take point.toNat ++ '.' :: digits.drop point.toNat
  else if -(layout.maxZeros : Int) ≤ point && point ≤ 0 then
    '0' :: '.' :: (List.replicate (-point).toNat '0' ++ digits)
  else
    let e := point - 1
    let sign := if e < 0 then '-' else '+'
    let fraction := if digits.length = 1 then [] else '.' :: digits.drop 1
    digits.take 1 ++ fraction ++ 'e' :: sign :: Nat.toDigits 10 e.natAbs

/-- The text of a positive number. -/
def positiveText (q : Rat) : List Char :=
  let (digits, e) := shortestFrom q (lastPlace q) (pointOf q) 17 1
  let (digits, e) := stripZeros 400 digits e
  let ds := Nat.toDigits 10 digits
  layOutDigits ds (ds.length + e)

/-- Whether a number is an integer of up to fifteen digits.  No other decimal of so few
digits reads back as that integer. -/
def isShortInteger (q : Rat) : Bool := q.den = 1 && q.num.natAbs < Nat.pow 10 15

/-- The text of a number of double precision. -/
def text (q : Rat) : String :=
  if isShortInteger q then toString q.num
  else String.ofList (if q < 0 then '-' :: positiveText (-q) else positiveText q)

end Number
end RobotSuite
