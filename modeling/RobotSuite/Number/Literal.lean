/-
# Reading numbers

A decimal has digits, perhaps a fraction and an exponent; it is read as the nearest
number of double precision.  `ofText?` reads the text of a command line option, where
blanks around the number do not count, nothing at all stands for zero, and `0x`, `0o`
and `0b` introduce other bases.
-/

import RobotSuite.Number.Binary
import RobotSuite.Text.Blank

namespace RobotSuite
namespace Number

/-- The value of some decimal digits. -/
def digitsValue (base : Nat) (digits : List Nat) : Nat :=
  digits.foldl (fun n d => n * base + d) 0

/-- The value of a digit of any base up to 36. -/
def digit? (c : Char) : Option Nat :=
  let n := c.toNat
  if 0x30 ≤ n && n ≤ 0x39 then some (n - 0x30)
  else if 0x41 ≤ n && n ≤ 0x5A then some (n - 0x41 + 10)
  else if 0x61 ≤ n && n ≤ 0x7A then some (n - 0x61 + 10)
  else none

/-- Whether a character is a decimal digit. -/
def isDigit (c : Char) : Bool := 0x30 ≤ c.toNat && c.toNat ≤ 0x39

/-- The decimal digits at the start of a text. -/
def takeDigits (cs : List Char) : List Nat × List Char :=
  ((cs.takeWhile isDigit).filterMap digit?, cs.dropWhile isDigit)

/-- A decimal without its sign. -/
structure Decimal where
  /-- Digits in front of the point. -/
  whole : List Nat
  /-- Digits behind the point; none when there is no point. -/
  fraction : Option (List Nat)
  /-- The exponent; none when there is no mark for it. -/
  exponent : Option Int

/-- Read a fraction. -/
def takeFraction : List Char → Option (List Nat) × List Char
  | '.' :: rest => let (ds, after) := takeDigits rest; (some ds, after)
  | cs => (none, cs)

/-- Read an exponent; a mark without digits is left alone. -/
def takeExponent (cs : List Char) : Option Int × List Char :=
  match cs with
  | mark :: rest =>
    if mark = 'e' || mark = 'E' then
      let (negative, rest) := match rest with
        | '-' :: r => (true, r)
        | '+' :: r => (false, r)
        | r => (false, r)
      let (ds, after) := takeDigits rest
      if ds.isEmpty then (none, cs)
      else
        let n : Int := digitsValue 10 ds
        (some (if negative then -n else n), after)
    else (none, cs)
  | [] => (none, [])

/-- Read a decimal and what is behind it. -/
def takeDecimal (cs : List Char) : Decimal × List Char :=
  let (whole, rest) := takeDigits cs
  let (fraction, rest) := takeFraction rest
  let (exponent, rest) := takeExponent rest
  (⟨whole, fraction, exponent⟩, rest)

/-- The nearest number of double precision; none when it would be too large. -/
def Decimal.value? (d : Decimal) : Option Rat :=
  let digits := d.whole ++ d.fraction.getD []
  let n := digitsValue 10 digits
  let e : Int := d.exponent.getD 0 - (d.fraction.getD []).length
  let size : Int := digits.length + e
  if n = 0 || size < -400 then some 0
  else if 400 < size && 400 < (Nat.toDigits 10 n).length + e then none
  else toBinary? (n * tenPow e)

/-- The value of digits in another base; none when there is none or a digit is too
large. -/
def based? (base : Nat) (cs : List Char) : Option Nat :=
  if cs.isEmpty then none
  else (cs.mapM fun c => (digit? c).filter (· < base)).map (digitsValue base)

/-- Read a decimal that makes up a whole text. -/
def decimal? (cs : List Char) : Option Rat :=
  let (d, rest) := takeDecimal cs
  if rest.isEmpty && !(d.whole.isEmpty && (d.fraction.getD []).isEmpty) then d.value? else none

/-- The number that a text stands for; none when it stands for no finite number. -/
def ofText? (s : String) : Option Rat :=
  match Text.trimBlank s.toList with
  | [] => some 0
  | '0' :: 'x' :: cs | '0' :: 'X' :: cs => (based? 16 cs).bind fun n => toBinary? n
  | '0' :: 'o' :: cs | '0' :: 'O' :: cs => (based? 8 cs).bind fun n => toBinary? n
  | '0' :: 'b' :: cs | '0' :: 'B' :: cs => (based? 2 cs).bind fun n => toBinary? n
  | '-' :: cs => (decimal? cs).map (- ·)
  | '+' :: cs => decimal? cs
  | cs => decimal? cs

end Number
end RobotSuite
