/-
# Scalars

A scalar that goes over several lines is folded: a single line break becomes a space, and
empty lines become line breaks.  Quotes and escapes are taken away.  What a plain scalar
says is null, a flag, a number or else a text; a quoted scalar is always a text.
-/

import RobotSuite.Document.Reader
import RobotSuite.Yaml.Scan

namespace RobotSuite
namespace Yaml

/-- A line without the carriage return of its line break and the blanks in front of it. -/
def trimLineEnd (line : List Char) : List Char :=
  let line := if line.getLast? = some '\r' then line.dropLast else line
  Text.dropEndWhile Text.isGap line

/-- Fold the lines behind the first; `empty` is the number of empty lines in front. -/
def foldRest (empty : Nat) : List (List Char) → List Char
  | [] => []
  | [last] => joint ++ last.dropWhile Text.isGap
  | line :: lines =>
    let line := (trimLineEnd line).dropWhile Text.isGap
    if line.isEmpty then foldRest (empty + 1) lines else joint ++ line ++ foldRest 0 lines
where
  /-- What becomes of line breaks. -/
  joint : List Char := if empty = 0 then [' '] else List.replicate empty '\n'

/-- Fold the lines of a scalar. -/
def foldLines (cs : List Char) : List Char :=
  match Text.splitOn '\n' cs with
  | [] => []
  | [line] => line
  | line :: lines => trimLineEnd line ++ foldRest 0 lines

/-- What stands between single quotes: two quotes are one. -/
def unquoteSingle : List Char → List Char
  | '\'' :: '\'' :: rest => '\'' :: unquoteSingle rest
  | c :: rest => c :: unquoteSingle rest
  | [] => []

/-- Characters that a backslash introduces, apart from those given by a number. -/
def escaped? : Char → Option Char
  | '0' => some (Char.ofNat 0)
  | 'a' => some (Char.ofNat 7)
  | 'b' => some (Char.ofNat 8)
  | 'e' => some (Char.ofNat 0x1B)
  | 'f' => some (Char.ofNat 12)
  | 'n' => some '\n'
  | 'r' => some '\r'
  | 't' => some '\t'
  | 'v' => some (Char.ofNat 11)
  | 'N' => some (Char.ofNat 0x85)
  | '_' => some (Char.ofNat 0xA0)
  | 'L' => some (Char.ofNat 0x2028)
  | 'P' => some (Char.ofNat 0x2029)
  | ' ' => some ' '
  | '"' => some '"'
  | '/' => some '/'
  | '\\' => some '\\'
  | '\t' => some '\t'
  | _ => none

/-- Number of hexadecimal digits behind a letter that introduces a code. -/
def codeLength? : Char → Option Nat
  | 'x' => some 2
  | 'u' => some 4
  | 'U' => some 8
  | _ => none

/-- Characters of codes.  The two surrogates of a character above U+FFFF are given one
after the other; a surrogate without its partner is replaced by U+FFFD. -/
def decodeUnits : List Nat → List Char
  | high :: low :: rest =>
    if 0xD800 ≤ high && high < 0xDC00 && 0xDC00 ≤ low && low < 0xE000 then
      Document.pairSurrogates high low :: decodeUnits rest
    else unit high :: decodeUnits (low :: rest)
  | [n] => [unit n]
  | [] => []
where
  /-- A character of one code. -/
  unit (n : Nat) : Char := if 0xD800 ≤ n && n < 0xE000 then Char.ofNat 0xFFFD else Char.ofNat n

/-- Line breaks at the start of a text with the blanks around them, and what is behind:
the number of line feeds. -/
def takeBreaks : List Char → Nat × List Char
  | ' ' :: rest | '\t' :: rest => takeBreaks rest
  | '\n' :: rest => let (n, after) := takeBreaks rest; (n + 1, after)
  | '\r' :: '\n' :: rest => let (n, after) := takeBreaks rest; (n + 1, after)
  | rest => (0, rest)

/-- Codes of what stands behind an opening double quote, up to the last character of the
text, which is the closing quote.  Blanks at the end of a line are dropped; `fuel` bounds
the length. -/
def doubleUnits? : Nat → List Char → Option (List Nat)
  | 0, _ => none
  | fuel + 1, cs =>
    match cs with
    | [] | [_] => some []
    | '\\' :: '\n' :: rest | '\\' :: '\r' :: '\n' :: rest =>
      doubleUnits? fuel (rest.dropWhile Text.isGap)
    | '\\' :: c :: rest =>
      match escaped? c, codeLength? c with
      | some d, _ => (doubleUnits? fuel rest).map (d.toNat :: ·)
      | none, some n =>
        let digits := rest.take n
        if digits.length < n then none
        else do
          let code ← Number.based? 16 digits
          if 0x10FFFF < code then none
          else (doubleUnits? fuel (rest.drop n)).map (code :: ·)
      | none, none => none
    | c :: rest =>
      let blanks := cs.takeWhile Text.isGap
      match cs.dropWhile Text.isGap with
      | '\n' :: more | '\r' :: '\n' :: more =>
        let (n, after) := takeBreaks more
        let joint := if n = 0 then [' '] else List.replicate n '\n'
        (doubleUnits? fuel after).map (joint.map Char.toNat ++ ·)
      | line =>
        if blanks.isEmpty then (doubleUnits? fuel rest).map (c.toNat :: ·)
        else (doubleUnits? fuel line).map (blanks.map Char.toNat ++ ·)

/-- Whether a plain scalar may start with a character. -/
def startsPlain (c : Char) : Bool :=
  !(c = '\t' || c = ',' || c = '%' || c = '|' || c = '>' || c = '@' || c.toNat = 0x60)

/-- Whether a text stands between two quotes. -/
def isBetween (quote : Char) (source : List Char) : Bool :=
  1 < source.length && source.head? = some quote && source.getLast? = some quote

/-- The characters that a scalar stands for; none if it is not well written. -/
def scalarText? (style : Style) (source : List Char) : Option (List Char) :=
  match style with
  | .plain => if source.head?.all startsPlain then some (foldLines source) else none
  | .single =>
    if isBetween '\'' source then some (unquoteSingle (foldLines source.tail.dropLast)) else none
  | .double =>
    if isBetween '"' source then (doubleUnits? (source.length + 1) source.tail).map decodeUnits
    else none

/-- A number too large for double precision, where none is given. -/
def numberOf (negative : Bool) : Option Rat → Document
  | some q => .number (if negative then -q else q)
  | none => .infinite negative

/-- A number without sign: a decimal, or a point and a word for infinity. -/
def unsigned? (negative : Bool) (cs : List Char) : Option Document :=
  if String.ofList cs ∈ [".inf", ".Inf", ".INF"] then some (.infinite negative)
  else
    let (d, rest) := Number.takeDecimal cs
    let isEmpty := d.whole.isEmpty && (d.fraction.getD []).isEmpty
    if rest.isEmpty && !isEmpty then some (numberOf negative d.value?) else none

/-- The number that a plain scalar says, of base 8 or 16 behind `0o` and `0x`. -/
def number? : List Char → Option Document
  | '0' :: 'o' :: cs => (Number.based? 8 cs).map fun n => numberOf false (Number.toBinary? n)
  | '0' :: 'x' :: cs => (Number.based? 16 cs).map fun n => numberOf false (Number.toBinary? n)
  | '-' :: cs => unsigned? true cs
  | '+' :: cs => unsigned? false cs
  | cs => unsigned? false cs

/-- What a plain scalar says. -/
def plainValue (cs : List Char) : Document :=
  let s := String.ofList cs
  if s ∈ ["", "~", "null", "Null", "NULL"] then .null
  else if s ∈ ["true", "True", "TRUE"] then .flag true
  else if s ∈ ["false", "False", "FALSE"] then .flag false
  else if s ∈ [".nan", ".NaN", ".NAN"] then .notNumber
  else (number? cs).getD (.text s)

/-- What a scalar says. -/
def scalarValue (style : Style) (cs : List Char) : Document :=
  if style = .plain then plainValue cs else .text (String.ofList cs)

end Yaml
end RobotSuite
