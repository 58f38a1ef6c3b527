/-
# Reading documents

Documents are read from JSON.  A mapping with the same key twice is refused, and so is
anything behind the document but white space.
-/

import RobotSuite.Document

namespace RobotSuite
namespace Document

/-- White space between the parts of a document. -/
def isLayout (c : Char) : Bool := c = ' ' || c = '\n' || c = '\t' || c = '\r'

/-- What is left behind white space. -/
def skipLayout (cs : List Char) : List Char := cs.dropWhile isLayout

/-- Read four hexadecimal digits. -/
def takeHex4 : List Char → Option (Nat × List Char)
  | a :: b :: c :: d :: rest => (Number.based? 16 [a, b, c, d]).map fun n => (n, rest)
  | _ => none

/-- The character of two surrogates. -/
def pairSurrogates (high low : Nat) : Char :=
  Char.ofNat (0x10000 + (high - 0xD800) * 0x400 + (low - 0xDC00))

/-- Read an escape, behind its backslash.  A surrogate without its partner is replaced
by U+FFFD. -/
def takeEscape : List Char → Option (Char × List Char)
  | '"' :: rest => some ('"', rest)
  | '\\' :: rest => some ('\\', rest)
  | '/' :: rest => some ('/', rest)
  | 'b' :: rest => some (Char.ofNat 8, rest)
  | 'f' :: rest => some (Char.ofNat 12, rest)
  | 'n' :: rest => some ('\n', rest)
  | 'r' :: rest => some ('\r', rest)
  | 't' :: rest => some ('\t', rest)
  | 'u' :: rest => do
    let (n, rest) ← takeHex4 rest
    if n < 0xD800 || 0xE000 ≤ n then return (Char.ofNat n, rest)
    let unpaired := (Char.ofNat 0xFFFD, rest)
    match rest with
    | '\\' :: 'u' :: more =>
      match takeHex4 more with
      | some (low, after) =>
        if n < 0xDC00 && 0xDC00 ≤ low && low < 0xE000 then return (pairSurrogates n low, after)
        else return unpaired
      | none => return unpaired
    | _ => return unpaired
  | _ => none

/-- Read a text behind its opening quote; `fuel` bounds its length. -/
def takeText : Nat → List Char → Option (List Char × List Char)
  | 0, _ => none
  | _ + 1, [] => none
  | fuel + 1, c :: rest =>
    if c = '"' then some ([], rest)
    else if c = '\\' then do
      let (d, rest) ← takeEscape rest
      let (ds, rest) ← takeText fuel rest
      return (d :: ds, rest)
    else if c.toNat < 0x20 then none
    else do
      let (ds, rest) ← takeText fuel rest
      return (c :: ds, rest)

/-- Whether the digits of a number are written as they should be: no zero in front of
another digit, and at least one digit on each side of a point. -/
def isWellWritten (d : Number.Decimal) : Bool :=
  !d.whole.isEmpty && (d.whole.head? ≠ some 0 || d.whole.length = 1) &&
    d.fraction.all fun ds => !ds.isEmpty

/-- Read a number behind its sign. -/
def takeNumber (negative : Bool) (cs : List Char) : Option (Document × List Char) :=
  let (d, rest) := Number.takeDecimal cs
  if isWellWritten d then
    match d.value? with
    | some q => some (number (if negative then -q else q), rest)
    | none => some (infinite negative, rest)
  else none

/-- Whether a key occurs twice. -/
def hasRepeatedKey : List (String × Document) → Bool
  | [] => false
  | (key, _) :: rest => rest.any (fun f => f.1 == key) || hasRepeatedKey rest

mutual

/-- Read a document; `fuel` bounds its nesting and length. -/
def takeDocument : Nat → List Char → Option (Document × List Char)
  | 0, _ => none
  | fuel + 1, cs =>
    match cs with
    | 'n' :: 'u' :: 'l' :: 'l' :: rest => some (null, rest)
    | 't' :: 'r' :: 'u' :: 'e' :: rest => some (flag true, rest)
    | 'f' :: 'a' :: 'l' :: 's' :: 'e' :: rest => some (flag false, rest)
    | '"' :: rest => (takeText (rest.length + 1) rest).map fun (s, r) => (text (String.ofList s), r)
    | '-' :: rest => takeNumber true rest
    | '[' :: rest =>
      match skipLayout rest with
      | ']' :: after => some (list [], after)
      | inner => (takeItems fuel inner).map fun (items, r) => (list items, r)
    | '\x7b' :: rest =>
      match skipLayout rest with
      | '\x7d' :: after => some (mapping [], after)
      | inner => do
        let (fields, r) ← takeFields fuel inner
        if hasRepeatedKey fields then none else some (ofFields fields, r)
    | _ => takeNumber false cs

/-- Read the items of a list up to its closing bracket. -/
def takeItems : Nat → List Char → Option (List Document × List Char)
  | 0, _ => none
  | fuel + 1, cs => do
    let (d, rest) ← takeDocument fuel (skipLayout cs)
    match skipLayout rest with
    | ',' :: more =>
      let (ds, after) ← takeItems fuel more
      return (d :: ds, after)
    | ']' :: after => return ([d], after)
    | _ => none

/-- Read the fields of a mapping up to its closing brace. -/
def takeFields : Nat → List Char → Option (List (String × Document) × List Char)
  | 0, _ => none
  | fuel + 1, cs =>
    match skipLayout cs with
    | '"' :: inner => do
      let (key, rest) ← takeText (inner.length + 1) inner
      match skipLayout rest with
      | ':' :: rest =>
        let (d, rest) ← takeDocument fuel (skipLayout rest)
        match skipLayout rest with
        | ',' :: more =>
          let (fields, after) ← takeFields fuel more
          return ((String.ofList key, d) :: fields, after)
        | '\x7d' :: after => return ([(String.ofList key, d)], after)
        | _ => none
      | _ => none
    | _ => none

end

/-- The document that a text holds. -/
def read? (source : String) : Option Document :=
  let cs := skipLayout source.toList
  match takeDocument (cs.length + 1) cs with
  | some (d, rest) => if (skipLayout rest).isEmpty then some d else none
  | none => none

end Document
end RobotSuite
