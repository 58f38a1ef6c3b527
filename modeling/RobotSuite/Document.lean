/-
# Documents

Configurations and log details are documents: nested lists and mappings of texts,
numbers and flags.  A mapping keeps the order in which its keys were written, except
that keys which are list indexes come first, in ascending order (`Document.ofFields`).
-/

import RobotSuite.Number.Shortest
import RobotSuite.Number.Literal
import RobotSuite.Text.Units

namespace RobotSuite

/-- A value in a configuration. -/
inductive Document where
  | null
  | flag (b : Bool)
  /-- A number of double precision. -/
  | number (q : Rat)
  /-- A number too large for double precision. -/
  | infinite (negative : Bool)
  /-- What is said in place of a number. -/
  | notNumber
  | text (s : String)
  | list (items : List Document)
  | mapping (fields : List (String × Document))
deriving Inhabited

namespace Document

/-- The number that a key stands for, if it is an index of a list. -/
def indexOf? (key : String) : Option Nat :=
  let cs := key.toList
  if cs.isEmpty || !cs.all Number.isDigit || (cs.head? = some '0' && cs.length ≠ 1) then none
  else
    let n := Number.digitsValue 10 (cs.filterMap Number.digit?)
    if n < Nat.pow 2 32 - 1 then some n else none

/-- Fields in the order in which a mapping keeps them. -/
def orderFields (fields : List (String × Document)) : List (String × Document) :=
  let indexed := fields.filterMap fun f => (indexOf? f.1).map fun n => (n, f)
  (indexed.mergeSort fun a b => a.1 ≤ b.1).map (·.2) ++
    fields.filter fun f => (indexOf? f.1).isNone

/-- A mapping with the given fields. -/
def ofFields (fields : List (String × Document)) : Document := mapping (orderFields fields)

/-- A list of texts. -/
def ofTexts (ss : List String) : Document := list (ss.map text)

/-- A number of code units or lines. -/
def ofNat (n : Nat) : Document := number n

/-- A field of a mapping. -/
def field? (d : Document) (key : String) : Option Document :=
  match d with
  | mapping fields => fields.lookup key
  | _ => none

/-- The fields of a mapping. -/
def fields? : Document → Option (List (String × Document))
  | mapping fields => some fields
  | _ => none

/-- The text of a document that is one. -/
def text? : Document → Option String
  | text s => some s
  | _ => none

/-- The number of a document that is one. -/
def number? : Document → Option Rat
  | number q => some q
  | _ => none

/-- The flag of a document that is one. -/
def flag? : Document → Option Bool
  | flag b => some b
  | _ => none

/-- The items of a document that is a list. -/
def list? : Document → Option (List Document)
  | list items => some items
  | _ => none

/-- The texts of a document that is a list of texts. -/
def texts? (d : Document) : Option (List String) := d.list?.bind fun items => items.mapM text?

mutual

/-- A document inside a message: texts as they are, lists joined by commas. -/
def shown : Document → String
  | null => "null"
  | flag b => if b then "true" else "false"
  | number q => Number.text q
  | infinite negative => if negative then "-Infinity" else "Infinity"
  | notNumber => "NaN"
  | text s => s
  | list items => ",".intercalate (shownItems items)
  | mapping _ => "[object Object]"

/-- The items of a list inside a message; nothing is written for an absent one. -/
def shownItems : List Document → List String
  | [] => []
  | .null :: rest => "" :: shownItems rest
  | d :: rest => shown d :: shownItems rest

end

mutual

/-- Whether a document can be put into a message.  A mapping cannot when one of its fields
is named like the method that makes texts of mappings, and a list cannot when one of its
items cannot. -/
def isShowable : Document → Bool
  | list items => areShowable items
  | mapping fields => fields.all fun f => f.1 ≠ "toString"
  | _ => true

/-- Whether the items of a list can be put into a message. -/
def areShowable : List Document → Bool
  | [] => true
  | d :: rest => isShowable d && areShowable rest

end

end Document

end RobotSuite
