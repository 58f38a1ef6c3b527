/-
# Upper and lower case

Full, locale independent case mapping: a character may become several (`ß` is
written `SS`), and a capital sigma is written `ς` at the end of a word and `σ`
elsewhere.  Title case follows the units of the text: only a first character that
is a single code unit is raised.
-/

import RobotSuite.Text.CaseTable
import RobotSuite.Text.Units

namespace RobotSuite
namespace Text

/-- Image of a character under a list of shifts; itself when none covers it. -/
def shift (table : List CaseShift) (c : Char) : Char :=
  match table.find? (·.covers c.toNat) with
  | some r => Char.ofNat (c.toNat + r.delta).toNat
  | none => c

/-- Upper case of one character. -/
def upperChar (c : Char) : List Char :=
  let n := c.toNat
  if n < 0x80 then
    if 0x61 ≤ n && n ≤ 0x7A then [Char.ofNat (n - 32)] else [c]
  else match upperWhole.lookup n with
    | some ns => ns.map Char.ofNat
    | none => [shift upperShifts c]

/-- Lower case of one character outside any word. -/
def lowerChar (c : Char) : List Char :=
  let n := c.toNat
  if n < 0x80 then
    if 0x41 ≤ n && n ≤ 0x5A then [Char.ofNat (n + 32)] else [c]
  else if n = 0x130 then ['i', Char.ofNat 0x307]
  else [shift lowerShifts c]

/-- Upper case of a list of characters. -/
def upperChars (cs : List Char) : List Char := cs.flatMap upperChar

/-- A character with case. -/
def isCased (c : Char) : Bool := inRanges casedRanges c.toNat

/-- A character that a search for a cased neighbour passes over. -/
def isCaseIgnorable (c : Char) : Bool := inRanges caseIgnorableRanges c.toNat

/-- Whether the next character that case does not ignore is cased. -/
def facesCased (cs : List Char) : Bool :=
  match cs.find? (fun c => !isCaseIgnorable c) with
  | some c => isCased c
  | none => false

/-- Lower case of a list of characters; `before` holds the characters already read,
the nearest first. -/
def lowerAfter (before : List Char) : List Char → List Char
  | [] => []
  | c :: cs =>
    let image :=
      if c.toNat = 0x3A3 then
        [Char.ofNat (if facesCased before && !facesCased cs then 0x3C2 else 0x3C3)]
      else lowerChar c
    image ++ lowerAfter (c :: before) cs

/-- Lower case of a list of characters. -/
def lowerChars (cs : List Char) : List Char := lowerAfter [] cs

/-- Lower case of a text. -/
def lower (s : String) : String := String.ofList (lowerChars s.toList)

/-- Upper case of a text. -/
def upper (s : String) : String := String.ofList (upperChars s.toList)

/-- One word in title case: its first character raised, the rest lowered.  A first
character of two code units stays as it is. -/
def titleWord : List Char → List Char
  | [] => []
  | c :: cs => (if charUnits c = 1 then upperChar c else [c]) ++ lowerChars cs

end Text
end RobotSuite
