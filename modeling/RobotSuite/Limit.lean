/-
# Limits of texts and lists

A text holds at most `maxTextLength` code units and a list at most `maxItems` items.  What
would be larger is not made; `Overflow` says what it would have been.

`spaces_eq_ok_iff` says which runs of spaces are made.
-/

import RobotSuite.Text.Units

namespace RobotSuite

/-- The most code units that a text holds. -/
def maxTextLength : Nat := 536870888

/-- The most items that a list holds. -/
def maxItems : Nat := 4294967295

/-- The least number that counts as infinite: half a step above the largest 64-bit binary
number with 53 significant bits. -/
def infinity : Nat := Nat.pow 2 1024 - Nat.pow 2 970

/-- What would have been too large. -/
inductive Overflow where
  /-- A list with too many items. -/
  | list
  /-- A text with too many code units. -/
  | text
  /-- A text repeated without end. -/
  | repetition
deriving Repr, DecidableEq, Inhabited

/-- The wording of an overflow. -/
def Overflow.message : Overflow → String
  | .list => "Invalid array length"
  | .text => "Invalid string length"
  | .repetition => "Invalid count value: Infinity"

/-- A run of spaces, unless it is too long. -/
def spaces? (count : Nat) : Except Overflow String :=
  if count ≤ maxTextLength then .ok (Text.spaces count)
  else if count < infinity then .error .text
  else .error .repetition

/-- Blanks can be written exactly up to the longest text. -/
theorem spaces_eq_ok_iff {count : Nat} {s : String} :
    spaces? count = .ok s ↔ count ≤ maxTextLength ∧ s = Text.spaces count := by
  unfold spaces?
  split
  · simp [*, eq_comm]
  · split <;> simp [*]

/-- Copies of an item, unless there are too many. -/
def copies? {α : Type} (count : Nat) (x : α) : Except Overflow (List α) :=
  if count ≤ maxItems then .ok (List.replicate count x) else .error .list

end RobotSuite
