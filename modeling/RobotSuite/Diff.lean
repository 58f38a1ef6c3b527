/-
# Differences between two texts

Two texts are compared line by line.  A table holds, for each two suffixes of the lists
of lines, the length of their longest common subsequence.  The comparison walks along the
table: equal lines are kept, and of two ways that keep equally many lines the one that
adds a line goes first.
-/

import RobotSuite.Text.Units

namespace RobotSuite

/-- What becomes of one line. -/
inductive LineEdit where
  | keep (line : String)
  | add (line : String)
  | remove (line : String)
deriving Repr, DecidableEq, Inhabited

namespace LineEdit

/-- The line with a mark for what becomes of it. -/
def shown : LineEdit → String
  | keep line => " " ++ line
  | add line => "+" ++ line
  | remove line => "-" ++ line

/-- The line that an edit takes from the old text. -/
def old? : LineEdit → Option String
  | keep line | remove line => some line
  | add _ => none

/-- The line that an edit gives to the new text. -/
def new? : LineEdit → Option String
  | keep line | add line => some line
  | remove _ => none

/-- Whether a line is kept. -/
def isKept : LineEdit → Bool
  | keep _ => true
  | _ => false

end LineEdit

namespace Diff

/-- The row of the table for a list that starts with `line`, from the row `below` for its
tail. -/
def row (line : String) : List String → List Nat → List Nat
  | [], _ => [0]
  | b :: bs, below =>
    let right := row line bs below.tail
    let here :=
      if line = b then below.tail.headD 0 + 1 else max (below.headD 0) (right.headD 0)
    here :: right

/-- The rows of the table for all suffixes of `as`, the longest first. -/
def table : List String → List String → List (List Nat)
  | [], bs => [List.replicate (bs.length + 1) 0]
  | a :: as, bs =>
    let rest := table as bs
    row a bs (rest.headD []) :: rest

/-- The edits along a table. -/
def walk : List String → List String → List (List Nat) → List LineEdit
  | [], bs, _ => bs.map .add
  | as, [], _ => as.map .remove
  | a :: as, b :: bs, rows =>
    if a = b then .keep a :: walk as bs (rows.tail.map List.tail)
    else if (rows.tail.headD []).headD 0 ≤ (rows.headD []).tail.headD 0 then
      .add b :: walk (a :: as) bs (rows.map List.tail)
    else .remove a :: walk as (b :: bs) rows.tail
termination_by as bs => as.length + bs.length

end Diff

/-- The edits that lead from one list of lines to another and keep as many lines as
possible. -/
def lineEdits (old new : List String) : List LineEdit :=
  Diff.walk old new (Diff.table old new)

/-- The difference of two texts, under two lines that name the file. -/
def lineDiff (path before after : String) : String :=
  let edits := lineEdits (Text.pieces '\n' before) (Text.pieces '\n' after)
  "\n".intercalate (("--- " ++ path) :: ("+++ " ++ path) :: edits.map LineEdit.shown)

end RobotSuite
