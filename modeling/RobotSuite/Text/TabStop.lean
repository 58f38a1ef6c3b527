/-
# Tab stops of any width

Widths are numbers of double precision, so tab stops may lie between two columns, and a
width may be negative.  A tab is replaced with the whole columns up to the next stop;
where these are fewer than none, or the text would become too long, there is no such text.
-/

import RobotSuite.Limit
import RobotSuite.Number.Binary

namespace RobotSuite
namespace Text

/-- How far a column lies behind the last tab stop. -/
def sinceStop (width : Rat) (column : Nat) : Rat :=
  let size := if width < 0 then -width else width
  column - size * (column / size).floor

/-- Whole columns from a column to the next tab stop; none for a width of zero. -/
def toNextStop (width : Rat) (column : Nat) : Int :=
  if width = 0 then 0
  else
    let gap := Number.add width (-sinceStop width column)
    if gap < 0 then gap.ceil else gap.floor

/-- Replace tabs with spaces up to the next tab stop; `column` code units stand in front. -/
def expandTabsFrom? (width : Rat) (column : Nat) : List Char → Option (List Char)
  | [] => some []
  | c :: cs =>
    if c = '\t' then
      let fill := toNextStop width column
      if 0 ≤ fill && column + fill ≤ maxTextLength then
        (expandTabsFrom? width (column + fill.toNat) cs).map (List.replicate fill.toNat ' ' ++ ·)
      else none
    else (expandTabsFrom? width (column + charUnits c) cs).map (c :: ·)

/-- Replace tabs with spaces up to the next tab stop. -/
def expandTabs? (s : String) (width : Rat) : Option String :=
  (expandTabsFrom? width 0 s.toList).map String.ofList

/-- Columns of a run of whitespace in which a tab counts `tab` columns. -/
def gapNumber (tab : Rat) (s : String) : Rat :=
  s.toList.foldl (fun sum c => Number.add sum (if c = '\t' then tab else 1)) 0

end Text
end RobotSuite
