/-
# The layout of a line

A line of a statement is its cells, perhaps a comment, and its line ending.  Laying it
out again writes the indentation, the cells with gaps between them, the comment and the
line ending.
-/

import RobotSuite.Statement
import RobotSuite.Text.Blank

namespace RobotSuite

/-- A line of a statement without its gaps. -/
structure LineLayout where
  /-- Data cells, behind the marker `...` on a continued line. -/
  cells : List Token
  /-- The comment of the line. -/
  comment : Option Token
  /-- The line ending. -/
  ending : Token
deriving Repr, DecidableEq, Inhabited

/-- An empty line ending, for a line that has none. -/
def noEnding : Token := .create .eol ""

/-- The marker of a continued line. -/
def continuationMarker : Token := .create .continuation "..."

/-- The line ending of a line. -/
def endingOf (line : List Token) : Token := (line.getLast?.filter (·.isEol)).getD noEnding

namespace LineLayout

/-- The layout of one line. -/
def ofLine (line : List Token) : LineLayout :=
  { cells := line.filter fun t => t.isData || t.isContinuation
    comment := line.find? (·.isComment)
    ending := endingOf line }

/-- The layouts of the lines of a statement. -/
def ofTokens (ts : List Token) : List LineLayout := (splitLines ts).map ofLine

/-- Whether the line holds a comment and no cell. -/
def isCommentOnly (l : LineLayout) : Bool := l.cells.isEmpty && l.comment.isSome

end LineLayout

/-- Whether a statement has a line with a comment and no cell. -/
def Statement.hasCommentLine (s : Statement) : Bool :=
  (LineLayout.ofTokens s.tokens).any (·.isCommentOnly)

/-- A gap between cells. -/
def gap (value : String) : Token := .create .separator value

/-- The kind of a cell by its place: a cell in column one is a name, any other an
argument. -/
def placeCell (atStart : Bool) (t : Token) : Token :=
  if t.kind = .argument && atStart then { t with kind := .name }
  else if t.kind = .name && !atStart then { t with kind := .argument }
  else t

/-- Cells behind others, each behind its gap; `column` counts the cells in front. -/
def composeRest (gapAt : Nat → String) (column : Nat) : List Token → List Token
  | [] => []
  | cell :: cells =>
    gap (gapAt column) :: placeCell false cell :: composeRest gapAt (column + 1) cells

/-- The cells of a line with the gaps between them; `gapAt` gives the gap behind each
column. -/
def composeCells (gapAt : Nat → String) (atStart : Bool) : List Token → List Token
  | [] => []
  | cell :: cells => placeCell atStart cell :: composeRest gapAt 0 cells

/-- The tokens of a line that is laid out. -/
def composeLine (indent : String) (line : LineLayout) (separator : String)
    (gapAt : Nat → String) : List Token :=
  (if indent = "" then [] else [gap indent]) ++
    composeCells gapAt (indent = "") line.cells ++
    (match line.comment with
      | none => []
      | some comment => (if line.cells.isEmpty then [] else [gap separator]) ++ [comment]) ++
    [line.ending]

/-- Columns that tabs reach. -/
def tabStop : Nat := 4

/-- The columns that a line takes without its comment and the blanks at its end. -/
def dataWidth (line : List Token) : Nat :=
  let text := renderTokens (line.takeWhile fun t => !(t.isComment || t.isEol))
  Text.units (Text.expandTabsFrom tabStop 0 (Text.trimEnd text.toList))

/-- The indentation of a statement, as it is written. -/
def indentOf : List Token → String
  | [] => ""
  | t :: _ => if t.isSeparator then t.value else ""

end RobotSuite
