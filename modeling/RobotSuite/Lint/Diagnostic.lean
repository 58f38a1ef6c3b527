/-
# Diagnostics

A diagnostic says what is wrong at a place of a source, how severe it is, and perhaps how
it can be fixed.  Diagnostics are listed by line and column.
-/

import RobotSuite.Location
import RobotSuite.Text.Blank

namespace RobotSuite

/-- How severe a diagnostic is. -/
inductive Severity where
  | error
  | warning
  | info
deriving Repr, DecidableEq, Inhabited

namespace Severity

/-- The name of a severity. -/
def title : Severity → String
  | .error => "error"
  | .warning => "warning"
  | .info => "info"

/-- The severity of a given name. -/
def ofTitle? : String → Option Severity
  | "error" => some .error
  | "warning" => some .warning
  | "info" => some .info
  | _ => none

/-- Severities in ascending order. -/
def rank : Severity → Nat
  | .info => 0
  | .warning => 1
  | .error => 2

end Severity

/-- A change of a source that mends what a diagnostic reports. -/
structure Fix where
  /-- What the change does. -/
  description : String
  /-- Whether it may be made without being asked. -/
  applicable : Bool
  /-- What is replaced. -/
  range : Span
  /-- By what it is replaced. -/
  replacement : String
deriving Repr, DecidableEq, Inhabited

/-- Something that is wrong in a source. -/
structure Diagnostic where
  /-- Where it is. -/
  location : Spot
  /-- How severe it is. -/
  severity : Severity
  /-- The code of the rule that reports it. -/
  code : String
  /-- What is wrong. -/
  message : String
  /-- The line of the source. -/
  context : String
  /-- How it can be mended. -/
  fix : Option Fix
deriving Repr, DecidableEq, Inhabited

/-- Whether a diagnostic may stand in front of another in a list: that depends on lines,
and on columns within a line. -/
def Diagnostic.precedes (a b : Diagnostic) : Bool :=
  if a.location.line = b.location.line then a.location.column ≤ b.location.column
  else a.location.line ≤ b.location.line

/-- Diagnostics by line and column, those of one place as they are. -/
def sortDiagnostics (ds : List Diagnostic) : List Diagnostic := ds.mergeSort Diagnostic.precedes

/-- The lines of a source.  A carriage return in front of a line feed belongs to the line
ending. -/
def sourceLines (source : String) : Array (List Char) :=
  let lines := Text.splitOn '\n' source.toList
  let bare (line : List Char) : List Char :=
    if line.getLast? = some '\r' then line.dropLast else line
  (lines.dropLast.map bare ++ lines.getLast?.toList).toArray

/-- One of the lines of a source, counted from one, without blanks at its ends; empty where
there is no such line. -/
def lineText (lines : Array (List Char)) (line : Rat) : String :=
  if line.den = 1 && 1 ≤ line.num then
    ((lines[(line.num - 1).toNat]?).map fun cs => String.ofList (Text.trimBlank cs)).getD ""
  else ""

/-- A line of a source without blanks at its ends. -/
def contextLine (source : String) (line : Rat) : String := lineText (sourceLines source) line

end RobotSuite
