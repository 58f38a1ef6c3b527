/-
# Notices

What checking and formatting have to say about their own work, apart from their results:
that a pass left a part of a file alone, or that a rule or pass failed.
-/

import RobotSuite.Failure
import RobotSuite.Tree.Validity

namespace RobotSuite

/-- How important a notice is. -/
inductive NoticeLevel where
  | error
  | warn
  | info
  | debug
deriving Repr, DecidableEq, Inhabited

/-- The name of a level. -/
def NoticeLevel.title : NoticeLevel → String
  | .error => "error"
  | .warn => "warn"
  | .info => "info"
  | .debug => "debug"

/-- The work that a notice is about. -/
inductive NoticeArea where
  | check
  | format
  | batch
deriving Repr, DecidableEq, Inhabited

/-- The name of an area. -/
def NoticeArea.title : NoticeArea → String
  | .check => "Check"
  | .format => "Format"
  | .batch => "Batch"

/-- A notice. -/
structure Notice where
  level : NoticeLevel
  area : NoticeArea
  text : String
  details : Option Document

/-- The text of a notice behind the area that it is about. -/
def Notice.message (n : Notice) : String :=
  "[" ++ n.area.title ++ "] " ++ n.text

/-- The code that a failure has, as details of a notice. -/
def Failure.codeDetails (f : Failure) : Document := .mapping [("code", .text f.code)]

namespace Notice

/-- A pass was refused a replacement. -/
def skip (pass : String) (issue : Issue) : Notice :=
  let f := Failure.passSkip pass issue.flaw.message (some issue.location.spot)
  ⟨.debug, .format, f.text, some f.codeDetails⟩

/-- A pass failed. -/
def passFault (pass reason : String) : Notice :=
  let f := Failure.passSkip pass reason none
  ⟨.warn, .format, f.text, some f.codeDetails⟩

/-- A rule failed at a place. -/
def ruleFault (rule reason : String) (location : Location) : Notice :=
  let f := Failure.ruleFault rule reason (some location.spot)
  ⟨.warn, .check, f.text, some (.mapping [("rule", .text rule)])⟩

/-- A file is not formatted for a reason, namely that it has defects. -/
def notFormatted (reason : String) (defects : Nat) : Notice :=
  ⟨.debug, .format, reason, some (.mapping [("errors", .ofNat defects)])⟩

end Notice

end RobotSuite
