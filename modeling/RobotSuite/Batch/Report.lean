/-
# Reports on files

For each file that is checked or formatted a report says what was found, what has become
of the file, and why it could not be processed if that is so.  Reports are printed as
text or as a document, and decide with which code a command ends.
-/

import RobotSuite.Document.Printer
import RobotSuite.Lint.Diagnostic

namespace RobotSuite

/-- How many fixes were applied, and how many were left out. -/
structure FixCount where
  applied : Nat
  skipped : Nat
deriving Repr, DecidableEq, Inhabited

/-- Why a file could not be processed. -/
structure FileFault where
  /-- The code of the failure. -/
  code : String
  /-- What has happened. -/
  message : String
deriving Repr, DecidableEq, Inhabited

/-- What has become of one file. -/
structure FileReport where
  /-- The file, as it was named. -/
  path : String
  /-- What is wrong with the text that the file now holds. -/
  diagnostics : List Diagnostic := []
  /-- How many defects there are among the diagnostics. -/
  parseErrors : Nat := 0
  /-- Whether the output differs from the source. -/
  changed : Bool := false
  /-- Whether the output was written to the file. -/
  written : Bool := false
  /-- Why the formatter left the file alone. -/
  skipped : Option String := none
  /-- What became of the fixes. -/
  fixes : Option FixCount := none
  /-- The text that was read. -/
  source : Option String := none
  /-- The text that came out. -/
  output : Option String := none
  /-- Why the file could not be processed. -/
  error : Option FileFault := none
deriving Repr, DecidableEq, Inhabited

/-- Diagnostics that are at least as severe as a threshold. -/
def atThreshold (threshold : Severity) (ds : List Diagnostic) : List Diagnostic :=
  ds.filter fun d => threshold.rank ≤ d.severity.rank

/-! ## As text -/

/-- A diagnostic of a file on one line. -/
def Diagnostic.shown (path : String) (d : Diagnostic) : String :=
  path ++ ":" ++ Number.text d.location.line ++ ":" ++ Number.text d.location.column ++ ": " ++
    d.severity.title ++ ": " ++ d.message ++ " (" ++ d.code ++ ")"

/-- Diagnostics of a file, one on each line. -/
def diagnosticsText (path : String) (ds : List Diagnostic) : String :=
  "\n".intercalate (ds.map (·.shown path))

namespace FileReport

/-- The line that says why a file could not be processed. -/
def failureLine? (r : FileReport) : Option String := r.error.map fun e => "Error: " ++ e.message

/-- The line that says how many fixes were applied, if there were any. -/
def fixLine? (r : FileReport) : Option String :=
  (r.fixes.filter fun n => 0 < n.applied || 0 < n.skipped).map fun n =>
    s!"{r.path}: applied {n.applied}, skipped {n.skipped} fixes"

/-- The line that says what formatting does to a file, if it does anything. -/
def statusLine? (r : FileReport) (writes : Bool) : Option String :=
  if r.error.isSome then none
  else match r.skipped with
    | some reason => some s!"{r.path}: skipped ({reason})"
    | none =>
      if !r.changed then none
      else if writes then some s!"reformatted {r.path}"
      else some s!"would reformat {r.path}"

end FileReport

/-! ## As a document -/

/-- A location as a document. -/
def Location.toDocument (l : Location) : Document :=
  .mapping [("line", .ofNat l.line), ("column", .ofNat l.column), ("offset", .number l.offset)]

/-- A place as a document. -/
def Spot.toDocument (l : Spot) : Document :=
  .mapping
    [("line", .number l.line), ("column", .number l.column), ("offset", .number l.offset)]

/-- A fix as a document. -/
def Fix.toDocument (f : Fix) : Document :=
  .mapping
    [("description", .text f.description), ("applicable", .flag f.applicable),
      ("range",
        .mapping [("start", f.range.start.toDocument), ("end", f.range.stop.toDocument)]),
      ("replacement", .text f.replacement)]

/-- A diagnostic as a document. -/
def Diagnostic.toDocument (d : Diagnostic) : Document :=
  .mapping
    ([("location", d.location.toDocument), ("severity", .text d.severity.title),
      ("code", .text d.code), ("message", .text d.message), ("context", .text d.context)] ++
      (d.fix.map fun f => ("fix", f.toDocument)).toList)

/-- How many diagnostics there are, in all and of each severity. -/
def summary (ds : List Diagnostic) : Document :=
  let count (s : Severity) : Document := .ofNat (ds.countP fun d => d.severity = s)
  .mapping
    [("total", .ofNat ds.length), ("errors", count .error), ("warnings", count .warning),
      ("info", count .info)]

/-- A report as a document. -/
def FileReport.toDocument (threshold : Severity) (r : FileReport) : Document :=
  let ds := atThreshold threshold r.diagnostics
  .mapping
    ([("file", .text r.path), ("errors", .list (ds.map Diagnostic.toDocument)),
      ("summary", summary ds)] ++
      (r.error.map fun e =>
        ("failure", .mapping [("code", .text e.code), ("message", .text e.message)])).toList)

/-- Reports as a document, with a summary of them all. -/
def reportsDocument (threshold : Severity) (rs : List FileReport) : Document :=
  .mapping
    [("files", .list (rs.map (·.toDocument threshold))),
      ("summary", summary (rs.flatMap fun r => atThreshold threshold r.diagnostics))]

/-! ## The end of a command -/

/-- How a command ends. -/
inductive Ending where
  | fine
  /-- Something is to be mended. -/
  | issues
  /-- A file could not be processed, or the command itself could not run. -/
  | failed
  /-- A file has defects. -/
  | defects
deriving Repr, DecidableEq, Inhabited

/-- The exit code of an ending. -/
def Ending.code : Ending → Nat
  | .fine => 0
  | .issues => 1
  | .failed => 2
  | .defects => 3

/-- How checking ends. -/
def checkEnding (threshold : Severity) (rs : List FileReport) : Ending :=
  if rs.any fun r => r.error.isSome then .failed
  else if rs.any fun r => 0 < r.parseErrors then .defects
  else if rs.any fun r => !(atThreshold threshold r.diagnostics).isEmpty then .issues
  else .fine

/-- How formatting ends; `check` says that a file that would change is an issue. -/
def formatEnding (check : Bool) (rs : List FileReport) : Ending :=
  if rs.any fun r => r.error.isSome then .failed
  else if check && rs.any (·.changed) then .issues
  else .fine

end RobotSuite
