/-
# Many files

Files are checked or formatted one by one.  What is reported of a file depends on its own
text and on the options only, and a failure is reported for its own file only.
-/

import RobotSuite.Batch.Disk
import RobotSuite.Batch.Report
import RobotSuite.Format.Run
import RobotSuite.Lint.Check
import RobotSuite.Lint.Fixing
import RobotSuite.SuiteConfig

namespace RobotSuite

/-- What is done with files. -/
inductive BatchMode where
  /-- Check them, and perhaps apply fixes. -/
  | check (fix : Bool)
  /-- Format them, and perhaps write the result. -/
  | format (write : Bool)
deriving Repr, DecidableEq, Inhabited

namespace BatchMode

/-- The name of a mode. -/
def title : BatchMode → String
  | check _ => "check"
  | format _ => "format"

/-- Whether changed texts are written to their files. -/
def writes : BatchMode → Bool
  | check fix => fix
  | format write => write

end BatchMode

/-- How many files are processed at once unless one says otherwise. -/
def usualConcurrency : Rat := 4

/-- What is to be done with files, and how. -/
structure BatchOptions where
  mode : BatchMode
  config : SuiteConfig
  /-- How many files are processed at once. -/
  concurrency : Option Rat := none
  /-- Whether the work was called off before it began. -/
  cancelled : Bool := false
  /-- Milliseconds that a file may take.  The clock stands at the start of the work, so
  that only a negative budget is used up. -/
  budget : Option Int := none

/-- How many files are processed at once; at least one. -/
def BatchOptions.width (o : BatchOptions) : Int :=
  max 1 (o.concurrency.getD usualConcurrency).floor

/-! ## One file -/

/-- What processing a text has led to. -/
structure Outcome where
  diagnostics : List Diagnostic := []
  output : Option String := none
  skipped : Option String := none
  fixes : Option FixCount := none

/-- How many of some diagnostics report defects. -/
def countDefects (ds : List Diagnostic) : Nat := ds.countP fun d => d.code = defectCode

/-- Check a text.  Fixes are applied only to a text without defects, and the result is
checked again. -/
def checkOutcome (config : LintConfig) (fix : Bool) (source : String) :
    Except Failure Outcome × List Notice :=
  match checkSource? source config Rule.all with
  | .error failure => (.error failure, [])
  | .ok found =>
    if !fix || 0 < countDefects found.diagnostics then
      (.ok { diagnostics := found.diagnostics }, found.notices)
    else
      match applyFixes? source found.diagnostics with
      | .error failure => (.error failure, found.notices)
      | .ok result =>
        let fixes := some ⟨result.applied, result.refused.length⟩
        if result.modified = source then
          (.ok { diagnostics := found.diagnostics, fixes }, found.notices)
        else
          let remaining := checkSource result.modified config Rule.all
          (.ok { diagnostics := remaining.diagnostics, output := some result.modified, fixes },
            found.notices ++ remaining.notices)

/-- Format a text. -/
def formatOutcome (config : FormatConfig) (source : String) :
    Except Failure Outcome × List Notice :=
  let (result, notices) := formatSource source config Pass.all
  (result.map fun r => { output := some r.text, skipped := r.skipped }, notices)

/-- Process a text. -/
def BatchOptions.outcome (o : BatchOptions) (source : String) :
    Except Failure Outcome × List Notice :=
  match o.mode with
  | .check fix => checkOutcome o.config.check fix source
  | .format _ => formatOutcome o.config.format source

/-- Why a file is not even read, if that is so. -/
def BatchOptions.obstacle? (o : BatchOptions) (path : String) : Option Failure :=
  if o.cancelled then some (.file "FILE_CANCELLED" path "cancelled")
  else match o.budget with
    | some ms =>
      if ms < 0 then some (.file "FILE_CANCELLED" path s!"timed out after {ms}ms") else none
    | none => none

/-- A notice that a file was written. -/
def Notice.wrote (path : String) : Notice := ⟨.info, .batch, s!"Wrote {path}", none⟩

/-- A notice that a file could not be processed. -/
def Notice.fileFault (path : String) (f : Failure) : Notice :=
  ⟨.error, .batch, f.text, some (.mapping [("path", .text path), ("code", .text f.code)])⟩

/-- The report on a file that could not be processed; its text, if it could be read. -/
def FileReport.ofFailure (path : String) (source : Option String) (f : Failure) : FileReport :=
  { path, source, error := some ⟨f.code, f.text⟩ }

/-- The report on a file with a text and an outcome. -/
def FileReport.ofOutcome (path : String) (writes : Bool) (source : String) (o : Outcome) :
    FileReport :=
  let changed := o.output.any (· != source)
  { path
    diagnostics := o.diagnostics
    parseErrors := countDefects o.diagnostics
    changed
    written := changed && writes
    skipped := o.skipped
    fixes := o.fixes
    source := some source
    output := o.output }

/-- The text that a report says was written. -/
def FileReport.newText? (r : FileReport) : Option String := if r.written then r.output else none

/-- The report on a file, from its text or the reason why it cannot be read. -/
def processFile (o : BatchOptions) (path : String) (text : Except ReadFault String) :
    FileReport × List Notice :=
  let failed (source : Option String) (f : Failure) (ns : List Notice) :
      FileReport × List Notice :=
    (.ofFailure path source f, ns ++ [.fileFault path f])
  match o.obstacle? path with
  | some f => failed none f []
  | none =>
    match text with
    | .error fault => failed none (.file "FILE_UNREADABLE" path (fault.message path)) []
    | .ok source =>
      match o.outcome source with
      | (.error f, ns) => failed (some source) f ns
      | (.ok outcome, ns) =>
        let r := FileReport.ofOutcome path o.mode.writes source outcome
        (r, if r.written then ns ++ [.wrote path] else ns)

/-! ## All files -/

/-- The work on many files so far. -/
structure BatchRun where
  /-- The files as they are now. -/
  disk : Disk
  /-- Reports, in the order of the work. -/
  reports : List FileReport := []
  /-- Notices, in order. -/
  notices : List Notice := []

/-- Process one more file. -/
def BatchRun.step (o : BatchOptions) (run : BatchRun) (path : String) : BatchRun :=
  let (report, notices) := processFile o path (run.disk.read path)
  { disk := match report.newText? with
      | some text => run.disk.write path text
      | none => run.disk
    reports := run.reports ++ [report]
    notices := run.notices ++ notices }

/-- A notice that some files are going to be processed. -/
def Notice.processing (o : BatchOptions) (files : Nat) : Notice :=
  ⟨.debug, .batch, s!"Processing {files} files",
    some (.mapping [("mode", .text o.mode.title), ("concurrency", .number o.width)])⟩

/-- Reports by the paths of their files, in the order of code units. -/
def sortReports (rs : List FileReport) : List FileReport :=
  rs.mergeSort fun a b => !Text.unitsLt b.path a.path

/-- Process files, each once. -/
def processFiles (disk : Disk) (o : BatchOptions) (paths : List String) : BatchRun :=
  let queue := paths.eraseDups
  let run := queue.foldl (BatchRun.step o)
    { disk, notices := [Notice.processing o queue.length] }
  { run with reports := sortReports run.reports }

end RobotSuite
