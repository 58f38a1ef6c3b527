/-
# The commands

Both commands read their arguments and the configuration file, process files, and print
what has become of them.  `Plan.ofArguments` says what a command line asks for, so that a
command differs from `runCommand` only in where its files lie.
-/

import RobotSuite.Batch.Run
import RobotSuite.Command.Arguments
import RobotSuite.Diff

namespace RobotSuite

/-- The two commands. -/
inductive Tool where
  | check
  | format
deriving Repr, DecidableEq, Inhabited

/-- Where a message is printed. -/
inductive Channel where
  | output
  | errors
deriving Repr, DecidableEq, Inhabited

/-- What a command prints, in order, and how it ends. -/
structure CommandResult where
  messages : List (Channel × String)
  ending : Ending
deriving Repr, DecidableEq, Inhabited

namespace CommandResult

/-- What is printed on a channel. -/
def on (r : CommandResult) (c : Channel) : List String :=
  (r.messages.filter fun m => m.1 = c).map (·.2)

/-- A command that prints a text and ends. -/
def print (text : String) : CommandResult := ⟨[(.output, text)], .fine⟩

/-- A command that cannot run. -/
def refuse (message : String) : CommandResult := ⟨[(.errors, "Error: " ++ message)], .failed⟩

end CommandResult

/-- The version of the commands. -/
def version : String := "0.1.0"

/-! ## The checker -/

/-- What the checker says about itself. -/
def checkHelp : String :=
  "\n".intercalate
    ["robolint-check - Lint Robot Framework files",
     "",
     "Usage: robolint-check [options] <file...>",
     "",
     "Options:",
     "  --fix                Apply automatic fixes",
     "  --format <fmt>       Output format: text (default) or json",
     "  --threshold <level>  Lowest severity reported: info (default), warning or error",
     "  --concurrency <n>    Files processed at once (default 4)",
     "  --list-rules         List available rules",
     "  -h, --help           Show this help message",
     "  -v, --version        Show version number"]

/-- A rule on one line. -/
def RuleInfo.shown (r : RuleInfo) : String :=
  s!"{r.code} ({r.category.title}, {r.severity.title}): {r.description}"

/-- All rules, one on each line. -/
def ruleList : String := "\n".intercalate (Rule.all.map (·.info.shown))

/-- The diagnostics of some reports as the checker prints them. -/
def CheckArguments.printed (a : CheckArguments) (rs : List FileReport) : String :=
  match a.format with
  | .json => (reportsDocument a.threshold rs).indented ""
  | .text =>
    let texts := rs.map fun r => diagnosticsText r.path (atThreshold a.threshold r.diagnostics)
    let texts := texts.filter (· != "")
    if texts.isEmpty then "No issues found" else "\n".intercalate texts

/-- What the checker prints on a report besides diagnostics. -/
def FileReport.checkMessages (r : FileReport) : List (Channel × String) :=
  (r.failureLine?.toList ++ r.fixLine?.toList).map fun line => (.errors, line)

/-- What the checker prints on some reports. -/
def CheckArguments.result (a : CheckArguments) (rs : List FileReport) : CommandResult :=
  ⟨rs.flatMap FileReport.checkMessages ++ [(.output, a.printed rs)],
    checkEnding a.threshold rs⟩

/-! ## The formatter -/

/-- What the formatter says about itself. -/
def formatHelp : String :=
  "\n".intercalate
    ["robolint-format - Format Robot Framework files",
     "",
     "Usage: robolint-format [options] <file...>",
     "",
     "Options:",
     "  --check              Report files that would change, exit 1 if any",
     "  --diff-only          Print the changes instead of writing them",
     "  --concurrency <n>    Files processed at once (default 4)",
     "  -h, --help           Show this help message",
     "  -v, --version        Show version number"]

/-- The difference between the texts of a changed file. -/
def FileReport.difference? (r : FileReport) : Option String :=
  match r.changed, r.source, r.output with
  | true, some source, some output => some (lineDiff r.path source output)
  | _, _, _ => none

/-- What the formatter prints on a report. -/
def FormatArguments.messages (a : FormatArguments) (r : FileReport) :
    List (Channel × String) :=
  let difference := if a.diffOnly then r.difference? else none
  r.failureLine?.toList.map (fun line => (.errors, line)) ++
    difference.toList.map (fun text => (.output, text)) ++
    (r.statusLine? a.writes).toList.map fun line => (.errors, line)

/-- What the formatter prints on some reports. -/
def FormatArguments.result (a : FormatArguments) (rs : List FileReport) : CommandResult :=
  ⟨rs.flatMap a.messages, formatEnding a.check rs⟩

/-! ## Command lines -/

/-- What a command line asks for. -/
inductive Plan where
  /-- Nothing but to print something. -/
  | finish (result : CommandResult)
  /-- To process files under a configuration and to print a result made of the reports. -/
  | process (paths : List String) (options : SuiteConfig → BatchOptions)
      (result : List FileReport → CommandResult)

namespace Plan

/-- What the arguments of the checker ask for. -/
def ofCheck : CheckRequest → Plan
  | .help => .finish (.print checkHelp)
  | .version => .finish (.print RobotSuite.version)
  | .listRules => .finish (.print ruleList)
  | .check a =>
    .process a.files
      (fun config =>
        { mode := .check a.fix, config, concurrency := a.concurrency.map fun n => (n : Rat) })
      a.result

/-- What the arguments of the formatter ask for. -/
def ofFormat : FormatRequest → Plan
  | .help => .finish (.print formatHelp)
  | .version => .finish (.print RobotSuite.version)
  | .format a =>
    .process a.files
      (fun config =>
        { mode := .format a.writes, config
          concurrency := a.concurrency.map fun n => (n : Rat) })
      a.result

/-- What a command line asks for. -/
def ofArguments (tool : Tool) (arguments : List String) : Plan :=
  let plan := match tool with
    | .check => ofCheck <$> CheckRequest.read arguments
    | .format => ofFormat <$> FormatRequest.read arguments
  match plan with
  | .ok plan => plan
  | .error fault => .finish (.refuse fault.message)

end Plan

/-- The configuration that the text of the configuration file gives, or the reason why it
cannot be read.  Without such a file the configuration asks for nothing. -/
def SuiteConfig.ofFile (text : Except ReadFault String) : Except ConfigFault SuiteConfig :=
  match text with
  | .ok source => ofSource source
  | .error .missing => pure default
  | .error fault => throw (.unreadable (fault.message fileName))

/-- Run a command on a disk.  The second part of the result is the disk behind it. -/
def runCommand (disk : Disk) (tool : Tool) (arguments : List String) :
    CommandResult × Disk :=
  match Plan.ofArguments tool arguments with
  | .finish result => (result, disk)
  | .process paths options result =>
    match SuiteConfig.ofFile (disk.read SuiteConfig.fileName) with
    | .error fault => (.refuse fault.failure.bare, disk)
    | .ok config =>
      let run := processFiles disk (options config) paths
      (result run.reports, run.disk)

end RobotSuite
