/-
# The program

`check` and `format`, the first argument, choose the command; the other arguments are
those of the command.  Files are read and written where the program is started.
-/

import RobotSuite.Command.Run

namespace RobotSuite

/-- What the system says of a path that goes through something that is no directory. -/
def throughFile : String := "not a directory"

/-- The text of a file, or why it cannot be read. -/
def readText (path : String) : IO (Except ReadFault String) := do
  try
    return .ok (← IO.FS.readFile path)
  catch e =>
    match e with
    | .noFileOrDirectory .. => return .error .missing
    | .inappropriateType _ _ details =>
      return .error (if details = throughFile then .notDirectory else .directory)
    | _ => return .error (.other (toString e))

/-- Write a file through another one beside it, so that no reader sees half of it. -/
def replaceText (path text : String) : IO Unit := do
  let temporary := path ++ ".tmp"
  IO.FS.writeFile temporary text
  IO.FS.rename temporary path

/-- Process one file, and write what has come out. -/
def processPath (options : BatchOptions) (path : String) : IO FileReport := do
  let (report, _) := processFile options path (← readText path)
  match report.newText? with
  | none => return report
  | some text =>
    try
      replaceText path text
      return report
    catch e =>
      let failure := Failure.file "FILE_UNWRITABLE" path (toString e)
      return .ofFailure path report.source failure

/-- Run a command where the program is started. -/
def runHere (tool : Tool) (arguments : List String) : IO CommandResult := do
  match Plan.ofArguments tool arguments with
  | .finish result => return result
  | .process paths options result =>
    match SuiteConfig.ofFile (← readText SuiteConfig.fileName) with
    | .error fault => return .refuse fault.failure.bare
    | .ok config =>
      let reports ← paths.eraseDups.mapM (processPath (options config))
      return result (sortReports reports)

/-- The command that an argument names. -/
def Tool.ofTitle? : String → Option Tool
  | "check" => some .check
  | "format" => some .format
  | _ => none

/-- Print a message. -/
def printMessage (message : Channel × String) : IO Unit :=
  match message.1 with
  | .output => IO.println message.2
  | .errors => IO.eprintln message.2

/-- Run the command that the first argument names. -/
def runArguments (arguments : List String) : IO UInt32 := do
  let result ← match arguments.head?.bind Tool.ofTitle? with
    | some tool => runHere tool arguments.tail
    | none => pure (.refuse "Expected check or format")
  result.messages.forM printMessage
  return result.ending.code.toUInt32

end RobotSuite

/-- The program. -/
def main (arguments : List String) : IO UInt32 := RobotSuite.runArguments arguments
