/-
# The arguments of both commands

The checker prints diagnostics and may apply fixes; the formatter rewrites files or says
what it would change.  A request for help, for the version or for the rules wins over
everything else on the line.
-/

import RobotSuite.Command.Options
import RobotSuite.Lint.Diagnostic

namespace RobotSuite

/-- How diagnostics are printed. -/
inductive OutputFormat where
  | text
  | json
deriving Repr, DecidableEq, Inhabited

namespace OutputFormat

/-- The name of a format. -/
def title : OutputFormat → String
  | text => "text"
  | json => "json"

/-- The format of a given name. -/
def ofTitle? : String → Option OutputFormat
  | "text" => some text
  | "json" => some json
  | _ => none

end OutputFormat

/-- A value that must be one of those `find?` knows. -/
def readName {α : Type} (find? : String → Option α) (fault : String → ArgumentFault)
    (value : String) : Except ArgumentFault α :=
  match find? value with
  | some a => pure a
  | none => throw (fault value)

/-- What the checker is asked to do with files. -/
structure CheckArguments where
  /-- The files, as they were named. -/
  files : List String
  /-- Whether fixes are applied. -/
  fix : Bool
  /-- How diagnostics are printed. -/
  format : OutputFormat
  /-- The lowest severity that is printed. -/
  threshold : Severity
  /-- How many files are processed at once. -/
  concurrency : Option Nat
deriving Repr, DecidableEq, Inhabited

/-- What the checker is asked for. -/
inductive CheckRequest where
  | check (arguments : CheckArguments)
  | help
  | version
  | listRules
deriving Repr, DecidableEq, Inhabited

/-- Whether help is asked for. -/
def asksHelp (arguments : List String) : Bool :=
  arguments.contains "--help" || arguments.contains "-h"

/-- Whether the version is asked for. -/
def asksVersion (arguments : List String) : Bool :=
  arguments.contains "--version" || arguments.contains "-v"

namespace CheckRequest

/-- The options of the checker. -/
def options : OptionTable :=
  { flags := ["--help", "-h", "--version", "-v", "--fix", "--list-rules"]
    valued := ["--format", "--threshold", "--concurrency"] }

/-- Read what files are to be checked, and how. -/
def readArguments (arguments : List String) : Except ArgumentFault CheckArguments := do
  let format ← readOption "--format" (readName OutputFormat.ofTitle? .badFormat) arguments
  let threshold ←
    readOption "--threshold" (readName Severity.ofTitle? .badThreshold) arguments
  let files ← options.someFiles arguments
  let concurrency ← readOption "--concurrency" readConcurrency arguments
  pure
    { files
      fix := arguments.contains "--fix"
      format := format.getD .text
      threshold := threshold.getD .info
      concurrency }

/-- What some arguments ask the checker for. -/
def read (arguments : List String) : Except ArgumentFault CheckRequest :=
  if asksHelp arguments then pure .help
  else if asksVersion arguments then pure .version
  else if arguments.contains "--list-rules" then pure .listRules
  else CheckRequest.check <$> readArguments arguments

end CheckRequest

/-- What the formatter is asked to do with files. -/
structure FormatArguments where
  /-- The files, as they were named. -/
  files : List String
  /-- Whether files that would change count as an issue and are left alone. -/
  check : Bool
  /-- Whether changes are printed and not written. -/
  diffOnly : Bool
  /-- How many files are processed at once. -/
  concurrency : Option Nat
deriving Repr, DecidableEq, Inhabited

/-- Whether changes are written. -/
def FormatArguments.writes (a : FormatArguments) : Bool := !a.check && !a.diffOnly

/-- What the formatter is asked for. -/
inductive FormatRequest where
  | format (arguments : FormatArguments)
  | help
  | version
deriving Repr, DecidableEq, Inhabited

namespace FormatRequest

/-- The options of the formatter. -/
def options : OptionTable :=
  { flags := ["--help", "-h", "--version", "-v", "--check", "--diff-only"]
    valued := ["--concurrency"] }

/-- Read what files are to be formatted, and how. -/
def readArguments (arguments : List String) : Except ArgumentFault FormatArguments := do
  let files ← options.someFiles arguments
  let concurrency ← readOption "--concurrency" readConcurrency arguments
  pure
    { files
      check := arguments.contains "--check"
      diffOnly := arguments.contains "--diff-only"
      concurrency }

/-- What some arguments ask the formatter for. -/
def read (arguments : List String) : Except ArgumentFault FormatRequest :=
  if asksHelp arguments then pure .help
  else if asksVersion arguments then pure .version
  else FormatRequest.format <$> readArguments arguments

end FormatRequest

end RobotSuite
