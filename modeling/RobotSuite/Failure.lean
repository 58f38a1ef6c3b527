/-
# Failures

Everything that can go wrong is reported as a failure with a code for programs and a
text for readers.  A failure that has a place names it at the end of its text;
`Failure.bare` is the text without that ending.
-/

import RobotSuite.Document
import RobotSuite.Tree

namespace RobotSuite

/-- What has failed. -/
inductive FailureKind where
  | general
  /-- A source has a defect. -/
  | parse
  /-- A rule failed on a part of a file. -/
  | ruleFault (rule : String)
  /-- A formatting pass left a part of a file alone. -/
  | passSkip (pass : String)
  /-- A model cannot be written as text. -/
  | render
  /-- A configuration is not valid. -/
  | config
  /-- A file could not be read or written. -/
  | file (path : String)
deriving Repr, DecidableEq

/-- A failure. -/
structure Failure where
  /-- What has failed. -/
  kind : FailureKind
  /-- The code of the failure. -/
  code : String
  /-- What happened, without the place. -/
  summary : String
  /-- Where it happened. -/
  location : Option Spot := none
  /-- Details for programs. -/
  context : Option Document := none

/-- The number of a line or column in a text. -/
def Spot.shown (q : Rat) : String := Number.text q

/-- The ending of a text that names a place. -/
def Spot.suffix (l : Spot) : String := " at " ++ shown l.line ++ ":" ++ shown l.column

/-- A text without the place that it may name at its end. -/
def dropPlace (s : String) : String :=
  let isDigit := Number.isDigit
  let reversed := s.toList.reverse
  let afterColumn := reversed.dropWhile isDigit
  match afterColumn with
  | ':' :: more =>
    let afterLine := more.dropWhile isDigit
    match afterLine with
    | ' ' :: 't' :: 'a' :: ' ' :: front =>
      if reversed.head?.any isDigit && more.head?.any isDigit then String.ofList front.reverse
      else s
    | _ => s
  | _ => s

namespace Failure

/-- The text of a failure. -/
def text (f : Failure) : String :=
  f.summary ++ (f.location.map Spot.suffix).getD ""

/-- The text of a failure without the place at its end. -/
def bare (f : Failure) : String := dropPlace f.text

/-- A rule failed for a reason. -/
def ruleFault (rule reason : String) (location : Option Spot) : Failure :=
  { kind := .ruleFault rule, code := "RULE_FAULT", summary := s!"Rule {rule} failed: {reason}",
    location, context := some (.mapping [("ruleCode", .text rule)]) }

/-- A pass left something alone for a reason. -/
def passSkip (pass reason : String) (location : Option Spot) : Failure :=
  { kind := .passSkip pass, code := "FORMAT_SKIP", summary := s!"{pass}: {reason}",
    location, context := some (.mapping [("pass", .text pass)]) }

/-- A model cannot be written as text. -/
def render (message : String) (location : Option Spot) : Failure :=
  { kind := .render, code := "RENDER_INVARIANT", summary := message, location }

/-- Something failed that no check had provided for. -/
def internal (message : String) : Failure :=
  { kind := .general, code := "INTERNAL", summary := message }

/-- Something is too large to be made. -/
def overflow (message : String) : Failure :=
  { kind := .general, code := "INTERNAL", summary := message }

/-- A document cannot be put into a message. -/
def unshown : Failure :=
  { kind := .general, code := "INTERNAL", summary := "Cannot convert object to primitive value" }

/-- A configuration is not valid. -/
def config (message : String) (context : Option Document) : Failure :=
  { kind := .config, code := "CONFIG_INVALID", summary := "Invalid configuration: " ++ message,
    context }

/-- A file could not be processed. -/
def file (code path reason : String) : Failure :=
  { kind := .file path, code, summary := s!"{path}: {reason}",
    context := some (.mapping [("path", .text path)]) }

end Failure

/-- The code of a defect. -/
def Defect.code : Defect → String
  | .controlCharacters | .headerControlCharacters => "PARSE_UNKNOWN_TEXT"
  | .unknownSection _ => "PARSE_INVALID_SECTION"
  | .strayContinuation | .outsideBlock _ | .strayBranch _ _ => "PARSE_INVALID_SYNTAX"
  | .unknownSetting _ => "PARSE_UNKNOWN_SETTING"
  | .unmatchedEnd => "PARSE_UNMATCHED_END"
  | .unclosedBlock _ => "PARSE_UNTERMINATED_BLOCK"
  | .untyped => "INTERNAL"

/-- Details of a defect for programs. -/
def Defect.context : Defect → Option Document
  | .unknownSection header => some (.mapping [("header", .text header)])
  | .unclosedBlock marker => some (.mapping [("marker", .text marker)])
  | _ => none

/-- A defect of a source as a failure. -/
def ParseError.failure (e : ParseError) : Failure :=
  { kind := .parse, code := e.defect.code, summary := e.defect.message,
    location := some e.location.spot, context := e.defect.context }

end RobotSuite
