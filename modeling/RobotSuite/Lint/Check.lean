/-
# Checking

The rules that a configuration switches on look at each node of a file when a walk comes
to it.  A rule that fails is reported as a diagnostic of its own, and the others go on.
The defects of the source are reported in front of what rules report at the same place.
-/

import RobotSuite.Lint.Registry
import RobotSuite.Notice
import RobotSuite.Tree.Parse

namespace RobotSuite

/-- What a check has found. -/
structure Findings where
  /-- The diagnostics. -/
  diagnostics : List Diagnostic
  /-- Notices, in order. -/
  notices : List Notice

/-- The code under which defects of a source are reported. -/
def defectCode : String := "PARSE_ERROR"

/-- The code under which a failure of a rule is reported. -/
def faultCode : String := "RULE_FAULT"

/-- The node that a walk comes to. -/
def Step.node? : Step → Option Node
  | .enter c => some (.container c)
  | .meet s => some (.statement s)
  | .leave _ => none

namespace Rule

/-- What a rule finds at a node. -/
def run (r : Rule) (config : LintConfig) (source : String) (lines : Array (List Char))
    (f : File) (scope : Scope) (node : Node) : Findings :=
  match r.validate ⟨source, lines, f, scope, config.paramsOf r.code⟩ node with
  | .ok ds =>
    match config.severityOf? r.code with
    | none => ⟨ds, []⟩
    | some severity => ⟨ds.map fun d => { d with severity }, []⟩
  | .error reason =>
    let fault := Failure.ruleFault r.code reason (some node.start.spot)
    ⟨[{ location := node.start.spot
        severity := .error
        code := faultCode
        message := fault.bare
        context := lineText lines node.start.line
        fix := none }],
      [Notice.ruleFault r.code reason node.start]⟩

end Rule

/-- What rules find at one step of a walk. -/
def checkStep (config : LintConfig) (source : String) (lines : Array (List Char)) (f : File)
    (rules : List Rule) (visit : Step × Scope) : List Findings :=
  match visit.1.node? with
  | none => []
  | some node =>
    (rules.filter fun r => r.visits node.type).map fun r =>
      r.run config source lines f visit.2 node

/-- What the rules that are switched on find in a file. -/
def checkFile (f : File) (source : String) (config : LintConfig) (rules : List Rule) :
    Findings :=
  let enabled := rules.filter fun r => config.runs r.code
  let lines := sourceLines source
  let found := f.visits.flatMap (checkStep config source lines f enabled)
  ⟨sortDiagnostics (found.flatMap (·.diagnostics)), found.flatMap (·.notices)⟩

/-- A defect of a source, whose lines are given, as a diagnostic. -/
def ParseError.diagnostic (lines : Array (List Char)) (e : ParseError) : Diagnostic :=
  { location := e.location.spot
    severity := .error
    code := defectCode
    message := e.failure.bare
    context := lineText lines e.location.line
    fix := none }

/-- What is wrong with a source: its defects and what rules find. -/
def checkSource (source : String) (config : LintConfig) (rules : List Rule) : Findings :=
  let f := parse source
  let lines := sourceLines source
  let found := checkFile f source config rules
  ⟨sortDiagnostics (f.errors.map (·.diagnostic lines) ++ found.diagnostics), found.notices⟩

/-- What is wrong with a source, unless it cannot be read. -/
def checkSource? (source : String) (config : LintConfig) (rules : List Rule) :
    Except Failure Findings :=
  (parse? source).map fun _ => checkSource source config rules

end RobotSuite
