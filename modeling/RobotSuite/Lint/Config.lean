/-
# Configuration of the checker

For each rule, whether it is on, with which severity it reports, and the values of its
parameters.
-/

import RobotSuite.Config.Param
import RobotSuite.Lint.Diagnostic

namespace RobotSuite

/-- Whether a rule runs. -/
inductive RuleState where
  | on
  | off
  /-- The rule runs and reports warnings. -/
  | warn
deriving Repr, DecidableEq, Inhabited

namespace RuleState

/-- The name of a state. -/
def title : RuleState → String
  | on => "on"
  | off => "off"
  | warn => "warn"

/-- The state of a given name. -/
def ofTitle? : String → Option RuleState
  | "on" => some on
  | "off" => some off
  | "warn" => some warn
  | _ => none

end RuleState

/-- What rules are about. -/
inductive RuleCategory where
  | tags
  | naming
  | spacing
  | lengths
  | duplications
  | documentation
  | deprecated
  | comments
  | order
deriving Repr, DecidableEq, Inhabited

/-- The name of a category. -/
def RuleCategory.title : RuleCategory → String
  | .tags => "tags"
  | .naming => "naming"
  | .spacing => "spacing"
  | .lengths => "lengths"
  | .duplications => "duplications"
  | .documentation => "documentation"
  | .deprecated => "deprecated"
  | .comments => "comments"
  | .order => "order"

/-- What a rule declares about itself. -/
structure RuleInfo where
  /-- Its code, by which configurations and diagnostics speak of it. -/
  code : String
  /-- What it is about. -/
  category : RuleCategory
  /-- The severity of what it reports unless a configuration says otherwise. -/
  severity : Severity
  /-- What it reports. -/
  description : String
  /-- Its parameters. -/
  params : List Param := []
deriving Repr, DecidableEq, Inhabited

/-- The configuration of the checker. -/
structure LintConfig where
  /-- Which rules run. -/
  rules : Table RuleState
  /-- The severities of rules. -/
  severity : Table Severity
  /-- Values of parameters, by rule. -/
  params : Table Params
deriving Repr, DecidableEq, Inhabited

namespace LintConfig

/-- The configuration that asks for nothing, for some rules. -/
def standard (rules : List RuleInfo) : LintConfig :=
  { rules := rules.foldl (fun t r => Table.set t r.code .on) []
    severity := rules.foldl (fun t r => Table.set t r.code r.severity) []
    params := rules.foldl (fun t r =>
      if r.params.isEmpty then t else Table.set t r.code (Params.defaults r.params)) [] }

/-- Whether a rule runs. -/
def runs (c : LintConfig) (code : String) : Bool :=
  match c.rules.get? code with
  | some .on | some .warn => true
  | _ => false

/-- The severity with which a rule reports, if the configuration knows one. -/
def severityOf? (c : LintConfig) (code : String) : Option Severity :=
  if c.rules.get? code = some .warn then some .warning else c.severity.get? code

/-- The values of the parameters of a rule. -/
def paramsOf (c : LintConfig) (code : String) : Params := (c.params.get? code).getD []

/-- A part of a configuration that is a mapping; empty if it is absent. -/
def part (d : Document) (key : String) : Except ConfigFault (List (String × Document)) :=
  match d.field? key with
  | none => pure []
  | some (.mapping fields) => pure fields
  | some _ => throw (.notObject key)

/-- The rule of a code. -/
def ruleOf (rules : List RuleInfo) (code : String) : Except ConfigFault RuleInfo :=
  match rules.find? (·.code = code) with
  | some r => pure r
  | none => throw (.unknownRule code)

/-- The configuration that a document gives.  What it does not speak of keeps its
default. -/
def ofDocument (rules : List RuleInfo) (d : Document) : Except ConfigFault LintConfig := do
  let base := standard rules
  if let .null := d then return base
  if d.fields?.isNone then throw (.notObject "check")
  let states ← (← part d "rules").foldlM (fun t (code, value) => do
    let _ ← ruleOf rules code
    let some state := value.text?.bind RuleState.ofTitle?
      | throw (.ofValue (.badState code) value)
    pure (Table.set t code state)) base.rules
  let severity ← (← part d "severity").foldlM (fun t (code, value) => do
    let _ ← ruleOf rules code
    let some level := value.text?.bind Severity.ofTitle?
      | throw (.ofValue (.badSeverity code) value)
    pure (Table.set t code level)) base.severity
  let params ← (← part d "params").foldlM (fun t (code, values) => do
    let rule ← ruleOf rules code
    let merged ← Params.merge s!"rule {code}" rule.params ((t.get? code).getD []) values
    pure (Table.set t code merged)) base.params
  pure { rules := states, severity, params }

/-- A configuration as a document, from which it can be read again. -/
def toDocument (c : LintConfig) : Document :=
  .mapping
    [("rules", .mapping (c.rules.map fun (code, s) => (code, .text s.title))),
      ("severity", .mapping (c.severity.map fun (code, s) => (code, .text s.title))),
      ("params", .mapping (c.params.map fun (code, ps) =>
        (code, .mapping (ps.map fun (key, v) => (key, v.toDocument)))))]

end LintConfig

end RobotSuite
