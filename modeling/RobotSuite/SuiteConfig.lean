/-
# The configuration of both tools

A configuration file has a part for the checker and a part for the formatter.  An empty
file, and a part that is absent, ask for nothing.
-/

import RobotSuite.Format.Registry
import RobotSuite.Lint.Registry
import RobotSuite.Yaml.Document

namespace RobotSuite

/-- The configuration of both tools. -/
structure SuiteConfig where
  /-- The checker's part. -/
  check : LintConfig
  /-- The formatter's part. -/
  format : FormatConfig
deriving Repr, DecidableEq, Inhabited

namespace SuiteConfig

/-- The configuration that asks for nothing. -/
def default : SuiteConfig := ⟨LintConfig.default, FormatConfig.default⟩

/-- The keys of the parts. -/
def parts : List String := ["check", "format"]

/-- The configuration that a document gives. -/
def read : Document → Except ConfigFault SuiteConfig
  | .null => pure default
  | .mapping fields =>
    match fields.find? fun f => !parts.contains f.1 with
    | some f => throw (.unknownKey f.1)
    | none => do
      let part (key : String) : Document := (Document.field? (.mapping fields) key).getD .null
      let check ← LintConfig.read (part "check")
      let format ← FormatConfig.read (part "format")
      pure ⟨check, format⟩
  | _ => throw .notMapping

/-- The configuration that the text of a file gives. -/
def ofSource (source : String) : Except ConfigFault SuiteConfig :=
  match Document.ofYaml? source with
  | some d => read d
  | none => throw .malformed

/-- The name of the configuration file. -/
def fileName : String := ".robolint.yaml"

/-- A configuration as a document, from which it can be read again. -/
def toDocument (c : SuiteConfig) : Document :=
  .mapping [("check", c.check.toDocument), ("format", c.format.toDocument)]

end SuiteConfig

end RobotSuite
