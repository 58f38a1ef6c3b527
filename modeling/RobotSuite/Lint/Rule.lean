/-
# Rules

A rule looks at nodes of some types and reports what is wrong there.  It may fail on a
node.
-/

import RobotSuite.Lint.Config
import RobotSuite.Walk

namespace RobotSuite

/-- What a rule sees besides the node. -/
structure RuleContext where
  /-- The source text. -/
  source : String
  /-- The lines of the source. -/
  lines : Array (List Char)
  /-- The model of the source. -/
  file : File
  /-- What surrounds the node. -/
  scope : Scope
  /-- Values of the parameters of the rule. -/
  params : Params

/-- A rule. -/
structure Rule where
  /-- What the rule declares. -/
  info : RuleInfo
  /-- The types of nodes that the rule looks at. -/
  visits : NodeType → Bool
  /-- What the rule reports at a node, or why it failed. -/
  validate : RuleContext → Node → Except String (List Diagnostic)

namespace Rule

/-- The code of a rule. -/
def code (r : Rule) : String := r.info.code

/-- A rule that looks at whole files and does not fail. -/
def ofFile (info : RuleInfo) (check : RuleContext → File → List Diagnostic) : Rule :=
  { info
    visits := fun t => t = .file
    validate := fun ctx node =>
      match node with
      | .container (.file f) => pure (check ctx f)
      | _ => pure [] }

/-- A rule that looks at statements of some types and does not fail. -/
def ofStatements (info : RuleInfo) (types : StatementType → Bool)
    (check : RuleContext → Statement → List Diagnostic) : Rule :=
  { info
    visits := fun
      | .statement t => types t
      | _ => false
    validate := fun ctx node =>
      match node with
      | .statement s => pure (check ctx s)
      | _ => pure [] }

/-- A rule that looks at keywords and does not fail. -/
def ofKeywords (info : RuleInfo) (check : RuleContext → Block → List Diagnostic) : Rule :=
  { info
    visits := fun t => t = .block .keyword
    validate := fun ctx node =>
      match node with
      | .container (.block b) => pure (check ctx b)
      | _ => pure [] }

end Rule

namespace RuleContext

/-- A diagnostic of a rule. -/
def report (ctx : RuleContext) (info : RuleInfo) (at_ : Spot) (message : String)
    (fix : Option Fix) : Diagnostic :=
  { location := at_
    severity := info.severity
    code := info.code
    message
    context := lineText ctx.lines at_.line
    fix }

/-- Whether a keyword surrounds the node. -/
def inKeyword (ctx : RuleContext) : Bool := (ctx.scope.nearest? (.block .keyword)).isSome

/-- Whether a test case surrounds the node. -/
def inTestCase (ctx : RuleContext) : Bool := (ctx.scope.nearest? (.block .testCase)).isSome

end RuleContext

/-- The fix that replaces the text of a token. -/
def Fix.replaceToken (t : Token) (replacement description : String) : Fix :=
  { description, applicable := true, range := t.span, replacement }

/-- The name that the header of a block gives. -/
def Block.name (b : Block) : String := b.header.nameText

end RobotSuite
