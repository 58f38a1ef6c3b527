/-
# All rules

The rules in the order in which they report.
-/

import RobotSuite.Lint.TagRules
import RobotSuite.Lint.SpaceRules
import RobotSuite.Lint.SizeRules
import RobotSuite.Lint.StyleRules

namespace RobotSuite

/-- The rules, in order. -/
def Rule.all : List Rule :=
  [TagRules.duplicated, TagRules.withSpace, TagRules.withOperator, TagRules.withReservedWord,
   TagRules.empty, TagRules.alreadySet,
   NameRules.behaviour, NameRules.nameCase, NameRules.upperElse,
   SpaceRules.indent, SpaceRules.trailing, SpaceRules.emptyRun, SpaceRules.mixed,
   SizeRules.line, SizeRules.arguments, SizeRules.calls,
   StyleRules.repeatedTestCase, StyleRules.repeatedKeyword, StyleRules.documentation,
   StyleRules.forceTags, StyleRules.singularHeader, StyleRules.reminder, StyleRules.order]

/-- The checker's configuration unless one is given. -/
def LintConfig.default : LintConfig := standard (Rule.all.map (·.info))

/-- The checker's configuration that a document gives. -/
def LintConfig.read (d : Document) : Except ConfigFault LintConfig :=
  ofDocument (Rule.all.map (·.info)) d

end RobotSuite
