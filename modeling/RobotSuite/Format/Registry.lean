/-
# All passes

The passes in the order in which they run.  Passes that move statements run in front of
those that lay lines out, so that these see the final order.
-/

import RobotSuite.Format.MergeSections
import RobotSuite.Format.OrderSettings
import RobotSuite.Format.Spelling
import RobotSuite.Format.UniqueTags
import RobotSuite.Format.EmptyLines
import RobotSuite.Format.Gaps
import RobotSuite.Format.Split
import RobotSuite.Format.Columns

namespace RobotSuite

/-- The passes, in order. -/
def Pass.all : List Pass :=
  [MergeSections.pass, OrderSettings.pass, Spelling.headerPass, Spelling.settingPass,
   UniqueTags.pass, EmptyLines.pass, Gaps.pass, Split.pass, Columns.pass]

/-- The formatter's configuration unless one is given. -/
def FormatConfig.default : FormatConfig := standard (Pass.all.map (·.info))

/-- The formatter's configuration that a document gives. -/
def FormatConfig.read (d : Document) : Except ConfigFault FormatConfig :=
  ofDocument (Pass.all.map (·.info)) d

end RobotSuite
