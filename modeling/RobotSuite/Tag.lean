/-
# Tags

Tags are cells of suite settings and of `[Tags]`.  Two tags are the same when they agree
but for case and blanks.
-/

import RobotSuite.Statement
import RobotSuite.Text.Variables

namespace RobotSuite

/-- How the case of tags is unified. -/
inductive TagCase where
  | lower
  | upper
  | title
  | preserve
deriving Repr, DecidableEq, Inhabited

/-- The mode of a given name. -/
def TagCase.ofName? : String → Option TagCase
  | "lowercase" => some .lower
  | "uppercase" => some .upper
  | "titlecase" => some .title
  | "preserve" => some .preserve
  | _ => none

/-- A text with each word, words being kept apart by single spaces, in title case. -/
def titleWords (s : String) : String :=
  " ".intercalate ((Text.splitOn ' ' s.toList).map fun w => String.ofList (Text.titleWord w))

/-- A tag in a given case.  A tag that holds a variable stays as it is. -/
def TagCase.apply (mode : TagCase) (tag : String) : String :=
  if Text.opensVariable tag.toList then tag
  else match mode with
    | .lower => Text.lower tag
    | .upper => Text.upper tag
    | .title => titleWords tag
    | .preserve => tag

/-- A tag in the case of a given name, if there is such a case or the tag holds a
variable. -/
def changeTagCase? (tag name : String) : Option String :=
  if Text.opensVariable tag.toList then some tag
  else (TagCase.ofName? name).map (·.apply tag)

/-- Whether the arguments of a statement are tags. -/
def Statement.holdsTags (s : Statement) : Bool :=
  s.suiteSetting?.any SettingName.tags.contains || s.blockSetting?.any (· = "Tags")

/-- The tags of a tag setting. -/
def Statement.tagCells (s : Statement) : List Token := if s.holdsTags then s.args else []

end RobotSuite
