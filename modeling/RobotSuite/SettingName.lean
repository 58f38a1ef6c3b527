/-
# Setting names

Suite settings (`Suite Setup`) and the bracketed settings of tests and keywords
(`[Tags]`).  Names are compared without blanks and case; a name that is not known is
written in title case.
-/

import RobotSuite.Text.Blank
import RobotSuite.Text.Case

namespace RobotSuite
namespace SettingName

/-- Names that a Settings section may hold. -/
def suite : List String :=
  ["Documentation", "Metadata", "Library", "Resource", "Variables", "Name",
   "Suite Setup", "Suite Teardown", "Test Setup", "Test Teardown", "Test Timeout",
   "Test Template", "Task Setup", "Task Teardown", "Task Timeout", "Task Template",
   "Force Tags", "Test Tags", "Task Tags", "Default Tags", "Keyword Tags"]

/-- Names that stand in brackets inside a test or keyword. -/
def block : List String :=
  ["Documentation", "Tags", "Arguments", "Setup", "Teardown", "Template", "Timeout", "Return"]

/-- Suite settings whose values are tags. -/
def tags : List String := ["Force Tags", "Test Tags", "Task Tags", "Default Tags", "Keyword Tags"]

/-- A name without blanks and case. -/
def key (cs : List Char) : List Char := Text.lowerChars (Text.removeBlanks cs)

/-- A name in title case, its words one space apart. -/
def titleCase (cs : List Char) : String :=
  " ".intercalate ((Text.words cs).map fun w => String.ofList (Text.titleWord w))

/-- The known name with the same key, else the name in title case. -/
def canonical (known : List String) (cs : List Char) : String :=
  (known.find? fun name => key name.toList = key cs).getD (titleCase cs)

/-- A list without its last element, if that is `c`. -/
def dropLastChar (c : Char) (cs : List Char) : List Char :=
  if cs.getLast? = some c then cs.dropLast else cs

/-- A list without its first element, if that is `c`. -/
def dropFirstChar (c : Char) : List Char → List Char
  | [] => []
  | d :: cs => if d = c then cs else d :: cs

/-- The name of a suite setting; one colon at its end does not count. -/
def ofSuiteCell (cell : String) : String := canonical suite (dropLastChar ':' cell.toList)

/-- The name of a bracketed setting. -/
def ofBlockCell (cell : String) : String :=
  canonical block (dropLastChar ']' (dropFirstChar '[' cell.toList))

/-- Whether a cell is written in brackets. -/
def isBracketed (cell : String) : Bool :=
  match cell.toList with
  | '[' :: rest => rest.getLast? = some ']'
  | _ => false

end SettingName
end RobotSuite
